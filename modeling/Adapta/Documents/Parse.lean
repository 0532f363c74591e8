import Adapta.AppSettings.Whitelist
import Adapta.Documents.Structured
import Adapta.Documents.Windows

/-!
# Parsing and chunking a file

`parse_and_chunk` of `adapta/services/documents.py`, with the chunk settings that `_index_file`
resolves for the team.  On the plain-text path two chunks share no more than the overlap that
`chunk_text` works with, and this is the team's `chunk_overlap` unless that is zero: zero is
taken for a value that is not given, and the configured overlap comes in its place.

## What is abstracted

A path is given by its name and its suffix in lower case, a content type by its lower case; what
the file contains as text, and what the converter makes of it, are the file's, or reading and
converting it raise.
-/

namespace Adapta.Documents

open Lib AppSettings

/-! ## Files -/

def textExtensions : List Str := [str ".txt", str ".md", str ".markdown"]

def doclingExtensions : List Str :=
  [str ".pdf", str ".docx", str ".html", str ".htm", str ".png", str ".jpg", str ".jpeg",
    str ".tif", str ".tiff"]

structure Path where
  name : Str
  suffix : Str
  /-- `read_text`. -/
  text : Option Str
  /-- What the converter returns: the document and the pages. -/
  conversion : Option ((Int → List RawPiece) × List PageResult)

/-- The message of the `InvalidRequest`. -/
def couldNotParse (path : Path) : Str := str "Could not parse file " ++ path.name

def noText (filename : Str) : Str :=
  str "File " ++ filename ++ str " yielded no extractable text"

/-- `extract_text`. -/
def extractText (path : Path) : Except Str Str :=
  match path.text with
  | some text => .ok text
  | none => .error (couldNotParse path)

/-- `parse`. -/
def parse (path : Path) : Except Str ParsedDocument :=
  match path.conversion with
  | some (doc, pages) => .ok ⟨doc, pageOcr pages⟩
  | none => .error (couldNotParse path)

/-- The file is read as text. -/
def plainPath (path : Path) (contentType : Str) : Bool :=
  path.suffix ∈ textExtensions ||
    (path.suffix ∉ doclingExtensions && (str "text/").isPrefixOf contentType)

/-- A chunk of plain text has no page and no section. -/
def Chunk.unpaged (c : Chunk) : PageChunk :=
  { c with page := none, sectionPath := none, ocr := false, ocrConfidence := none }

/-- `parse_and_chunk`. -/
def parseAndChunk (d : Defaults) (path : Path) (contentType filename : Str)
    (size overlap : Option Int) : Except Str (List PageChunk) :=
  if plainPath path contentType then do
    let text ← extractText path
    if strip text = [] then .error (noText filename)
    else .ok ((chunkText d text filename size overlap).map fun x ↦ x.2.unpaged)
  else do
    let parsed ← parse path
    let chunks := chunk d parsed filename size
    if chunks = [] then .error (noText filename) else .ok chunks

/-- What the chunks of a file are made of, on the plain-text path. -/
theorem parseAndChunk_plain {d : Defaults} {path : Path} {contentType filename text : Str}
    {size overlap : Option Int} (hplain : plainPath path contentType = true)
    (htext : path.text = some text) (hinked : strip text ≠ []) :
    parseAndChunk d path contentType filename size overlap =
      .ok ((chunkText d text filename size overlap).map fun x ↦ x.2.unpaged) := by
  rw [parseAndChunk, if_pos hplain, extractText, htext]
  exact if_neg hinked

/-! ## The overlap -/

/-- Two consecutive chunks of a plain text share sentences of a total length of at most the
overlap; the windows are those of the loop. -/
def OverlapHonoured (d : Defaults) (size overlap : Int) : Prop :=
  ∀ path contentType filename text, plainPath path contentType = true → path.text = some text →
    strip text ≠ [] → ∃ chunks,
      parseAndChunk d path contentType filename (some size) (some overlap) = .ok chunks ∧
      List.Forall₂ (fun w (c : PageChunk) ↦ c.text = chunkStr (window (sentences text) w))
        (windowsOf filename (pyOr (some size) d.chunkSize) (pyOr (some overlap) d.chunkOverlap)
          (sentences text)) chunks ∧
      (windowsOf filename (pyOr (some size) d.chunkSize) (pyOr (some overlap) d.chunkOverlap)
        (sentences text)).IsChain fun v w ↦ (shared (sentences text) v w : Int) ≤ overlap

/-- The chunks are what they are; what they share is in question. -/
theorem overlapHonoured_iff_windows {d : Defaults} {size overlap : Int} :
    OverlapHonoured d size overlap ↔ ∀ path contentType filename text,
      plainPath path contentType = true → path.text = some text → strip text ≠ [] →
      (windowsOf filename (pyOr (some size) d.chunkSize) (pyOr (some overlap) d.chunkOverlap)
        (sentences text)).IsChain fun v w ↦ (shared (sentences text) v w : Int) ≤ overlap := by
  constructor
  · intro h path contentType filename text hplain htext hinked
    obtain ⟨-, -, -, hchain⟩ := h path contentType filename text hplain htext hinked
    exact hchain
  · intro h path contentType filename text hplain htext hinked
    refine ⟨_, parseAndChunk_plain hplain htext hinked, ?_,
      h path contentType filename text hplain htext hinked⟩
    rw [List.forall₂_map_right_iff]
    exact (cut_chunksOf filename _ _ (sentences text)).windows.imp fun w x hw ↦ hw.text

section Dots

variable {source : Str} {overlap : Int}

/-- Sentences of one character that fit in a chunk. -/
theorem traceOf_dots {size : Int} {n : Nat} (hn : (n : Int) ≤ size) :
    traceOf source size overlap (List.replicate n [.char '.']) =
      ⟨⟨[], List.replicate n [.char '.'], n⟩, n, []⟩ := by
  induction n with
  | zero => rfl
  | succ n ih =>
      push_cast at hn
      have hprev := ih (by omega)
      rw [traceOf] at hprev
      have hfits : ¬(size < ((n : Nat) : Int) + [Code.char '.'].length ∧
          List.replicate n [Code.char '.'] ≠ []) := by
        rw [List.length_singleton]
        omega
      rw [List.replicate_succ', traceOf, List.foldl_append, hprev, List.foldl_cons, List.foldl_nil,
        Trace.add_of_fits hfits]
      rfl

/-- What is carried over includes the last sentence, if that fits in the overlap. -/
theorem keepOverlap_ne_nil {s : Str} {l : List Str} (hs : (s.length : Int) ≤ overlap) :
    (keepOverlap overlap (s :: l) [] 0).1 ≠ [] := by
  have hsuffix : ∀ (l words : List Str) (len : Nat),
      words <:+ (keepOverlap overlap l words len).1 := by
    intro l
    induction l with
    | nil => exact fun words len ↦ List.suffix_refl _
    | cons t l ih =>
        intro words len
        rw [keepOverlap]
        split
        · exact List.suffix_refl _
        · exact (List.suffix_cons t words).trans (ih _ _)
  have hfits : ¬overlap < ((0 : Nat) : Int) + s.length := by
    push_cast
    omega
  rw [keepOverlap, if_neg hfits]
  have hpos := (hsuffix l [s] (0 + s.length)).length_le
  rw [List.length_singleton] at hpos
  exact List.ne_nil_of_length_pos hpos

theorem window_replicate {m a k : Nat} {s : Str} (hk : k ≤ m) :
    window (List.replicate m s) (a, k) = List.replicate (k - a) s := by
  rw [window, List.drop_replicate, List.take_replicate]
  congr 1
  omega

/-- One sentence more makes a chunk, and with an overlap the next chunk shares a sentence. -/
theorem exists_shared_dots (source : Str) (n : Nat) (hover : 1 ≤ overlap) :
    ∃ v w, windowsOf source (n + 1 : Nat) overlap (sentences (dots (n + 1))) = [v, w] ∧
      1 ≤ shared (sentences (dots (n + 1))) v w := by
  rw [sentences_dots]
  have hfull : ((n + 1 : Nat) : Int) < ((n + 1 : Nat) : Int) + [Code.char '.'].length ∧
      List.replicate (n + 1) [Code.char '.'] ≠ [] := by simp
  obtain ⟨kept, hkept, hsuffix, -, hadd⟩ := Trace.add_of_full source overlap
    (t := ⟨⟨[], List.replicate (n + 1) [.char '.'], n + 1⟩, n + 1, []⟩) hfull
  have hpos : 0 < kept.length := by
    rw [List.length_pos_iff, hkept, List.reverse_replicate, List.replicate_succ]
    exact keepOverlap_ne_nil hover
  have hle : kept.length ≤ n + 1 := by simpa using hsuffix.length_le
  have hwindows : Trace.emit ⟨⟨[], List.replicate (n + 1) [.char '.'], n + 1⟩, n + 1, []⟩ =
      [(0, n + 1)] := by
    rw [Trace.emit, if_neg (chunkStr_dots n)]
    simp
  have hlast : chunkStr (kept ++ [[.char '.']]) ≠ [] :=
    chunkStr_ne_nil ⟨[.char '.'], by simp, .char '.', by simp, by decide⟩
  have htrace : traceOf source (n + 1 : Nat) overlap (List.replicate (n + 1 + 1) [.char '.']) =
      Trace.add source (n + 1 : Nat) overlap
        ⟨⟨[], List.replicate (n + 1) [.char '.'], n + 1⟩, n + 1, []⟩ [.char '.'] := by
    have hfits : traceOf source (n + 1 : Nat) overlap (List.replicate (n + 1) [.char '.']) =
        ⟨⟨[], List.replicate (n + 1) [.char '.'], n + 1⟩, n + 1, []⟩ := traceOf_dots le_rfl
    rw [traceOf] at hfits
    rw [List.replicate_succ', traceOf, List.foldl_append, hfits]
    rfl
  refine ⟨(0, n + 1), (n + 1 + 1 - (kept.length + 1), n + 1 + 1), ?_, ?_⟩
  · rw [windowsOf, htrace, hadd, if_neg (by simp), Trace.emit, if_neg hlast, hwindows]
    simp
  · rw [shared, window_replicate (by simp), totalLen_replicate]
    simp only
    omega

end Dots

theorem validate_chunkOverlap {n : Int} (h : validate "chunk_overlap" (.int n) = true) :
    0 ≤ n := by
  have hspec : (whitelist.find? fun spec ↦ spec.key = "chunk_overlap") =
      some ⟨"chunk_overlap", .int, .int 64, 0, 512⟩ := by decide
  rw [validate, hspec] at h
  simp only [Bool.and_eq_true, decide_eq_true_eq] at h
  have hmin := h.1.2
  rw [Value.toRat] at hmin
  exact_mod_cast hmin

/-- Whatever is in the table of settings, a team's overlap is honoured if and only if it is not
zero, or the configured one is not positive. -/
theorem overlapHonoured_iff (env : Env) (s : State Value) (team : String)
    (hsize : validate "chunk_size" (.int (chunkSize env s team)) = true)
    (hover : validate "chunk_overlap" (.int (chunkOverlap env s team)) = true) :
    OverlapHonoured env.defaults (chunkSize env s team) (chunkOverlap env s team) ↔
      chunkOverlap env s team ≠ 0 ∨ env.defaults.chunkOverlap ≤ 0 := by
  have hsize : 64 ≤ chunkSize env s team :=
    validate_chunkSize (v := .int (chunkSize env s team)) hsize
  have hover := validate_chunkOverlap hover
  rw [overlapHonoured_iff_windows]
  constructor
  · intro h
    by_contra hno
    simp only [not_or, not_not, not_le] at hno
    obtain ⟨hzero, hpos⟩ := hno
    obtain ⟨n, hn⟩ : ∃ n : Nat, chunkSize env s team = (n + 1 : Nat) :=
      ⟨(chunkSize env s team - 1).toNat, by omega⟩
    obtain ⟨v, w, hwindows, hshared⟩ := exists_shared_dots [] n hpos
    have hinked : strip (dots (n + 1)) ≠ [] :=
      strip_ne_nil_iff.mpr ⟨.char '.', List.mem_cons_self, by decide⟩
    have hchain := h ⟨[], str ".txt", some (dots (n + 1)), none⟩ [] [] _ rfl rfl hinked
    have hsize' : pyOr (some (chunkSize env s team)) env.defaults.chunkSize = (n + 1 : Nat) := by
      rw [pyOr, if_neg (by omega), hn]
    have hover' : pyOr (some (chunkOverlap env s team)) env.defaults.chunkOverlap =
        env.defaults.chunkOverlap := by
      rw [pyOr, if_pos hzero]
    rw [hsize', hover', hwindows, hzero, List.isChain_pair] at hchain
    omega
  · intro h path contentType filename text _ _ _
    apply (shares_windowsOf filename _ _ (sentences text)).isChain.imp
    intro v w hvw
    apply hvw.trans
    rw [pyOr]
    split_ifs with hzero
    · omega
    · omega

/-- A team whose overlap is 128. -/
theorem overlapHonoured_larger : ∃ x, (process (settingsConfig repoEnv)).Reachable x ∧
    chunkOverlap repoEnv x.1 "team-1" = 128 ∧
    OverlapHonoured repoEnv.defaults (chunkSize repoEnv x.1 "team-1")
      (chunkOverlap repoEnv x.1 "team-1") := by
  obtain ⟨x, hx, hr⟩ := System.Reach.of_exec (S := process (settingsConfig repoEnv))
    (g := fun _ _ ↦ True) (l := upsert 0 "chunk_overlap" 128)
    (f := fun x ↦ (chunkOverlap repoEnv x.1 "team-1", chunkSize repoEnv x.1 "team-1"))
    (b := (128, 512)) (by decide)
  obtain ⟨hover, hsize⟩ := Prod.mk.inj hr
  refine ⟨x, hx, hover, (overlapHonoured_iff repoEnv x.1 "team-1" ?_ ?_).mpr (.inl ?_)⟩
  · rw [hsize]
    decide
  · rw [hover]
    decide
  · rw [hover]
    decide

/-- A team sets its overlap to zero, and two chunks share sentences of 64 characters. -/
theorem overlap_not_honoured : ∃ x, (process (settingsConfig repoEnv)).Reachable x ∧
    chunkSize repoEnv x.1 "team-1" = 512 ∧ chunkOverlap repoEnv x.1 "team-1" = 0 ∧
    (∃ v w, windowsOf [] 512 64 (sentences (dots 512)) = [v, w] ∧
      shared (sentences (dots 512)) v w = 64) ∧
    ¬OverlapHonoured repoEnv.defaults (chunkSize repoEnv x.1 "team-1")
      (chunkOverlap repoEnv x.1 "team-1") := by
  obtain ⟨x, hx, hr⟩ := System.Reach.of_exec (S := process (settingsConfig repoEnv))
    (g := fun _ _ ↦ True) (l := upsert 0 "chunk_overlap" 0)
    (f := fun x ↦ (chunkOverlap repoEnv x.1 "team-1", chunkSize repoEnv x.1 "team-1"))
    (b := (0, 512)) (by decide)
  obtain ⟨hover, hsize⟩ := Prod.mk.inj hr
  have hwindows : windowsOf [] 512 64 (sentences (dots 512)) = [(0, 512), (448, 513)] := by
    decide +kernel
  have hshared : shared (sentences (dots 512)) (0, 512) (448, 513) = 64 := by decide
  refine ⟨x, hx, hsize, hover, ⟨_, _, hwindows, hshared⟩, ?_⟩
  rw [overlapHonoured_iff_windows, hsize, hover]
  intro h
  have hinked : strip (dots 512) ≠ [] :=
    strip_ne_nil_iff.mpr ⟨.char '.', List.mem_cons_self, by decide⟩
  have hchain := h ⟨[], str ".txt", some (dots 512), none⟩ [] [] _ (by decide) rfl hinked
  have hforce : windowsOf [] (pyOr (some 512) repoEnv.defaults.chunkSize)
      (pyOr (some 0) repoEnv.defaults.chunkOverlap) (sentences (dots 512)) =
        [(0, 512), (448, 513)] := hwindows
  rw [hforce, List.isChain_pair, hshared] at hchain
  exact absurd hchain (by decide)

end Adapta.Documents
