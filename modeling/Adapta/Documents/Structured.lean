import Mathlib.Algebra.Order.Ring.Rat
import Mathlib.Data.List.AList
import Mathlib.Data.List.Chain
import Mathlib.Data.List.Flatten
import Adapta.Documents.Chunking

/-!
# Chunks of structured documents

`parse` and `chunk` of `adapta/services/documents.py`.  A converter reads a file into a document
and pages; a chunker cuts the document into raw pieces, and small neighbours of one page and one
section are put together as long as they fit in the chunk size.

## What is abstracted

The converter and `HybridChunker` are parameters: a conversion raises or has a document and
pages, and a document is given by the raw pieces that the chunker built for a chunk size yields.
An attribute that may be missing or `None` where an empty list is meant is an empty list.
-/

namespace Adapta.Documents

open Lib

/-! ## Pages -/

/-- A text cell of a page, with the score of the line that was read. -/
structure Cell where
  fromOcr : Bool
  confidence : Option Rat
deriving DecidableEq, Repr

/-- A page of a conversion. -/
structure PageResult where
  pageNo : Int
  /-- The cells of the parsed page. -/
  textlineCells : List Cell
  /-- The cells of the page itself, when there are none of those. -/
  cells : List Cell
deriving DecidableEq, Repr

structure PageOcr where
  ocr : Bool
  confidence : Option Rat
deriving DecidableEq, Repr

abbrev Pages := AList fun _ : Int ↦ PageOcr

def PageResult.allCells (p : PageResult) : List Cell :=
  if p.textlineCells = [] then p.cells else p.textlineCells

/-- The facts of one page. -/
def PageResult.pageOcr (p : PageResult) : PageOcr :=
  let ocrCells := p.allCells.filter Cell.fromOcr
  let native := p.allCells.length - ocrCells.length
  let scores := ocrCells.filterMap Cell.confidence
  let isOcr := ocrCells ≠ [] ∧ native = 0
  { ocr := isOcr
    confidence := if isOcr ∧ scores ≠ [] then some (scores.sum / scores.length) else none }

/-- `_page_ocr`. -/
def pageOcr (pages : List PageResult) : Pages :=
  pages.foldl (fun out p ↦ out.insert p.pageNo p.pageOcr) ∅

/-! ## Pieces -/

/-- A piece that the chunker yields.  An item of the document has the pages it is on. -/
structure RawPiece where
  text : Option Str
  docItems : List (List Int)
  headings : List Str
deriving DecidableEq, Repr

structure ParsedDocument where
  /-- What the chunker yields for a chunk size. -/
  doc : Int → List RawPiece
  pages : Pages

/-- `Chunk`, with what `chunk` fills in. -/
structure PageChunk extends Chunk where
  page : Option Int
  /-- The heading path. -/
  sectionPath : Option Str
  ocr : Bool
  ocrConfidence : Option Rat
deriving DecidableEq, Repr

/-- The first page of the first item that has one. -/
def RawPiece.page (raw : RawPiece) : Option Int := raw.docItems.findSome? List.head?

def RawPiece.sectionPath (raw : RawPiece) : Option Str :=
  if raw.headings = [] then none else some (raw.headings.intersperse (str " > ")).flatten

def RawPiece.stripped (raw : RawPiece) : Str := strip (raw.text.getD [])

/-- The OCR facts of a chunk's page. -/
def infoOf (pages : Pages) (page : Option Int) : Option PageOcr := page.bind pages.lookup

variable (budget : Int) (source : Str) (pages : Pages)

/-- A chunk of one piece. -/
def RawPiece.chunk (raw : RawPiece) (index : Nat) : PageChunk where
  text := raw.stripped
  source := source
  index := index
  page := raw.page
  sectionPath := raw.sectionPath
  ocr := (infoOf pages raw.page).any PageOcr.ocr
  ocrConfidence := ((infoOf pages raw.page).filter PageOcr.ocr).bind PageOcr.confidence

/-- The piece goes into the last chunk. -/
def Joins (prev : PageChunk) (raw : RawPiece) : Prop :=
  prev.page = raw.page ∧ prev.sectionPath = raw.sectionPath ∧
    (prev.text.length + raw.stripped.length + 1 : Int) ≤ budget

instance (prev : PageChunk) (raw : RawPiece) : Decidable (Joins budget prev raw) :=
  inferInstanceAs (Decidable (_ ∧ _ ∧ _))

/-- The loop's body. -/
def addPiece (chunks : List PageChunk) (raw : RawPiece) : List PageChunk :=
  if raw.stripped = [] then chunks
  else
    match chunks.getLast? with
    | some prev =>
        if Joins budget prev raw then
          chunks.dropLast ++ [{ prev with text := prev.text ++ str "\n" ++ raw.stripped }]
        else chunks ++ [raw.chunk source pages chunks.length]
    | none => chunks ++ [raw.chunk source pages chunks.length]

/-- `chunk`. -/
def chunk (d : Defaults) (parsed : ParsedDocument) (source : Str) (size : Option Int) :
    List PageChunk :=
  let budget := pyOr size d.chunkSize
  (parsed.doc budget).foldl (addPiece budget source parsed.pages) []

/-! ## Groups -/

/-- The pieces that are not blank. -/
def inked (raws : List RawPiece) : List RawPiece := raws.filter fun raw ↦ raw.stripped ≠ []

/-- The text of a chunk of some pieces. -/
def joined (g : List RawPiece) : Str := ((g.map RawPiece.stripped).intersperse (str "\n")).flatten

/-- The chunk is made of the pieces. -/
structure IsGroup (g : List RawPiece) (c : PageChunk) : Prop where
  ne_nil : g ≠ []
  text : c.text = joined g
  alike : ∀ raw ∈ g, raw.page = c.page ∧ raw.sectionPath = c.sectionPath
  fits : 2 ≤ g.length → (c.text.length : Int) ≤ budget
  source : c.source = source
  ocr : c.ocr = (infoOf pages c.page).any PageOcr.ocr
  ocrConfidence : c.ocrConfidence =
    ((infoOf pages c.page).filter PageOcr.ocr).bind PageOcr.confidence

/-- Two chunks of one page and one section do not fit together. -/
def Apart (c d : PageChunk) : Prop :=
  c.page = d.page → c.sectionPath = d.sectionPath →
    budget < c.text.length + d.text.length + 1

/-- The pieces are grouped into the chunks. -/
structure Grouped (raws : List RawPiece) (chunks : List PageChunk)
    (groups : List (List RawPiece × PageChunk)) : Prop where
  results : groups.map Prod.snd = chunks
  pieces : groups.flatMap Prod.fst = inked raws
  isGroup : ∀ x ∈ groups, IsGroup budget source pages x.1 x.2
  indexes : chunks.map (fun c ↦ c.index) = List.range chunks.length
  maximal : chunks.IsChain (Apart budget)

variable {budget source pages} {g : List RawPiece} {c : PageChunk} {raw : RawPiece}
  {raws : List RawPiece} {chunks : List PageChunk}

theorem joined_singleton (raw : RawPiece) : joined [raw] = raw.stripped := by
  simp [joined]

theorem joined_concat (hne : g ≠ []) (raw : RawPiece) :
    joined (g ++ [raw]) = joined g ++ str "\n" ++ raw.stripped := by
  induction g with
  | nil => exact absurd rfl hne
  | cons x g ih =>
      cases g with
      | nil => simp [joined]
      | cons y g =>
          have hrest := ih (List.cons_ne_nil _ _)
          simp only [joined, List.map_append, List.map_cons, List.map_nil, List.cons_append,
            List.intersperse_cons_cons, List.flatten_cons, List.append_assoc] at hrest ⊢
          rw [hrest]

/-- A piece on its own. -/
theorem isGroup_chunk (raw : RawPiece) (index : Nat) :
    IsGroup budget source pages [raw] (raw.chunk source pages index) where
  ne_nil := List.cons_ne_nil _ _
  text := (joined_singleton raw).symm
  alike x hx := by
    rw [List.mem_singleton.mp hx]
    exact ⟨rfl, rfl⟩
  fits h := absurd h (by simp)
  source := rfl
  ocr := rfl
  ocrConfidence := rfl

/-- A piece that goes into the chunk. -/
theorem IsGroup.concat (h : IsGroup budget source pages g c) (hj : Joins budget c raw) :
    IsGroup budget source pages (g ++ [raw])
      { c with text := c.text ++ str "\n" ++ raw.stripped } where
  ne_nil := by simp
  text := by rw [joined_concat h.ne_nil, ← h.text]
  alike x hx := by
    rcases List.mem_append.mp hx with hx | hx
    · exact h.alike x hx
    · rw [List.mem_singleton.mp hx]
      exact ⟨hj.1.symm, hj.2.1.symm⟩
  fits _ := by
    have hone : (str "\n").length = 1 := rfl
    have hfit := hj.2.2
    rw [List.length_append, List.length_append, hone]
    push_cast
    omega
  source := h.source
  ocr := h.ocr
  ocrConfidence := h.ocrConfidence

theorem inked_concat (hraw : raw.stripped ≠ []) : inked (raws ++ [raw]) = inked raws ++ [raw] := by
  rw [inked, inked, List.filter_append, List.filter_cons_of_pos (by simpa using hraw),
    List.filter_nil]

/-- A piece that starts a chunk. -/
theorem Grouped.push {groups : List (List RawPiece × PageChunk)}
    (h : Grouped budget source pages raws chunks groups) (hraw : raw.stripped ≠ [])
    (hapart : ∀ prev ∈ chunks.getLast?, ¬Joins budget prev raw) :
    Grouped budget source pages (raws ++ [raw]) (chunks ++ [raw.chunk source pages chunks.length])
      (groups ++ [([raw], raw.chunk source pages chunks.length)]) where
  results := by rw [List.map_append, h.results, List.map_singleton]
  pieces := by
    rw [List.flatMap_append, h.pieces, inked_concat hraw, List.flatMap_singleton]
  isGroup x hx := by
    rcases List.mem_append.mp hx with hx | hx
    · exact h.isGroup x hx
    · rw [List.mem_singleton.mp hx]
      exact isGroup_chunk raw _
  indexes := by
    rw [List.map_append, h.indexes, List.length_append, List.length_singleton, List.range_succ]
    rfl
  maximal := by
    apply h.maximal.append (List.isChain_singleton _)
    intro prev hprev d hd hpage hsection
    obtain rfl := Option.some.inj hd
    exact not_le.mp fun hfit ↦ hapart prev hprev ⟨hpage, hsection, hfit⟩

/-- A piece that goes into the last chunk. -/
theorem Grouped.join {groups : List (List RawPiece × PageChunk)} {init : List PageChunk}
    (h : Grouped budget source pages raws (init ++ [c]) groups) (hraw : raw.stripped ≠ [])
    (hj : Joins budget c raw) :
    ∃ groups', Grouped budget source pages (raws ++ [raw])
      (init ++ [{ c with text := c.text ++ str "\n" ++ raw.stripped }]) groups' := by
  obtain ⟨ginit, glast, rfl, hinit, hlast⟩ := List.map_eq_append_iff.mp h.results
  obtain ⟨⟨g, c'⟩, rfl, rfl⟩ := List.map_eq_singleton_iff.mp hlast
  have hg := h.isGroup (g, c') (List.mem_append_right _ (List.mem_singleton_self _))
  refine ⟨ginit ++ [(g ++ [raw], { c' with text := c'.text ++ str "\n" ++ raw.stripped })],
    ?_, ?_, ?_, ?_, ?_⟩
  · rw [List.map_append, hinit, List.map_singleton]
  · have hpieces := h.pieces
    rw [List.flatMap_append, List.flatMap_singleton] at hpieces ⊢
    rw [inked_concat hraw, ← hpieces]
    exact (List.append_assoc ..).symm
  · intro x hx
    rcases List.mem_append.mp hx with hx | hx
    · exact h.isGroup x (List.mem_append_left _ hx)
    · rw [List.mem_singleton.mp hx]
      exact hg.concat hj
  · simpa using h.indexes
  · have hmax := List.isChain_append.mp h.maximal
    apply hmax.1.append (List.isChain_singleton _)
    intro prev hprev d hd hpage hsection
    obtain rfl := Option.some.inj hd
    have hold : budget < prev.text.length + c'.text.length + 1 :=
      hmax.2.2 prev hprev c' rfl hpage hsection
    show budget < prev.text.length + (c'.text ++ str "\n" ++ raw.stripped).length + 1
    rw [List.length_append, List.length_append]
    push_cast
    omega

/-- **A round keeps the pieces grouped.** -/
theorem Grouped.add {groups : List (List RawPiece × PageChunk)}
    (h : Grouped budget source pages raws chunks groups) (raw : RawPiece) :
    ∃ groups', Grouped budget source pages (raws ++ [raw])
      (addPiece budget source pages chunks raw) groups' := by
  rw [addPiece]
  by_cases hraw : raw.stripped = []
  · rw [if_pos hraw]
    refine ⟨groups, { h with pieces := ?_ }⟩
    rw [h.pieces, inked, inked, List.filter_append, List.filter_cons_of_neg (by simpa using hraw),
      List.filter_nil, List.append_nil]
  · rw [if_neg hraw]
    rcases List.eq_nil_or_concat chunks with rfl | ⟨init, c, rfl⟩
    · exact ⟨_, h.push hraw nofun⟩
    · rw [List.concat_eq_append] at h ⊢
      rw [List.getLast?_concat]
      simp only [List.dropLast_concat]
      by_cases hj : Joins budget c raw
      · rw [if_pos hj]
        exact h.join hraw hj
      · rw [if_neg hj]
        refine ⟨_, h.push hraw fun prev hprev ↦ ?_⟩
        rw [List.getLast?_concat] at hprev
        obtain rfl := Option.some.inj hprev
        exact hj

theorem grouped_foldl (raws : List RawPiece) :
    ∃ groups, Grouped budget source pages raws (raws.foldl (addPiece budget source pages) [])
      groups := by
  induction raws using List.reverseRecOn with
  | nil => exact ⟨[], rfl, rfl, nofun, rfl, .nil⟩
  | append_singleton raws raw ih =>
      obtain ⟨groups, h⟩ := ih
      rw [List.foldl_append]
      exact h.add raw

/-- The chunks of a document are the non-blank pieces in their order, put together within one
page and one section as far as they fit. -/
theorem chunk_grouped (d : Defaults) (parsed : ParsedDocument) (source : Str)
    (size : Option Int) :
    ∃ groups : List (List RawPiece × PageChunk),
      groups.map Prod.snd = chunk d parsed source size ∧
      groups.flatMap Prod.fst =
        (parsed.doc (pyOr size d.chunkSize)).filter (fun raw ↦ raw.stripped ≠ []) ∧
      (∀ x ∈ groups, x.1 ≠ [] ∧
        x.2.text = ((x.1.map RawPiece.stripped).intersperse (str "\n")).flatten ∧
        (∀ raw ∈ x.1, raw.page = x.2.page ∧ raw.sectionPath = x.2.sectionPath) ∧
        (2 ≤ x.1.length → (x.2.text.length : Int) ≤ pyOr size d.chunkSize) ∧
        x.2.ocr = (infoOf parsed.pages x.2.page).any PageOcr.ocr ∧
        x.2.ocrConfidence =
          ((infoOf parsed.pages x.2.page).filter PageOcr.ocr).bind PageOcr.confidence) ∧
      ((chunk d parsed source size).map fun c ↦ c.index) =
        List.range (chunk d parsed source size).length ∧
      (chunk d parsed source size).IsChain fun c d' ↦ c.page = d'.page →
        c.sectionPath = d'.sectionPath →
        pyOr size d.chunkSize < c.text.length + d'.text.length + 1 := by
  obtain ⟨groups, h⟩ : ∃ groups, Grouped (pyOr size d.chunkSize) source parsed.pages
      (parsed.doc (pyOr size d.chunkSize)) (chunk d parsed source size) groups := grouped_foldl _
  refine ⟨groups, h.results, h.pieces, fun x hx ↦ ?_, h.indexes, h.maximal⟩
  have hg := h.isGroup x hx
  exact ⟨hg.ne_nil, hg.text, hg.alike, hg.fits, hg.ocr, hg.ocrConfidence⟩

end Adapta.Documents
