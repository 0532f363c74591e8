import Adapta.Extraction.Aligned

/-!
# A store fails while a page is processed

A call that raises ends the job, and the session rolls back.  What Chroma has been told before
stays: when the removal of the surplus vectors or the commit raises, the new chunks have been
upserted and the rows are the old ones.  The stores then agree only if the upsert changed
nothing, that is if the transcription's pieces are the texts that the chunks had.

The index job, which writes the stores in the same order, removes the file's vectors when its
commit raises.
-/

namespace Adapta.Extraction

open Lib Documents
open Reembed (FileId ChunkId chunkId)

variable {φ : Type} {cfg : Settings} {f : FileId} {filename : Str} {st : Stores φ} {page : Int}
  {text : Str}

/-- The index of an old chunk is used again for the piece of its number. -/
theorem indexOf_of_getElem? {old : List (Row φ)} {mx k : Nat} {r : Row φ} (h : old[k]? = some r) :
    indexOf old mx k = r.chunkIndex := by
  rw [indexOf, h]

/-- The upsert changes nothing if and only if the pieces are the first of the old texts. -/
theorem Aligned.chunkPairs_subset_iff (h : Aligned f st) :
    (∀ x ∈ chunkPairs f (pageChunks cfg f filename page text st), x ∈ rowPairs f st) ↔
      piecesOf cfg filename text <+: (st.pageRows f page).map Row.text := by
  rw [List.prefix_iff_getElem?]
  constructor
  · intro hsub k hk
    have hpiece : (piecesOf cfg filename text)[k]? = some (piecesOf cfg filename text)[k] :=
      List.getElem?_eq_getElem hk
    obtain ⟨r, hr, heq⟩ := List.mem_map.mp (hsub _ (pair_mem_chunkPairs hpiece))
    obtain ⟨hid, htext⟩ := Prod.mk.inj heq
    have hidx : indexOf (st.pageRows f page) (st.maxIdx f) k = r.chunkIndex :=
      chunkId_inj (by rw [← hid, h.ids r hr])
    rcases indexOf_cases (st.pageRows f page) (st.maxIdx f) k with ⟨r', hr', hk'⟩ | ⟨-, hk'⟩
    · have hrr : r' = r :=
        h.eq_of_index (mem_pageRows.mp (List.mem_of_getElem? hr')).1 hr (hk' ▸ hidx)
      rw [List.getElem?_map, hr', hrr, Option.map_some, htext]
    · have := chunkIndex_le_maxIdx hr
      omega
  · intro hfront x hx
    obtain ⟨k, hpiece, hid⟩ := mem_chunkPairs.mp hx
    obtain ⟨hk, hget⟩ := List.getElem?_eq_some_iff.mp hpiece
    have htext := hfront k hk
    rw [hget, List.getElem?_map] at htext
    obtain ⟨r, hr, htext⟩ := Option.map_eq_some_iff.mp htext
    have hmem := (mem_pageRows.mp (List.mem_of_getElem? hr)).1
    refine List.mem_map.mpr ⟨r, hmem, Prod.ext ?_ htext⟩
    rw [hid, indexOf_of_getElem? hr]
    exact h.ids r hmem

/-- No vector of a row is removed if and only if there are as many pieces as old chunks. -/
theorem Aligned.surplus_disjoint_iff (h : Aligned f st) :
    (∀ x ∈ rowPairs f st, x.1 ∉ surplus cfg f filename page text st) ↔
      (st.pageRows f page).length ≤ (piecesOf cfg filename text).length := by
  constructor
  · intro hno
    by_contra hlt
    have hk : (piecesOf cfg filename text).length < (st.pageRows f page).length := not_le.mp hlt
    have hr : (st.pageRows f page)[(piecesOf cfg filename text).length]? =
        some (st.pageRows f page)[(piecesOf cfg filename text).length] :=
      List.getElem?_eq_getElem hk
    generalize (st.pageRows f page)[(piecesOf cfg filename text).length] = r at hr
    have hold := List.mem_of_getElem? hr
    have hmem := (mem_pageRows.mp hold).1
    refine hno (r.id, r.text) (List.mem_map_of_mem hmem) (mem_surplus.mpr ⟨?_, ?_⟩)
    · exact List.mem_map_of_mem hold
    · intro hnew
      obtain ⟨y, hy, hid⟩ := List.mem_map.mp hnew
      obtain ⟨k, hpiece, hyid⟩ := mem_chunkPairs.mp hy
      have hidx : indexOf (st.pageRows f page) (st.maxIdx f) k =
          indexOf (st.pageRows f page) (st.maxIdx f) (piecesOf cfg filename text).length := by
        apply chunkId_inj (f := f)
        rw [← hyid, hid, indexOf_of_getElem? hr]
        exact h.ids r hmem
      have hlen := (List.getElem?_eq_some_iff.mp hpiece).1
      rw [h.indexOf_inj hidx] at hlen
      exact lt_irrefl _ hlen
  · intro hle x _ hsur
    obtain ⟨hold, hnew⟩ := mem_surplus.mp hsur
    obtain ⟨r, hr, hid⟩ := List.mem_map.mp hold
    obtain ⟨k, hk, rfl⟩ := List.getElem_of_mem hr
    obtain ⟨piece, hpiece⟩ : ∃ piece, (piecesOf cfg filename text)[k]? = some piece :=
      ⟨_, List.getElem?_eq_getElem (lt_of_lt_of_le hk hle)⟩
    refine hnew (List.mem_map.mpr ⟨_, pair_mem_chunkPairs hpiece, ?_⟩)
    show chunkId f (indexOf (st.pageRows f page) (st.maxIdx f) k) = x.1
    rw [indexOf_of_getElem? (List.getElem?_eq_getElem hk), ← hid]
    exact (h.ids _ (mem_pageRows.mp hr).1).symm

/-- After the upsert alone. -/
theorem Aligned.agree_upserted_iff (h : Aligned f st) :
    Agree f ⟨st.rows, upserted cfg f filename page text st⟩ ↔
      piecesOf cfg filename text <+: (st.pageRows f page).map Row.text := by
  rw [agree_iff_mirrors, upserted, vectorPairs_upsert, ← h.chunkPairs_subset_iff]
  exact (agree_iff_mirrors.mp h.agree).upsertAll_iff h.keys

/-- After the upsert and the removal of the surplus. -/
theorem Aligned.agree_uncommitted_iff (h : Aligned f st) :
    Agree f ⟨st.rows, deleteEntries (upserted cfg f filename page text st)
        (surplus cfg f filename page text st)⟩ ↔
      piecesOf cfg filename text = (st.pageRows f page).map Row.text := by
  have hkeys : ∀ k ∈ surplus cfg f filename page text st,
      k ∉ (chunkPairs f (pageChunks cfg f filename page text st)).map Prod.fst :=
    fun k hk ↦ (mem_surplus.mp hk).2
  rw [agree_iff_mirrors, vectorPairs_delete, upserted, vectorPairs_upsert]
  refine ((agree_iff_mirrors.mp h.agree).without_upsertAll_iff h.keys hkeys).trans ?_
  have hrows : rowPairs f ⟨st.rows, st.vectors⟩ = rowPairs f st := rfl
  rw [h.chunkPairs_subset_iff, h.surplus_disjoint_iff]
  constructor
  · rintro ⟨hfront, hle⟩
    exact hfront.eq_of_length_le (by rwa [List.length_map])
  · intro heq
    refine ⟨by rw [heq], ?_⟩
    rw [heq, List.length_map]

/-! ## The job -/

/-- The transcription of a page, if it is flagged and there is one. -/
def transcribed (flagged : List (Option Int)) (readings : Int → Reading φ) (page : Int) : Str :=
  match readings page with
  | .replies _ said => textOf flagged page said
  | _ => []

/-- What the call that raises leaves in Chroma is what the chunks of the page had: the upsert was
for chunks with these texts, and where the surplus has been removed there was none. -/
def SameTexts (cfg : Settings) (f : FileId) (filename text : Str) (page : Int)
    (before : Stores φ) : Call → Prop
  | .deleteSurplus => piecesOf cfg filename text <+: (before.pageRows f page).map Row.text
  | .commit => piecesOf cfg filename text = (before.pageRows f page).map Row.text
  | _ => True

/-- The call that raises does no harm to the agreement: there is nothing to store, it comes before
the upsert, or what has been stored is what there was. -/
def Harmless (cfg : Settings) (f : FileId) (filename : Str) (flagged : List (Option Int))
    (readings : Int → Reading φ) (page : Int) (call : Call) (before : Stores φ) : Prop :=
  transcribed flagged readings page = [] ∨
    SameTexts cfg f filename (transcribed flagged readings page) page before call

/-- A call that raises at a page leaves the stores in agreement if and only if it does no harm. -/
theorem agree_processPage_iff {fails : Call → Bool} {fields : Option φ} {call : Call}
    {flagged : List (Option Int)} {readings : Int → Reading φ} {said : Str} {before : Stores φ}
    (h : Aligned f before) (hread : readings page = .replies fields said)
    (hout : processPage cfg f filename fails page fields (textOf flagged page said) before =
      (st, .raised call)) :
    Agree f st ↔ Harmless cfg f filename flagged readings page call before := by
  have htext : transcribed flagged readings page = textOf flagged page said := by
    rw [transcribed, hread]
  have hstep : PageStep cfg f filename page fields (textOf flagged page said) before
      (st, .raised call) := hout ▸ processPage_step _ before
  rw [Harmless, htext]
  cases hstep with
  | untouched hwhen =>
      refine iff_of_true h.agree ?_
      rcases hwhen with hnil | ⟨hsurplus, hcommit⟩
      · exact .inl hnil
      · cases call with
        | deleteSurplus => exact absurd rfl hsurplus
        | commit => exact absurd rfl hcommit
        | selectOld => exact .inr trivial
        | selectMaxIdx => exact .inr trivial
        | deleteOld => exact .inr trivial
        | upsert => exact .inr trivial
        | updateFields => exact .inr trivial
  | surplusLeft hne =>
      rw [h.agree_upserted_iff]
      exact (or_iff_right hne).symm
  | uncommitted hne =>
      rw [h.agree_uncommitted_iff]
      exact (or_iff_right hne).symm

/-- When a call to a store raises and the job fails, the rows and the vectors of the file agree
if and only if the call does no harm. -/
theorem extractFile_agree_iff (cfg : Settings) (f : FileId) (filename : Str) (allPages : Bool)
    (readings : Int → Reading φ) (fails : Int → Call → Bool) (st st' before : Stores φ)
    (page : Int) (call : Call) (h : Aligned f st)
    (hrun : extractFile cfg f (.ok filename) allPages readings fails st =
      (st', .storeRaised page call before)) :
    Agree f st' ↔
      Harmless cfg f filename (flaggedPages (st.fileRows f)) readings page call before := by
  have hloop : LoopEnd cfg f filename (flaggedPages (st.fileRows f)) readings fails
    (runPages cfg f filename (flaggedPages (st.fileRows f)) readings fails
      (selectPages (st.fileRows f) allPages) st 0 0) := h.runPages
  simp only [extractFile] at hrun
  by_cases hmany : cfg.extractMaxPages < (selectPages (st.fileRows f) allPages).length
  · rw [if_pos hmany] at hrun
    cases hrun
  · rw [if_neg hmany] at hrun
    generalize runPages cfg f filename (flaggedPages (st.fileRows f)) readings fails
      (selectPages (st.fileRows f) allPages) st 0 0 = out at hloop hrun
    cases hloop with
    | finished =>
        have hend := (Prod.mk.inj hrun).2
        split_ifs at hend
    | timeout => cases hrun
    | raised hbefore hread hout =>
        cases hrun
        exact agree_processPage_iff hbefore hread hout

/-! ## Two failures -/

/-- The given call raises at every page. -/
def failing (call : Call) : Int → Call → Bool := fun _ call' ↦ call' = call

/-- The upsert raises, and nothing has happened. -/
theorem extractFile_agree_upsert : ∃ st' before,
    extractFile scannedSettings (str "f") (.ok (str "scan.pdf")) false readAgain (failing .upsert)
      scanned = (st', .storeRaised 1 .upsert before) ∧ Agree (str "f") st' := by
  have hrun : extractFile scannedSettings (str "f") (.ok (str "scan.pdf")) false readAgain
      (failing .upsert) scanned = (scanned, .storeRaised 1 .upsert scanned) := rfl
  refine ⟨scanned, scanned, hrun, ?_⟩
  exact (extractFile_agree_iff scannedSettings (str "f") (str "scan.pdf") false readAgain
    (failing .upsert) scanned scanned scanned 1 .upsert aligned_scanned hrun).mpr (.inr trivial)

/-- The commit raises: the first row of the page says `blurred`, its vector `Read again.`, and
the second row has no vector. -/
theorem extractFile_not_agree : Aligned (str "f") scanned ∧ ∃ st' before,
    extractFile scannedSettings (str "f") (.ok (str "scan.pdf")) false readAgain (failing .commit)
      scanned = (st', .storeRaised 1 .commit before) ∧
    (st'.fileRows (str "f")).map Row.text = [str "blurred", str "smudged", str "clear"] ∧
    (st'.fileVectors (str "f")).map Entry.document = [str "clear", str "Read again."] ∧
    ¬Agree (str "f") st' := by
  have hvectors : (extractFile scannedSettings (str "f") (.ok (str "scan.pdf")) false readAgain
      (failing .commit) scanned).1.vectors =
        [scannedEntry 2 "clear", scannedEntry 0 "Read again."] := by decide
  refine ⟨aligned_scanned, (extractFile scannedSettings (str "f") (.ok (str "scan.pdf")) false
    readAgain (failing .commit) scanned).1, scanned, rfl, ?_, ?_, ?_⟩
  · decide
  · decide
  · intro hagree
    obtain ⟨e, he, hid, htext⟩ := (hagree (chunkId (str "f") 1) (str "smudged")).mp
      ⟨scannedRow 1 1 "smudged" true, by decide, rfl, rfl⟩
    rw [Stores.fileVectors, hvectors] at he
    revert e
    decide

end Adapta.Extraction
