import Mathlib.Data.List.Dedup
import Adapta.Extraction.Pages

/-!
# The stores stay aligned

The rows of a file and its vectors are a table and its mirror, keyed by the chunk ids.  A page
with a transcription has its chunks replaced in both: the old indexes are used again and new
ones are taken past the largest one of the file, so that no other chunk is hit.
-/

namespace Adapta.Extraction

open Lib Documents
open Reembed (FileId ChunkId chunkId)

variable {φ : Type} {cfg : Settings} {f : FileId} {filename : Str} {st : Stores φ}

/-! ## Ids -/

theorem chunkId_inj {i j : Nat} (h : chunkId f i = chunkId f j) : i = j := by
  have htail := List.append_cancel_left h
  have hdigits : Nat.toDigits 10 i = Nat.toDigits 10 j :=
    List.map_injective_iff.mpr (fun _ _ h ↦ Code.char.inj h) (List.cons.inj htail).2
  rw [← Nat.ofDigitChars_ten_toDigits (n := i), hdigits, Nat.ofDigitChars_ten_toDigits]

/-! ## Alignment -/

/-- The ids and the texts of a file's rows and of its vectors are the same. -/
def Agree (f : FileId) (st : Stores φ) : Prop :=
  ∀ id text, (∃ r ∈ st.fileRows f, r.id = id ∧ r.text = text) ↔
    ∃ e ∈ st.fileVectors f, e.id = id ∧ e.document = text

/-- They are, and no chunk is there twice. -/
structure Aligned (f : FileId) (st : Stores φ) : Prop where
  ids : ∀ r ∈ st.fileRows f, r.id = chunkId f r.chunkIndex
  indexes : ((st.fileRows f).map Row.chunkIndex).Nodup
  vectors : ((st.fileVectors f).map Entry.id).Nodup
  agree : Agree f st

def rowPairs (f : FileId) (st : Stores φ) : List (ChunkId × Str) :=
  (st.fileRows f).map fun r ↦ (r.id, r.text)

def vectorPairs (f : FileId) (vectors : List Entry) : List (ChunkId × Str) :=
  (vectors.filter fun e ↦ e.fileId = f).map fun e ↦ (e.id, e.document)

def chunkPairs (f : FileId) (chunks : List PageChunk) : List (ChunkId × Str) :=
  chunks.map fun c ↦ (chunkId f c.index, c.text)

theorem agree_iff_mirrors : Agree f st ↔ Mirrors (rowPairs f st) (vectorPairs f st.vectors) := by
  simp [Agree, Mirrors, rowPairs, vectorPairs, Stores.fileVectors]

theorem Aligned.keys (h : Aligned f st) : ((rowPairs f st).map Prod.fst).Nodup := by
  have hmap : (rowPairs f st).map Prod.fst =
      ((st.fileRows f).map Row.chunkIndex).map (chunkId f) := by
    rw [rowPairs, List.map_map, List.map_map]
    exact List.map_congr_left fun r hr ↦ h.ids r hr
  rw [hmap]
  exact h.indexes.map fun _ _ ↦ chunkId_inj

theorem vectorPairs_upsert (vectors : List Entry) (new : List PageChunk) :
    vectorPairs f (upsertEntries vectors (indexEntries f new)) =
      upsertAll (vectorPairs f vectors) (chunkPairs f new) := by
  have hids : (indexEntries f new).map Entry.id = (chunkPairs f new).map Prod.fst := by
    simp [indexEntries, chunkPairs, Function.comp_def]
  have hnew : ((indexEntries f new).filter fun e ↦ e.fileId = f) = indexEntries f new := by
    rw [List.filter_eq_self]
    intro e he
    obtain ⟨c, -, rfl⟩ := List.mem_map.mp he
    exact decide_eq_true rfl
  rw [vectorPairs, upsertEntries, List.filter_append, hnew, List.map_append, upsertAll, without,
    hids, vectorPairs, List.filter_map, List.filter_filter, List.filter_filter]
  congr 1
  · congr 1
    apply List.filter_congr
    intro e _
    simp [Bool.and_comm]
  · simp [indexEntries, chunkPairs, Function.comp_def]

theorem vectorPairs_delete (vectors : List Entry) (ids : List ChunkId) :
    vectorPairs f (deleteEntries vectors ids) = without (vectorPairs f vectors) ids := by
  rw [vectorPairs, deleteEntries, without, vectorPairs, List.filter_map, List.filter_filter,
    List.filter_filter]
  congr 1
  apply List.filter_congr
  intro e _
  simp [Bool.and_comm]

/-! ## The chunks of a page -/

section Page

variable {page : Int}

theorem mem_pageRows {r : Row φ} :
    r ∈ st.pageRows f page ↔ r ∈ st.fileRows f ∧ r.page = some page := by
  rw [Stores.pageRows, List.mem_insertionSort, List.mem_filter, decide_eq_true_eq]

theorem chunkIndex_le_maxIdx {r : Row φ} (hr : r ∈ st.fileRows f) : r.chunkIndex ≤ st.maxIdx f := by
  rw [Stores.maxIdx]
  generalize st.fileRows f = rows at hr
  induction rows with
  | nil => cases hr
  | cons r' rows ih =>
      rw [List.map_cons, List.foldr_cons]
      rcases List.mem_cons.mp hr with rfl | hr
      · exact Nat.le_max_left ..
      · exact (ih hr).trans (Nat.le_max_right ..)

theorem Aligned.eq_of_index (h : Aligned f st) {r r' : Row φ} (hr : r ∈ st.fileRows f)
    (hr' : r' ∈ st.fileRows f) (hidx : r.chunkIndex = r'.chunkIndex) : r = r' :=
  List.inj_on_of_nodup_map h.indexes hr hr' hidx

theorem Aligned.pageRows_nodup (h : Aligned f st) : (st.pageRows f page).Nodup := by
  rw [Stores.pageRows, (List.perm_insertionSort _ _).nodup_iff]
  exact (List.Nodup.of_map _ h.indexes).filter _

/-- An index of the new chunks is that of an old one, or new to the file. -/
theorem indexOf_cases (old : List (Row φ)) (mx k : Nat) :
    (∃ r, old[k]? = some r ∧ indexOf old mx k = r.chunkIndex) ∨
      (old.length ≤ k ∧ indexOf old mx k = mx + 1 + (k - old.length)) := by
  rw [indexOf]
  cases h : old[k]? with
  | some r => exact .inl ⟨r, rfl, rfl⟩
  | none => exact .inr ⟨List.getElem?_eq_none_iff.mp h, rfl⟩

theorem Aligned.indexOf_inj (h : Aligned f st) {k k' : Nat}
    (heq : indexOf (st.pageRows f page) (st.maxIdx f) k =
      indexOf (st.pageRows f page) (st.maxIdx f) k') : k = k' := by
  have hle : ∀ {k : Nat} {r : Row φ}, (st.pageRows f page)[k]? = some r →
      r ∈ st.fileRows f ∧ r.chunkIndex ≤ st.maxIdx f := by
    intro k r hr
    have hmem := (mem_pageRows.mp (List.mem_of_getElem? hr)).1
    exact ⟨hmem, chunkIndex_le_maxIdx hmem⟩
  rcases indexOf_cases (st.pageRows f page) (st.maxIdx f) k with ⟨r, hr, hk⟩ | ⟨hk, hidx⟩
  · rcases indexOf_cases (st.pageRows f page) (st.maxIdx f) k' with ⟨r', hr', hk'⟩ | ⟨-, hidx'⟩
    · have hrr : r = r' := h.eq_of_index (hle hr).1 (hle hr').1 (by rw [← hk, heq, hk'])
      rw [← hrr] at hr'
      exact (List.getElem?_inj (List.getElem?_eq_some_iff.mp hr).1 h.pageRows_nodup).mp
        (hr.trans hr'.symm)
    · have := (hle hr).2
      omega
  · rcases indexOf_cases (st.pageRows f page) (st.maxIdx f) k' with ⟨r', hr', hk'⟩ | ⟨hk', hidx'⟩
    · have := (hle hr').2
      omega
    · omega

variable {text : Str}

theorem chunkPairs_newChunks (old : List (Row φ)) (mx : Nat) :
    chunkPairs f (newChunks cfg filename page old mx text) =
      (piecesOf cfg filename text).zipIdx.map fun x ↦ (chunkId f (indexOf old mx x.2), x.1) := by
  rw [chunkPairs, newChunks, List.map_map]
  rfl

theorem mem_chunkPairs {old : List (Row φ)} {mx : Nat} {x : ChunkId × Str} :
    x ∈ chunkPairs f (newChunks cfg filename page old mx text) ↔
      ∃ k, (piecesOf cfg filename text)[k]? = some x.2 ∧ x.1 = chunkId f (indexOf old mx k) := by
  rw [chunkPairs_newChunks, List.mem_map]
  constructor
  · rintro ⟨⟨piece, k⟩, hk, rfl⟩
    exact ⟨k, List.mem_zipIdx_iff_getElem?.mp hk, rfl⟩
  · rintro ⟨k, hk, hx⟩
    exact ⟨(x.2, k), List.mem_zipIdx_iff_getElem?.mpr hk, Prod.ext hx.symm rfl⟩

variable (cfg f filename page text) in
/-- The chunks of a page's transcription. -/
def pageChunks (st : Stores φ) : List PageChunk :=
  newChunks cfg filename page (st.pageRows f page) (st.maxIdx f) text

/-- The chunk of a piece. -/
theorem pair_mem_chunkPairs {k : Nat} {piece : Str}
    (hk : (piecesOf cfg filename text)[k]? = some piece) :
    (chunkId f (indexOf (st.pageRows f page) (st.maxIdx f) k), piece) ∈
      chunkPairs f (pageChunks cfg f filename page text st) :=
  mem_chunkPairs.mpr ⟨k, hk, rfl⟩

/-- The new chunks have distinct ids. -/
theorem Aligned.chunks_nodup (h : Aligned f st) :
    ((chunkPairs f (pageChunks cfg f filename page text st)).map Prod.fst).Nodup := by
  rw [pageChunks, chunkPairs_newChunks, List.map_map]
  have hmap : (piecesOf cfg filename text).zipIdx.map (Prod.fst ∘ fun x : Str × Nat ↦
      (chunkId f (indexOf (st.pageRows f page) (st.maxIdx f) x.2), x.1)) =
    ((piecesOf cfg filename text).zipIdx.map Prod.snd).map fun k ↦
      chunkId f (indexOf (st.pageRows f page) (st.maxIdx f) k) := by
    rw [List.map_map]
    rfl
  rw [hmap, List.zipIdx_map_snd]
  exact (List.nodup_range' ..).map fun _ _ heq ↦ h.indexOf_inj (chunkId_inj heq)

/-- They hit no chunk of another page. -/
theorem Aligned.chunks_fresh (h : Aligned f st) :
    ∀ x ∈ rowPairs f st, x.1 ∉ (st.pageRows f page).map Row.id →
      x.1 ∉ (chunkPairs f (pageChunks cfg f filename page text st)).map Prod.fst := by
  intro x hx hold hnew
  obtain ⟨r, hr, rfl⟩ := List.mem_map.mp hx
  obtain ⟨y, hy, hid⟩ := List.mem_map.mp hnew
  obtain ⟨k, -, hk⟩ := mem_chunkPairs.mp hy
  have hidx : indexOf (st.pageRows f page) (st.maxIdx f) k = r.chunkIndex := by
    apply chunkId_inj (f := f)
    rw [← hk, hid, h.ids r hr]
  rcases indexOf_cases (st.pageRows f page) (st.maxIdx f) k with ⟨r', hr', hk'⟩ | ⟨-, hk'⟩
  · have hmem := List.mem_of_getElem? hr'
    have hrr : r' = r := h.eq_of_index (mem_pageRows.mp hmem).1 hr (hk' ▸ hidx)
    exact hold (List.mem_map.mpr ⟨r', hmem, by rw [hrr]⟩)
  · have := chunkIndex_le_maxIdx hr
    omega

/-! ## A page -/

/-- The rows of the file after its page has been replaced. -/
theorem fileRows_replaced (old : List (Row φ)) (fields : Option φ) (new : List PageChunk)
    (vectors : List Entry) :
    Stores.fileRows f ⟨st.rows.filter (fun r ↦ r.id ∉ old.map Row.id) ++
        buildChunkRows cfg f fields new, vectors⟩ =
      (st.fileRows f).filter (fun r ↦ r.id ∉ old.map Row.id) ++
        buildChunkRows cfg f fields new := by
  have hnew : ((buildChunkRows cfg f fields new).filter fun r ↦ r.fileId = f) =
      buildChunkRows cfg f fields new := by
    rw [List.filter_eq_self]
    intro r hr
    obtain ⟨c, -, rfl⟩ := List.mem_map.mp hr
    exact decide_eq_true rfl
  rw [Stores.fileRows, Stores.fileRows, List.filter_append, hnew, List.filter_filter,
    List.filter_filter]
  congr 1
  apply List.filter_congr
  intro r _
  exact Bool.and_comm ..

/-- The same, as pairs. -/
theorem rowPairs_replaced (old : List (Row φ)) (fields : Option φ) (new : List PageChunk)
    (vectors : List Entry) :
    rowPairs f ⟨st.rows.filter (fun r ↦ r.id ∉ old.map Row.id) ++
        buildChunkRows cfg f fields new, vectors⟩ =
      without (rowPairs f st) (old.map Row.id) ++ chunkPairs f new := by
  rw [rowPairs, fileRows_replaced, List.map_append, without, rowPairs, List.filter_map]
  congr 1
  · congr 1
    apply List.filter_congr
    intro r _
    simp
  · simp [buildChunkRows, chunkPairs, Function.comp_def]

theorem map_fst_chunkPairs (new : List PageChunk) :
    (chunkPairs f new).map Prod.fst = new.map fun c ↦ chunkId f c.index := by
  simp [chunkPairs, Function.comp_def]

/-- Chunks with new ids, in the place of old ones, leave the indexes distinct. -/
theorem Aligned.nodup_replaced (h : Aligned f st) {old : List (Row φ)} {fields : Option φ}
    {new : List PageChunk} (hnodup : ((chunkPairs f new).map Prod.fst).Nodup)
    (hfresh : ∀ x ∈ rowPairs f st, x.1 ∉ old.map Row.id → x.1 ∉ (chunkPairs f new).map Prod.fst) :
    (((st.fileRows f).filter (fun r ↦ r.id ∉ old.map Row.id) ++
      buildChunkRows cfg f fields new).map Row.chunkIndex).Nodup := by
  rw [map_fst_chunkPairs] at hnodup
  rw [List.map_append, List.nodup_append]
  refine ⟨(List.filter_sublist.map _).nodup h.indexes, ?_, ?_⟩
  · rw [buildChunkRows, List.map_map]
    exact List.Nodup.of_map (chunkId f) (by simpa [Function.comp_def] using hnodup)
  · intro i hi j hj hij
    obtain ⟨r, hr, rfl⟩ := List.mem_map.mp hi
    obtain ⟨r', hr', rfl⟩ := List.mem_map.mp hj
    obtain ⟨c, hc, rfl⟩ := List.mem_map.mp hr'
    rw [List.mem_filter, decide_eq_true_eq] at hr
    apply hfresh (r.id, r.text) (List.mem_map_of_mem hr.1) hr.2
    rw [map_fst_chunkPairs, h.ids r hr.1, hij]
    exact List.mem_map_of_mem hc

variable (cfg f filename page text) in
/-- The rows with those of the page replaced. -/
def newRows (fields : Option φ) (st : Stores φ) : List (Row φ) :=
  st.rows.filter (fun r ↦ r.id ∉ (st.pageRows f page).map Row.id) ++
    buildChunkRows cfg f fields (pageChunks cfg f filename page text st)

variable (cfg f filename page text) in
/-- The vectors with the new ones upserted. -/
def upserted (st : Stores φ) : List Entry :=
  upsertEntries st.vectors (indexEntries f (pageChunks cfg f filename page text st))

variable (cfg f filename page text) in
/-- The old ids that are not used again. -/
def surplus (st : Stores φ) : List ChunkId :=
  surplusIds f (st.pageRows f page) (pageChunks cfg f filename page text st)

theorem mem_surplus {k : ChunkId} : k ∈ surplus cfg f filename page text st ↔
    k ∈ (st.pageRows f page).map Row.id ∧
      k ∉ (chunkPairs f (pageChunks cfg f filename page text st)).map Prod.fst := by
  rw [surplus, surplusIds, List.mem_filter, decide_eq_true_eq, chunkPairs, List.map_map]
  rfl

/-- A page's chunks are replaced in both stores. -/
theorem Aligned.replaced (h : Aligned f st) (fields : Option φ) :
    Aligned f ⟨newRows cfg f filename page text fields st,
      deleteEntries (upserted cfg f filename page text st)
        (surplus cfg f filename page text st)⟩ := by
  have hfresh : ∀ x ∈ rowPairs f st, x.1 ∉ (st.pageRows f page).map Row.id →
    x.1 ∉ (chunkPairs f (pageChunks cfg f filename page text st)).map Prod.fst := h.chunks_fresh
  have hnodup : ((chunkPairs f (pageChunks cfg f filename page text st)).map Prod.fst).Nodup :=
    h.chunks_nodup
  have hsurplus : ∀ k, k ∈ surplus cfg f filename page text st ↔
      k ∈ (st.pageRows f page).map Row.id ∧
        k ∉ (chunkPairs f (pageChunks cfg f filename page text st)).map Prod.fst :=
    fun _ ↦ mem_surplus
  rw [newRows, upserted]
  generalize surplus cfg f filename page text st = gone at *
  generalize pageChunks cfg f filename page text st = new at *
  constructor
  · rw [fileRows_replaced]
    intro r hr
    rcases List.mem_append.mp hr with hr | hr
    · exact h.ids r (List.mem_filter.mp hr).1
    · obtain ⟨c, -, rfl⟩ := List.mem_map.mp hr
      rfl
  · rw [fileRows_replaced]
    exact h.nodup_replaced hnodup hfresh
  · have hold : ((vectorPairs f st.vectors).map Prod.fst).Nodup := by
      rw [vectorPairs, List.map_map]
      exact h.vectors
    have hvectors : ((without (upsertAll (vectorPairs f st.vectors) (chunkPairs f new))
      gone).map Prod.fst).Nodup := nodup_without (nodup_upsertAll hold hnodup)
    rw [← vectorPairs_upsert, ← vectorPairs_delete, vectorPairs, List.map_map] at hvectors
    exact hvectors
  · rw [agree_iff_mirrors, rowPairs_replaced, vectorPairs_delete, vectorPairs_upsert]
    exact (agree_iff_mirrors.mp h.agree).replace hfresh hsurplus

/-! ## What a page does to the stores -/

variable {fails : Call → Bool} {fields : Option φ}

/-- The rows with the fields of the page set. -/
def filledRows (f : FileId) (page : Int) (fields : Option φ) (st : Stores φ) : List (Row φ) :=
  st.rows.map fun r ↦
    if fields.isSome ∧ r.fileId = f ∧ r.page = some page then { r with fields := fields } else r

/-- How the session of a page ends: what it leaves of the stores in each case. -/
inductive PageStep (cfg : Settings) (f : FileId) (filename : Str) (page : Int)
    (fields : Option φ) (text : Str) (st : Stores φ) : Stores φ × PageEnd → Prop where
  | absent : st.pageRows f page = [] → PageStep cfg f filename page fields text st (st, .absent)
  | replaced : text ≠ [] → PageStep cfg f filename page fields text st
      (⟨newRows cfg f filename page text fields st,
        deleteEntries (upserted cfg f filename page text st) (surplus cfg f filename page text st)⟩,
        .done true)
  | filled : text = [] → PageStep cfg f filename page fields text st
      (⟨filledRows f page fields st, st.vectors⟩, .done false)
  /-- The call that raises comes before any change in Chroma. -/
  | untouched {call : Call} :
      text = [] ∨ call ≠ .deleteSurplus ∧ call ≠ .commit →
      PageStep cfg f filename page fields text st (st, .raised call)
  | surplusLeft : text ≠ [] → surplus cfg f filename page text st ≠ [] →
      PageStep cfg f filename page fields text st
        (⟨st.rows, upserted cfg f filename page text st⟩, .raised .deleteSurplus)
  | uncommitted : text ≠ [] → PageStep cfg f filename page fields text st
      (⟨st.rows, deleteEntries (upserted cfg f filename page text st)
        (surplus cfg f filename page text st)⟩, .raised .commit)

theorem processPage_step (text : Str) (st : Stores φ) :
    PageStep cfg f filename page fields text st
      (processPage cfg f filename fails page fields text st) := by
  rw [processPage]
  by_cases hselect : fails .selectOld = true
  · rw [if_pos hselect]
    exact .untouched (.inr ⟨by decide, by decide⟩)
  rw [if_neg hselect]
  by_cases hold : st.pageRows f page = []
  · rw [if_pos hold]
    exact .absent hold
  rw [if_neg hold]
  by_cases htext : text = []
  · rw [if_neg (not_not.mpr htext), fillPage]
    split_ifs
    · exact .untouched (.inl htext)
    · exact .untouched (.inl htext)
    · exact .filled htext
  · rw [if_pos htext]
    simp only [replacePage]
    split_ifs with _ _ _ hsurplus
    · exact .untouched (.inr ⟨by decide, by decide⟩)
    · exact .untouched (.inr ⟨by decide, by decide⟩)
    · exact .untouched (.inr ⟨by decide, by decide⟩)
    · exact .surplusLeft htext hsurplus.1
    · exact .uncommitted htext
    · exact .replaced htext

theorem fileRows_filled (fields : Option φ) (vectors : List Entry) :
    Stores.fileRows f ⟨filledRows f page fields st, vectors⟩ =
      (st.fileRows f).map fun r ↦ if fields.isSome ∧ r.fileId = f ∧ r.page = some page then
        { r with fields := fields } else r := by
  rw [Stores.fileRows, Stores.fileRows, filledRows, List.filter_map]
  congr 1
  apply List.filter_congr
  intro r _
  rw [Function.comp_apply]
  split_ifs
  · rfl
  · rfl

/-- Setting fields changes no id and no text. -/
theorem Aligned.filled (h : Aligned f st) (fields : Option φ) :
    Aligned f ⟨filledRows f page fields st, st.vectors⟩ := by
  have hkeeps : ∀ {α : Type} (g : Row φ → α), (∀ r : Row φ, g { r with fields := fields } = g r) →
      (Stores.fileRows f ⟨filledRows f page fields st, st.vectors⟩).map g =
        (st.fileRows f).map g := by
    intro α g hg
    rw [fileRows_filled, List.map_map]
    apply List.map_congr_left
    intro r _
    rw [Function.comp_apply]
    split_ifs
    · exact hg r
    · rfl
  constructor
  · rw [fileRows_filled]
    intro r hr
    obtain ⟨r', hr', rfl⟩ := List.mem_map.mp hr
    split_ifs
    · exact h.ids r' hr'
    · exact h.ids r' hr'
  · rw [hkeeps Row.chunkIndex fun _ ↦ rfl]
    exact h.indexes
  · exact h.vectors
  · rw [agree_iff_mirrors, rowPairs, hkeeps (fun r ↦ (r.id, r.text)) fun _ ↦ rfl]
    exact agree_iff_mirrors.mp h.agree

/-- **A page that is done leaves the stores aligned.** -/
theorem Aligned.processPage (h : Aligned f st) (cfg : Settings) (filename : Str)
    (fails : Call → Bool) (page : Int) (fields : Option φ) (text : Str)
    (hend : ∀ call, (processPage cfg f filename fails page fields text st).2 ≠ .raised call) :
    Aligned f (processPage cfg f filename fails page fields text st).1 := by
  have hstep : PageStep cfg f filename page fields text st
    (Extraction.processPage cfg f filename fails page fields text st) := processPage_step text st
  generalize Extraction.processPage cfg f filename fails page fields text st = out at hstep hend
  cases hstep with
  | absent => exact h
  | replaced => exact h.replaced fields
  | filled => exact h.filled fields
  | untouched => exact absurd rfl (hend _)
  | surplusLeft => exact absurd rfl (hend _)
  | uncommitted => exact absurd rfl (hend _)

/-! ## The rows after a page -/

/-- A row of another page keeps its id to itself. -/
theorem Aligned.other_page (h : Aligned f st) {r : Row φ} (hr : r ∈ st.fileRows f) :
    r.id ∈ (st.pageRows f page).map Row.id ↔ r.page = some page := by
  constructor
  · intro hid
    obtain ⟨r', hr', heq⟩ := List.mem_map.mp hid
    obtain ⟨hr', hpage⟩ := mem_pageRows.mp hr'
    rw [h.ids r' hr', h.ids r hr] at heq
    rw [← h.eq_of_index hr' hr (chunkId_inj heq)]
    exact hpage
  · exact fun hpage ↦ List.mem_map_of_mem (mem_pageRows.mpr ⟨hr, hpage⟩)

/-- The rows of the page are those of the new chunks. -/
theorem Aligned.pageRows_replaced (h : Aligned f st) (cfg : Settings) (filename : Str)
    (page : Int) (fields : Option φ) (text : Str) (vectors : List Entry) :
    ((Stores.fileRows f ⟨newRows cfg f filename page text fields st, vectors⟩).filter fun r ↦
      r.page = some page) = buildChunkRows cfg f fields (pageChunks cfg f filename page text st) ∧
    ∀ r, r.page ≠ some page →
      (r ∈ Stores.fileRows f ⟨newRows cfg f filename page text fields st, vectors⟩ ↔
        r ∈ st.fileRows f) := by
  have hnew : ∀ r ∈ buildChunkRows cfg f fields (pageChunks cfg f filename page text st),
      r.page = some page := by
    intro r hr
    obtain ⟨c, hc, rfl⟩ := List.mem_map.mp hr
    obtain ⟨x, -, rfl⟩ := List.mem_map.mp hc
    rfl
  rw [newRows, fileRows_replaced]
  constructor
  · rw [List.filter_append, List.filter_filter, List.filter_eq_nil_iff.mpr, List.nil_append,
      List.filter_eq_self]
    · exact fun r hr ↦ decide_eq_true (hnew r hr)
    · intro r hr hboth
      rw [Bool.and_eq_true, decide_eq_true_eq, decide_eq_true_eq] at hboth
      exact hboth.2 ((h.other_page hr).mpr hboth.1)
  · intro r hpage
    rw [List.mem_append, List.mem_filter, decide_eq_true_eq]
    constructor
    · rintro (hr | hr)
      · exact hr.1
      · exact absurd (hnew r hr) hpage
    · exact fun hr ↦ .inl ⟨hr, fun hid ↦ hpage ((h.other_page hr).mp hid)⟩

theorem fileRows_filled_other {fields : Option φ} {vectors : List Entry} {r : Row φ}
    (hpage : r.page ≠ some page) :
    r ∈ Stores.fileRows f ⟨filledRows f page fields st, vectors⟩ ↔ r ∈ st.fileRows f := by
  rw [fileRows_filled, List.mem_map]
  constructor
  · rintro ⟨r', hr', heq⟩
    split_ifs at heq with hfill
    · rw [← heq] at hpage
      exact absurd hfill.2.2 hpage
    · rwa [← heq]
  · intro hr
    exact ⟨r, hr, if_neg fun hfill ↦ hpage hfill.2.2⟩

/-- The chunks of a transcription are its pieces, and none is flagged. -/
theorem texts_buildChunkRows (cfg : Settings) (f : FileId) (filename : Str) (page : Int)
    (fields : Option φ) (text : Str) (st : Stores φ) : (buildChunkRows cfg f fields
    (pageChunks cfg f filename page text st)).map Row.text = piecesOf cfg filename text ∧
    ∀ r ∈ buildChunkRows cfg f fields (pageChunks cfg f filename page text st),
      r.needsReview = false := by
  constructor
  · rw [buildChunkRows, pageChunks, newChunks, List.map_map, List.map_map]
    exact List.zipIdx_map_fst ..
  · intro r hr
    obtain ⟨c, hc, rfl⟩ := List.mem_map.mp hr
    obtain ⟨x, -, rfl⟩ := List.mem_map.mp hc
    rfl

/-- Without a failure, a page of which there are chunks is done. -/
theorem processPage_returns (cfg : Settings) (f : FileId) (filename : Str) (page : Int)
    (fields : Option φ) (text : Str) (st : Stores φ) :
    (processPage cfg f filename (fun _ ↦ false) page fields text st).2 =
      if st.pageRows f page = [] then .absent else .done (decide (text ≠ [])) := by
  rw [processPage]
  by_cases hold : st.pageRows f page = []
  · simp [hold]
  · by_cases htext : text = []
    · simp [hold, htext, fillPage]
    · simp [hold, htext, replacePage]

/-- What a page that is done leaves of the rows. -/
theorem Aligned.rows_of_page (h : Aligned f st) (cfg : Settings) (filename : Str)
    (fails : Call → Bool) (page : Int) (fields : Option φ) (text : Str)
    (hend : ∀ call, (Extraction.processPage cfg f filename fails page fields text st).2 ≠
      .raised call) :
    (∀ r, r.page ≠ some page →
      (r ∈ (Extraction.processPage cfg f filename fails page fields text st).1.fileRows f ↔
        r ∈ st.fileRows f)) ∧
    (text ≠ [] → st.pageRows f page ≠ [] →
      (((Extraction.processPage cfg f filename fails page fields text st).1.fileRows f).filter
        fun r ↦ r.page = some page) =
          buildChunkRows cfg f fields (pageChunks cfg f filename page text st)) := by
  have hstep : PageStep cfg f filename page fields text st
    (Extraction.processPage cfg f filename fails page fields text st) := processPage_step text st
  generalize Extraction.processPage cfg f filename fails page fields text st = out at hstep hend
  cases hstep with
  | absent hold => exact ⟨fun _ _ ↦ Iff.rfl, fun _ hne ↦ absurd hold hne⟩
  | replaced =>
      obtain ⟨hrows, hother⟩ := h.pageRows_replaced cfg filename page fields text _
      exact ⟨hother, fun _ _ ↦ hrows⟩
  | filled htext => exact ⟨fun _ hpage ↦ fileRows_filled_other hpage, fun hne ↦ absurd htext hne⟩
  | untouched => exact absurd rfl (hend _)
  | surplusLeft => exact absurd rfl (hend _)
  | uncommitted => exact absurd rfl (hend _)

end Page

/-! ## The loop -/

section Loop

variable {flagged : List (Option Int)} {readings : Int → Reading φ} {fails : Int → Call → Bool}
  {pages : List Int} {done reread : Nat}

/-- The run behind a part of the pages. -/
theorem runPages_append (rest : List Int) :
    runPages cfg f filename flagged readings fails (pages ++ rest) st done reread =
      match runPages cfg f filename flagged readings fails pages st done reread with
      | (mid, .finished done' reread') =>
          runPages cfg f filename flagged readings fails rest mid done' reread'
      | (mid, e) => (mid, e) := by
  induction pages generalizing st done reread with
  | nil => rfl
  | cons page pages ih =>
      rw [List.cons_append, runPages, runPages]
      cases readings page with
      | timeout => rfl
      | failed => exact ih
      | replies fields said =>
          simp only
          split
          · exact ih
          · exact ih
          · rfl

/-- How the loop ends: the stores are aligned, or were before the page at which a call raised. -/
inductive LoopEnd (cfg : Settings) (f : FileId) (filename : Str) (flagged : List (Option Int))
    (readings : Int → Reading φ) (fails : Int → Call → Bool) : Stores φ × End φ → Prop where
  | finished {st : Stores φ} {done reread : Nat} : Aligned f st →
      LoopEnd cfg f filename flagged readings fails (st, .finished done reread)
  | timeout {st : Stores φ} {page : Int} : Aligned f st →
      LoopEnd cfg f filename flagged readings fails (st, .timeout page)
  | raised {st before : Stores φ} {page : Int} {call : Call} {fields : Option φ} {said : Str} :
      Aligned f before → readings page = .replies fields said →
      processPage cfg f filename (fails page) page fields (textOf flagged page said) before =
        (st, .raised call) →
      LoopEnd cfg f filename flagged readings fails (st, .storeRaised page call before)

/-- **The loop keeps the stores aligned** up to a call that raises. -/
theorem Aligned.runPages (h : Aligned f st) : LoopEnd cfg f filename flagged readings fails
    (runPages cfg f filename flagged readings fails pages st done reread) := by
  induction pages generalizing st done reread with
  | nil => exact .finished h
  | cons page pages ih =>
      rw [Extraction.runPages]
      cases hread : readings page with
      | timeout => exact .timeout h
      | failed => exact ih h
      | replies fields said =>
          have hpage := h.processPage cfg filename (fails page) page fields
            (textOf flagged page said)
          simp only
          generalize hout : Extraction.processPage cfg f filename (fails page) page fields
            (textOf flagged page said) st = out at hpage
          obtain ⟨st', e⟩ := out
          cases e with
          | absent => exact ih (hpage nofun)
          | done again => exact ih (hpage nofun)
          | raised call => exact .raised h hread hout

/-- Without a failure no call raises. -/
theorem runPages_ne_storeRaised (page : Int) (call : Call) (before : Stores φ) :
    (Extraction.runPages cfg f filename flagged readings (fun _ _ ↦ false) pages st done
      reread).2 ≠ .storeRaised page call before := by
  induction pages generalizing st done reread with
  | nil => exact nofun
  | cons page' pages ih =>
      rw [Extraction.runPages]
      cases readings page' with
      | timeout => exact nofun
      | failed => exact ih
      | replies fields said =>
          have hret := processPage_returns cfg f filename page' fields
            (textOf flagged page' said) st
          simp only
          generalize Extraction.processPage cfg f filename (fun _ ↦ false) page' fields
            (textOf flagged page' said) st = out at hret
          obtain ⟨st', e⟩ := out
          cases e with
          | absent => exact ih
          | done again => exact ih
          | raised call' =>
              simp only at hret
              split_ifs at hret

theorem Aligned.runPages_ok (h : Aligned f st) (cfg : Settings) (filename : Str)
    (flagged : List (Option Int)) (readings : Int → Reading φ) (pages : List Int)
    (done reread : Nat) :
    Aligned f (Extraction.runPages cfg f filename flagged readings (fun _ _ ↦ false) pages st done
      reread).1 := by
  have hloop : LoopEnd cfg f filename flagged readings (fun _ _ ↦ false)
    (Extraction.runPages cfg f filename flagged readings (fun _ _ ↦ false) pages st done reread) :=
    h.runPages
  have hno : ∀ page call before, (Extraction.runPages cfg f filename flagged readings
      (fun _ _ ↦ false) pages st done reread).2 ≠ .storeRaised page call before :=
    runPages_ne_storeRaised
  generalize Extraction.runPages cfg f filename flagged readings (fun _ _ ↦ false) pages st done
    reread = out at hloop hno
  cases hloop with
  | finished h' => exact h'
  | timeout h' => exact h'
  | raised => exact absurd rfl (hno _ _ _)

/-- The loop over other pages leaves the rows of a page as they are. -/
theorem Aligned.runPages_other (h : Aligned f st) (cfg : Settings) (filename : Str)
    (flagged : List (Option Int)) (readings : Int → Reading φ) (done reread : Nat) {page : Int}
    (hpage : page ∉ pages) {r : Row φ} (hr : r.page = some page) :
    r ∈ (Extraction.runPages cfg f filename flagged readings (fun _ _ ↦ false) pages st done
      reread).1.fileRows f ↔ r ∈ st.fileRows f := by
  induction pages generalizing st done reread with
  | nil => exact Iff.rfl
  | cons page' pages ih =>
      rw [List.mem_cons, not_or] at hpage
      rw [Extraction.runPages]
      cases readings page' with
      | timeout => exact Iff.rfl
      | failed => exact ih h _ _ hpage.2
      | replies fields said =>
          have hret := processPage_returns cfg f filename page' fields
            (textOf flagged page' said) st
          have hend : ∀ call, (Extraction.processPage cfg f filename (fun _ ↦ false) page' fields
              (textOf flagged page' said) st).2 ≠ .raised call := by
            intro call
            rw [hret]
            split_ifs
            · exact nofun
            · exact nofun
          have hkept := h.processPage cfg filename _ page' fields _ hend
          have hsame := (h.rows_of_page cfg filename _ page' fields _ hend).1 r (by
            rw [hr]
            exact fun heq ↦ hpage.1 (Option.some.inj heq))
          simp only
          generalize Extraction.processPage cfg f filename (fun _ ↦ false) page' fields
            (textOf flagged page' said) st = out at hkept hsame hend
          obtain ⟨st', e⟩ := out
          cases e with
          | absent => exact (ih hkept _ _ hpage.2).trans hsame
          | done again => exact (ih hkept _ _ hpage.2).trans hsame
          | raised call => exact absurd rfl (hend call)

theorem mem_selectPages {rows : List (Row φ)} {allPages : Bool} {page : Int}
    (h : page ∈ selectPages rows allPages) : ∃ r ∈ rows, r.page = some page := by
  rw [selectPages, List.mem_insertionSort, List.mem_dedup] at h
  obtain ⟨r, hr, hpage⟩ := List.mem_filterMap.mp h
  exact ⟨r, (List.mem_filter.mp hr).1, hpage⟩

theorem nodup_selectPages (rows : List (Row φ)) (allPages : Bool) :
    (selectPages rows allPages).Nodup :=
  (List.perm_insertionSort _ _).nodup_iff.mpr (List.nodup_dedup _)

/-- When the turn of a selected page comes, it still has the chunks it was selected for. -/
theorem Aligned.pageRows_ne_nil (h : Aligned f st) (cfg : Settings) (filename : Str)
    (readings : Int → Reading φ) {allPages : Bool} {pre post : List Int} {page : Int}
    (hpages : selectPages (st.fileRows f) allPages = pre ++ page :: post) (done reread : Nat) :
    (Extraction.runPages cfg f filename (flaggedPages (st.fileRows f)) readings
      (fun _ _ ↦ false) pre st done reread).1.pageRows f page ≠ [] := by
  have hmem : page ∈ selectPages (st.fileRows f) allPages := by simp [hpages]
  have hnodup := nodup_selectPages (st.fileRows f) allPages
  rw [hpages, List.nodup_append] at hnodup
  obtain ⟨r, hr, hpage⟩ := mem_selectPages hmem
  have hnot : page ∉ pre := fun hin ↦ hnodup.2.2 page hin page List.mem_cons_self rfl
  have hsame := h.runPages_other cfg filename (flaggedPages (st.fileRows f)) readings done reread
    hnot hpage
  exact List.ne_nil_of_mem (mem_pageRows.mpr ⟨hsame.mpr hr, hpage⟩)

end Loop

/-- The job hands the selected pages to the loop, unless they are too many. -/
theorem extractFile_stores (cfg : Settings) (f : FileId) (filename : Str) (allPages : Bool)
    (readings : Int → Reading φ) (fails : Int → Call → Bool) (st : Stores φ) :
    (extractFile cfg f (.ok filename) allPages readings fails st).1 =
      if cfg.extractMaxPages < (selectPages (st.fileRows f) allPages).length then st
      else (runPages cfg f filename (flaggedPages (st.fileRows f)) readings fails
        (selectPages (st.fileRows f) allPages) st 0 0).1 := by
  simp only [extractFile]
  split
  · rfl
  · split
    · rfl
    · rfl
    · rfl

/-- Without a failure of a store the job leaves the stores aligned, and so does each of its
pages, which are taken one after the other (`runPages`); a page changes only its own rows, and a
flagged page of which there is a transcription has the pieces of that afterwards, none of them
flagged. -/
theorem extractFile_aligned (cfg : Settings) (f : FileId) (filename : Str) (allPages : Bool)
    (readings : Int → Reading φ) (st : Stores φ) (h : Aligned f st) :
    Aligned f (extractFile cfg f (.ok filename) allPages readings (fun _ _ ↦ false) st).1 ∧
    ((extractFile cfg f (.ok filename) allPages readings (fun _ _ ↦ false) st).1 =
      if cfg.extractMaxPages < (selectPages (st.fileRows f) allPages).length then st
      else (runPages cfg f filename (flaggedPages (st.fileRows f)) readings (fun _ _ ↦ false)
        (selectPages (st.fileRows f) allPages) st 0 0).1) ∧
    ∀ pre page post, selectPages (st.fileRows f) allPages = pre ++ page :: post →
    ∀ before done reread, runPages cfg f filename (flaggedPages (st.fileRows f)) readings
      (fun _ _ ↦ false) pre st 0 0 = (before, .finished done reread) →
    ∀ fields said, readings page = .replies fields said →
    ∃ after reread', runPages cfg f filename (flaggedPages (st.fileRows f)) readings
        (fun _ _ ↦ false) (pre ++ [page]) st 0 0 = (after, .finished (done + 1) reread') ∧
      Aligned f after ∧
      (∀ r, r.page ≠ some page → (r ∈ after.fileRows f ↔ r ∈ before.fileRows f)) ∧
      (textOf (flaggedPages (st.fileRows f)) page said ≠ [] →
        (((after.fileRows f).filter fun r ↦ r.page = some page).map Row.text =
          piecesOf cfg filename (textOf (flaggedPages (st.fileRows f)) page said)) ∧
        ∀ r ∈ after.fileRows f, r.page = some page → r.needsReview = false) := by
  refine ⟨?_, extractFile_stores cfg f filename allPages readings _ st, ?_⟩
  · rw [extractFile_stores]
    split
    · exact h
    · exact h.runPages_ok cfg filename (flaggedPages (st.fileRows f)) readings _ 0 0
  · intro pre page post hpages before done reread hpre fields said hread
    have hbefore : Aligned f before := by
      have hrun := h.runPages_ok cfg filename (flaggedPages (st.fileRows f)) readings pre 0 0
      rwa [hpre] at hrun
    have hold := h.pageRows_ne_nil cfg filename readings hpages 0 0
    rw [hpre] at hold
    have hret := processPage_returns cfg f filename page fields
      (textOf (flaggedPages (st.fileRows f)) page said) before
    rw [if_neg hold] at hret
    have hend : ∀ call, (processPage cfg f filename (fun _ ↦ false) page fields
        (textOf (flaggedPages (st.fileRows f)) page said) before).2 ≠ .raised call := by
      intro call
      rw [hret]
      exact nofun
    obtain ⟨hother, hrows⟩ := hbefore.rows_of_page cfg filename _ page fields _ hend
    refine ⟨_, if textOf (flaggedPages (st.fileRows f)) page said ≠ [] then reread + 1 else reread,
      ?_, hbefore.processPage cfg filename _ page fields _ hend, hother, ?_⟩
    · rw [runPages_append, hpre]
      simp only [runPages, hread, hret, decide_eq_true_eq]
    · intro htext
      obtain ⟨htexts, hreview⟩ := texts_buildChunkRows cfg f filename page fields
        (textOf (flaggedPages (st.fileRows f)) page said) before
      rw [← hrows htext hold] at htexts hreview
      refine ⟨htexts, fun r hr hpage ↦ hreview r ?_⟩
      exact List.mem_filter.mpr ⟨hr, decide_eq_true hpage⟩

/-! ## A file -/

def scannedRow (index : Nat) (page : Int) (text : String) (flag : Bool) : Row Unit :=
  ⟨chunkId (str "f") index, str "f", index, some page, none, str text, flag, none, flag, none⟩

def scannedEntry (index : Nat) (text : String) : Entry :=
  ⟨chunkId (str "f") index, str text, str "scan.pdf", index, str "f"⟩

/-- A file of two pages; the first one is flagged and has two chunks. -/
def scanned : Stores Unit where
  rows := [scannedRow 0 1 "blurred" true, scannedRow 1 1 "smudged" true,
    scannedRow 2 2 "clear" false]
  vectors := [scannedEntry 0 "blurred", scannedEntry 1 "smudged", scannedEntry 2 "clear"]

def scannedSettings : Settings := ⟨⟨512, 64⟩, 3 / 5, 10⟩

/-- The transcription of every page. -/
def readAgain : Int → Reading Unit := fun _ ↦ .replies none (str "Read  again.")

theorem aligned_scanned : Aligned (str "f") scanned where
  ids := by decide
  indexes := by decide
  vectors := by decide
  agree := by
    have hpairs : rowPairs (str "f") scanned = vectorPairs (str "f") scanned.vectors := by
      decide
    rw [agree_iff_mirrors, hpairs]
    exact fun _ ↦ Iff.rfl

/-- The first page is read again, and its second chunk is gone. -/
theorem extractFile_aligned_scanned :
    ∃ after reread, runPages scannedSettings (str "f") (str "scan.pdf") [some 1, some 1] readAgain
        (fun _ _ ↦ false) [1] scanned 0 0 = (after, .finished 1 reread) ∧
      Aligned (str "f") after ∧
      ((after.fileRows (str "f")).map fun r ↦ (r.chunkIndex, r.text)) =
        [(2, str "clear"), (0, str "Read again.")] := by
  obtain ⟨after, reread, hrun, haligned, -⟩ := (extractFile_aligned scannedSettings (str "f")
    (str "scan.pdf") true readAgain scanned aligned_scanned).2.2 [] 1 [2] (by decide)
    scanned 0 0 rfl none (str "Read  again.") rfl
  have hflagged : flaggedPages (scanned.fileRows (str "f")) = [some 1, some 1] := by decide
  have hrows : ((runPages scannedSettings (str "f") (str "scan.pdf") [some 1, some 1] readAgain
      (fun _ _ ↦ false) [1] scanned 0 0).1.fileRows (str "f")).map
        (fun r ↦ (r.chunkIndex, r.text)) = [(2, str "clear"), (0, str "Read again.")] := by
    decide
  rw [hflagged, List.nil_append] at hrun
  rw [hrun] at hrows
  exact ⟨after, reread, hrun, haligned, hrows⟩

end Adapta.Extraction
