import Adapta.Reembed.Rebuild

/-!
# The two writers of a project's vectors

A run of upload, index, extract and delete jobs of one project under one embedding model.  Its
collection holds an entry for every row, and a rebuild from the rows leaves the same entries
exactly if no row has a situating sentence: `_project_rows` does not select the column, and
`_rebuild` embeds the text alone.
-/

namespace Adapta.Reembed

open Lib

/-- The files of a project, their chunks, and its collection. -/
structure Project where
  /-- The filename of a file that exists. -/
  files : FileId → Option Str
  rows : List ProjectChunk
  live : Option Coll

inductive Job where
  | upload (f : FileId) (filename : Str)
  /-- `_index_file`: the pieces that were parsed, and, if the project has contextual retrieval,
  the situating sentence of each. -/
  | index (f : FileId) (pieces : List (Str × Option Nat)) (contexts : Option (Nat → Option Str))
  /-- `extract_file`, for one page: the pieces of its transcription. -/
  | extract (f : FileId) (page : Nat) (pieces : List Str)
  | delete (f : FileId)

/-- The parsed chunks, which are numbered in their order. -/
def parsed (filename : Str) (pieces : List (Str × Option Nat)) : List Chunk :=
  pieces.zipIdx.map fun x ↦ ⟨x.1.1, filename, x.2, x.1.2, none⟩

/-- `contextualize_chunks`. -/
def contextualizeChunks (contexts : Option (Nat → Option Str)) (chunks : List Chunk) :
    List Chunk :=
  match contexts with
  | none => chunks
  | some answers => chunks.zipIdx.map fun x ↦ { x.1 with context := answers x.2 }

/-- The rows with ids of their own that no other row has. -/
def insertable (rows new : List ProjectChunk) : Bool :=
  ((rows ++ new).map ProjectChunk.id).Nodup

/-- The new chunks of a page: the old indexes first, then new ones past the largest. -/
def newChunks (filename : Str) (page maxIdx : Nat) (old : List ProjectChunk)
    (pieces : List Str) : List Chunk :=
  pieces.zipIdx.map fun x ↦
    { text := x.1
      source := filename
      index := ((old[x.2]?).map ProjectChunk.chunkIndex).getD (maxIdx + 1 + (x.2 - old.length))
      page := some page
      context := none }

namespace Project

variable (sp : Space) (s : Project)

/-- `ensure_collection`. -/
def ensureCollection : Coll := s.live.getD ⟨some sp.model, []⟩

def entries : List Entry := (s.live.map Coll.entries).getD []

/-- The chunks of a page, by their index. -/
def pageRows (f : FileId) (page : Nat) : List ProjectChunk :=
  (s.rows.filter fun r ↦ r.fileId = f ∧ r.page = some page).insertionSort
    fun r r' ↦ r.chunkIndex ≤ r'.chunkIndex

/-- The largest index of a file's chunks. -/
def maxIdx (f : FileId) : Nat :=
  ((s.rows.filter fun r ↦ r.fileId = f).map ProjectChunk.chunkIndex).foldl max 0

/-- The upload of a file under a new id. -/
def upload (f : FileId) (filename : Str) : Option Project :=
  if s.files f = none then some { s with files := Function.update s.files f (some filename) }
  else none

/-- The rows and the vectors of a file's chunks are written. -/
def index (f : FileId) (chunks : List Chunk) : Option Project :=
  if insertable s.rows (buildChunkRows f chunks) then
    some { s with
      rows := s.rows ++ buildChunkRows f chunks
      live := indexChunks sp f chunks (s.ensureCollection sp) }
  else none

/-- The chunks `old` of a file are replaced by `new`. -/
def replace (f : FileId) (old : List ProjectChunk) (new : List Chunk) : Option Project :=
  let ids := old.map ProjectChunk.id
  let kept := s.rows.filter fun r ↦ r.id ∉ ids
  let added := buildChunkRows f new
  if insertable kept added then
    let surplus := ids.filter fun i ↦ i ∉ added.map ProjectChunk.id
    some { s with
      rows := kept ++ added
      live := (indexChunks sp f new s.live).map fun c ↦ c.delete surplus }
  else none

/-- The file's vectors go by `delete_file_chunks`, and its rows by the cascade. -/
def delete (f : FileId) : Project where
  files := Function.update s.files f none
  rows := s.rows.filter fun r ↦ r.fileId ≠ f
  live := s.live.map fun c ↦ c.delete ((c.entries.filter fun e ↦ e.fileId = f).map Entry.id)

/-- A job that ends well. -/
def run : Job → Option Project
  | .upload f filename => s.upload f filename
  | .index f pieces contexts =>
      (s.files f).bind fun filename ↦
        s.index sp f (contextualizeChunks contexts (parsed filename pieces))
  | .extract f page pieces =>
      (s.files f).bind fun filename ↦
        let old := s.pageRows f page
        if old = [] then none
        else s.replace sp f old (newChunks filename page (s.maxIdx f) old pieces)
  | .delete f => if s.files f = none then none else some (s.delete f)

end Project

/-- The jobs of a project, under one embedding model. -/
def jobs (sp : Space) : System Project Job where
  init := ⟨fun _ ↦ none, [], none⟩
  next s := s.run sp

/-! ## What the jobs write -/

/-- What `index_chunks` writes for the chunk of a row. -/
def written (sp : Space) (files : FileId → Option Str) (r : ProjectChunk) : Entry where
  id := r.id
  document := r.text
  source := (files r.fileId).getD []
  chunkIndex := r.chunkIndex
  fileId := r.fileId
  input := withContext r.context r.text
  space := sp

/-- The collection holds what was written for the rows. -/
structure Project.Inv (sp : Space) (s : Project) : Prop where
  ids : (s.rows.map ProjectChunk.id).Nodup
  files : ∀ r ∈ s.rows, s.files r.fileId ≠ none
  entries : s.entries.Perm (s.rows.map (written sp s.files))

section Jobs

variable {sp : Space} {s s' : Project} {f : FileId} {filename : Str} {chunks : List Chunk}
  {files : FileId → Option Str}

theorem buildChunkRows_ids (sp : Space) :
    (buildChunkRows f chunks).map ProjectChunk.id = (indexEntries sp f chunks).map Entry.id := by
  simp [buildChunkRows, indexEntries, Function.comp_def]

/-- The rows and the entries of the same chunks. -/
theorem map_written_buildChunkRows (hf : files f = some filename)
    (hsource : ∀ c ∈ chunks, c.source = filename) :
    (buildChunkRows f chunks).map (written sp files) = indexEntries sp f chunks := by
  rw [buildChunkRows, indexEntries, List.map_map]
  apply List.map_congr_left
  intro c hc
  simp [written, hf, hsource c hc, indexedText]

theorem source_parsed {pieces : List (Str × Option Nat)} :
    ∀ c ∈ parsed filename pieces, c.source = filename := by
  intro c hc
  obtain ⟨_, -, rfl⟩ := List.mem_map.mp hc
  rfl

theorem source_contextualizeChunks {contexts : Option (Nat → Option Str)}
    (h : ∀ c ∈ chunks, c.source = filename) :
    ∀ c ∈ contextualizeChunks contexts chunks, c.source = filename := by
  intro c hc
  cases contexts with
  | none => exact h c hc
  | some answers =>
      obtain ⟨x, hx, rfl⟩ := List.mem_map.mp hc
      exact h x.1 (List.fst_mem_of_mem_zipIdx hx)

theorem source_newChunks {page maxIdx : Nat} {old : List ProjectChunk} {pieces : List Str} :
    ∀ c ∈ newChunks filename page maxIdx old pieces, c.source = filename := by
  intro c hc
  obtain ⟨_, -, rfl⟩ := List.mem_map.mp hc
  rfl

theorem ids_written {rows : List ProjectChunk} :
    (rows.map (written sp files)).map Entry.id = rows.map ProjectChunk.id := by
  simp [written, Function.comp_def]

/-- The entries have the ids of the rows. -/
theorem Project.Inv.entry_ids (h : s.Inv sp) :
    (s.entries.map Entry.id).Perm (s.rows.map ProjectChunk.id) := by
  have hperm := h.entries.map Entry.id
  rwa [ids_written] at hperm

/-- A new name for a file that no row has changes no entry. -/
theorem map_written_update {rows : List ProjectChunk} {name : Option Str}
    (h : ∀ r ∈ rows, r.fileId ≠ f) :
    rows.map (written sp (Function.update files f name)) = rows.map (written sp files) := by
  apply List.map_congr_left
  intro r hr
  simp [written, Function.update_of_ne (h r hr)]

theorem Project.entries_ensureCollection : (s.ensureCollection sp).entries = s.entries := by
  rw [ensureCollection, entries]
  cases s.live with
  | none => rfl
  | some c => rfl

theorem Project.inv_upload (h : s.Inv sp) (hn : s.upload f filename = some s') : s'.Inv sp := by
  rw [upload] at hn
  split at hn
  · rename_i hfree
    obtain rfl := Option.some.inj hn
    have hne : ∀ r ∈ s.rows, r.fileId ≠ f := by
      rintro r hr rfl
      exact h.files r hr hfree
    refine ⟨h.ids, ?_, ?_⟩
    · intro r hr
      simpa [Function.update_of_ne (hne r hr)] using h.files r hr
    · rw [map_written_update hne]
      exact h.entries
  · cases hn

/-- What the collection holds after `index_chunks`. -/
theorem entries_indexChunks {live : Option Coll} :
    ((indexChunks sp f chunks live).map Coll.entries).getD [] =
      (((live.map Coll.entries).getD []).filter
        fun e ↦ e.id ∉ (indexEntries sp f chunks).map Entry.id) ++ indexEntries sp f chunks := by
  rw [indexChunks]
  split
  · rename_i hnil
    simp [hnil, indexEntries]
  · cases live with
    | none => rfl
    | some c => rfl

/-- Chunks under new ids are added on both sides. -/
theorem Project.inv_index (h : s.Inv sp) (hf : s.files f = some filename)
    (hsource : ∀ c ∈ chunks, c.source = filename) (hn : s.index sp f chunks = some s') :
    s'.Inv sp := by
  rw [index] at hn
  split at hn
  · rename_i hids
    obtain rfl := Option.some.inj hn
    have hnodup : ((s.rows ++ buildChunkRows f chunks).map ProjectChunk.id).Nodup := by
      simpa [insertable] using hids
    have hsame : ((s.ensureCollection sp).entries.filter
        fun e ↦ e.id ∉ (indexEntries sp f chunks).map Entry.id) = s.entries := by
      rw [entries_ensureCollection, List.filter_eq_self]
      intro e he
      rw [decide_eq_true_iff]
      intro hmem
      rw [← buildChunkRows_ids sp] at hmem
      rw [List.map_append, List.nodup_append] at hnodup
      exact hnodup.2.2 e.id (h.entry_ids.subset (List.mem_map_of_mem he)) _ hmem rfl
    have hfiles : ∀ r ∈ s.rows ++ buildChunkRows f chunks, s.files r.fileId ≠ none := by
      intro r hr
      rcases List.mem_append.mp hr with hr | hr
      · exact h.files r hr
      · obtain ⟨c, -, rfl⟩ := List.mem_map.mp hr
        simp [hf]
    refine ⟨hnodup, hfiles, ?_⟩
    rw [List.map_append, map_written_buildChunkRows hf hsource, entries, entries_indexChunks,
      Option.map_some, Option.getD_some, hsame]
    exact h.entries.append_right _
  · cases hn

/-- What the collection holds after `delete`. -/
theorem entries_delete {live : Option Coll} {ids : List ChunkId} :
    ((live.map fun c ↦ c.delete ids).map Coll.entries).getD [] =
      ((live.map Coll.entries).getD []).filter fun e ↦ e.id ∉ ids := by
  cases live with
  | none => rfl
  | some c => rfl

/-- The rows that stay are those whose entries stay, if the new rows have ids of their own or
of the rows that go. -/
theorem Project.inv_replace {old : List ProjectChunk} (h : s.Inv sp)
    (hf : s.files f = some filename) (hsource : ∀ c ∈ chunks, c.source = filename)
    (hn : s.replace sp f old chunks = some s') : s'.Inv sp := by
  simp only [replace] at hn
  split at hn
  · rename_i hids
    obtain rfl := Option.some.inj hn
    have hnodup : ((s.rows.filter (fun r ↦ r.id ∉ old.map ProjectChunk.id) ++
        buildChunkRows f chunks).map ProjectChunk.id).Nodup := by
      simpa [insertable] using hids
    refine ⟨hnodup, ?_, ?_⟩
    · intro r hr
      rcases List.mem_append.mp hr with hr | hr
      · exact h.files r (List.mem_of_mem_filter hr)
      · obtain ⟨c, -, rfl⟩ := List.mem_map.mp hr
        simp [hf]
    · rw [List.map_append, map_written_buildChunkRows hf hsource]
      rw [entries, entries_delete, entries_indexChunks, List.filter_append, List.filter_filter]
      -- The new entries are not among the surplus, and an old entry stays if its row does.
      refine List.Perm.append ?_ (List.Perm.of_eq (List.filter_eq_self.mpr ?_))
      · refine (h.entries.filter _).trans (List.Perm.of_eq ?_)
        rw [List.filter_map]
        congr 1
        apply List.filter_congr
        intro r hr
        rw [List.map_append, List.nodup_append] at hnodup
        have hnew : r.id ∉ old.map ProjectChunk.id →
            r.id ∉ (buildChunkRows f chunks).map ProjectChunk.id := by
          intro hold hmem
          exact hnodup.2.2 r.id (List.mem_map_of_mem (by simpa [hr] using hold)) _ hmem rfl
        rw [← buildChunkRows_ids sp]
        simp only [Function.comp_apply, written, List.mem_filter]
        grind
      · intro e he
        have hmem : e.id ∈ (buildChunkRows f chunks).map ProjectChunk.id := by
          rw [buildChunkRows_ids sp]
          exact List.mem_map_of_mem he
        simp only [List.mem_filter, decide_eq_true_eq]
        grind
  · cases hn

theorem Project.entries_delete_file : (s.delete f).entries =
    s.entries.filter fun e ↦ e.id ∉ (s.entries.filter fun e ↦ e.fileId = f).map Entry.id := by
  rw [delete, entries, entries]
  cases s.live with
  | none => rfl
  | some c => rfl

/-- An entry goes if its row is of the file: two rows never share an id. -/
theorem Project.inv_delete (h : s.Inv sp) : (s.delete f).Inv sp := by
  have hids : ((s.rows.filter fun r ↦ r.fileId ≠ f).map ProjectChunk.id).Nodup :=
    (List.filter_sublist.map ProjectChunk.id).nodup h.ids
  have hne : ∀ r ∈ s.rows.filter (fun r ↦ r.fileId ≠ f), r.fileId ≠ f := by
    intro r hr
    simpa using (List.mem_filter.mp hr).2
  refine ⟨hids, ?_, ?_⟩
  · intro r hr
    have hfile := h.files r (List.mem_of_mem_filter hr)
    simpa [delete, Function.update_of_ne (hne r hr)] using hfile
  · have hmem : ∀ r ∈ s.rows, (r.id ∈ (s.entries.filter fun e ↦ e.fileId = f).map Entry.id ↔
        r.fileId = f) := by
      intro r hr
      constructor
      · intro hid
        obtain ⟨e, he, hid⟩ := List.mem_map.mp hid
        obtain ⟨he, hf⟩ := List.mem_filter.mp he
        obtain ⟨r', hr', rfl⟩ := List.mem_map.mp (h.entries.subset he)
        obtain rfl := List.inj_on_of_nodup_map h.ids hr' hr hid
        exact of_decide_eq_true hf
      · intro hf
        refine List.mem_map.mpr ⟨written sp s.files r, List.mem_filter.mpr ⟨?_, ?_⟩, rfl⟩
        · exact h.entries.symm.subset (List.mem_map_of_mem hr)
        · exact decide_eq_true hf
    rw [entries_delete_file, delete, map_written_update hne]
    refine (h.entries.filter _).trans (List.Perm.of_eq ?_)
    rw [List.filter_map]
    congr 1
    apply List.filter_congr
    intro r hr
    simp only [Function.comp_apply, written, hmem r hr]

theorem Project.inv_run {job : Job} (h : s.Inv sp) (hn : s.run sp job = some s') : s'.Inv sp := by
  cases job with
  | upload f filename => exact inv_upload h hn
  | index f pieces contexts =>
      obtain ⟨filename, hf, hn⟩ := Option.bind_eq_some_iff.mp hn
      exact inv_index h hf (source_contextualizeChunks source_parsed) hn
  | extract f page pieces =>
      obtain ⟨filename, hf, hn⟩ := Option.bind_eq_some_iff.mp hn
      simp only at hn
      split at hn
      · cases hn
      · exact inv_replace h hf source_newChunks hn
  | delete f =>
      rw [run] at hn
      split at hn
      · cases hn
      · obtain rfl := Option.some.inj hn
        exact inv_delete h

/-- After any jobs the collection holds what was written for the rows. -/
theorem inv_of_reachable (h : (jobs sp).Reachable s) : s.Inv sp :=
  h.invariant (P := Project.Inv sp) ⟨by simp [jobs], by simp [jobs], List.Perm.refl _⟩
    fun _ _ _ hs _ hn ↦ Project.inv_run hs hn

end Jobs

/-! ## What the script writes -/

section Script

variable {sp : Space} {s : Project} {p : ProjectId} {batchSize : Int} {client : Client}
  {collate : FileId → FileId → Bool} {files : FileId → Option Str} {rows : List ProjectChunk}

/-- What `_rebuild` writes for a chunk: the text alone is embedded. -/
def rewritten (sp : Space) (files : FileId → Option Str) (r : ProjectChunk) : Entry :=
  { written sp files r with input := r.text }

theorem map_rowEntry_projectRows (h : ∀ r ∈ rows, files r.fileId ≠ none) :
    ((projectRows collate files rows).map (rowEntry sp)).Perm
      (rows.map (rewritten sp files)) := by
  refine ((List.perm_insertionSort _ _).map _).trans (List.Perm.of_eq ?_)
  rw [List.map_filterMap, ← List.filterMap_eq_map]
  apply List.filterMap_congr
  intro r hr
  obtain ⟨filename, hf⟩ := Option.ne_none_iff_exists'.mp (h r hr)
  simp [hf, rowEntry, rewritten, written]

theorem nodup_projectRows (hfiles : ∀ r ∈ rows, files r.fileId ≠ none)
    (hids : (rows.map ProjectChunk.id).Nodup) :
    ((projectRows collate files rows).map Row.id).Nodup := by
  have hperm : (((projectRows collate files rows).map (rowEntry ⟨[], 0⟩)).map Entry.id).Perm
      ((rows.map (rewritten ⟨[], 0⟩ files)).map Entry.id) :=
    (map_rowEntry_projectRows hfiles).map Entry.id
  simp only [List.map_map] at hperm
  exact hperm.symm.nodup hids

/-- The text that is embedded tells whether there is a situating sentence. -/
theorem withContext_eq_iff {context : Option Str} {text : Str} :
    withContext context text = text ↔ context = none ∨ context = some [] := by
  cases context with
  | none => simp [withContext]
  | some cs =>
      cases cs with
      | nil => simp [withContext]
      | cons c cs =>
          simp only [withContext, reduceCtorEq, Option.some.injEq, or_self, iff_false]
          intro htext
          have hlen := congrArg List.length htext
          simp only [List.length_append, List.length_cons] at hlen
          omega

theorem written_eq_rewritten_iff {r : ProjectChunk} :
    written sp files r = rewritten sp files r ↔ r.context = none ∨ r.context = some [] := by
  have htext : withContext r.context r.text = r.text ↔ r.context = none ∨ r.context = some [] :=
    withContext_eq_iff
  rw [← htext]
  simp [written, rewritten]

/-- A rebuild returns, and the collection it leaves has the model in its metadata and the
entries that the jobs wrote under this model. -/
def Reproduces (sp : Space) (s : Project) (p : ProjectId) (batchSize : Int)
    (collate : FileId → FileId → Bool) (client : Client) : Prop :=
  ∃ client' c, rebuild sp p batchSize (projectRows collate s.files s.rows) client = some client' ∧
    client' (.live p) = some c ∧ c.embeddingModel = some sp.model ∧ c.entries.Perm s.entries

/-- After any jobs, and in batches of any size, a rebuild reproduces what they wrote exactly if
no chunk has a situating sentence. -/
theorem reproduces_iff (h : (jobs sp).Reachable s) (hb : 1 ≤ batchSize) :
    Reproduces sp s p batchSize collate client ↔
      ∀ r ∈ s.rows, r.context = none ∨ r.context = some [] := by
  have hs := inv_of_reachable h
  have hperm : ((projectRows collate s.files s.rows).map (rowEntry sp)).Perm
      (s.rows.map (rewritten sp s.files)) := map_rowEntry_projectRows hs.files
  obtain ⟨client', hrebuild, hlive⟩ : ∃ client',
      rebuild sp p batchSize (projectRows collate s.files s.rows) client = some client' ∧
        client' (.live p) =
          some ⟨some sp.model, (projectRows collate s.files s.rows).map (rowEntry sp)⟩ :=
    rebuild_rows hb (nodup_projectRows hs.files hs.ids)
  constructor
  · rintro ⟨client'', c, hrebuild', hc, -, hentries⟩ r hr
    obtain rfl := Option.some.inj (hrebuild.symm.trans hrebuild')
    obtain rfl := Option.some.inj (hlive.symm.trans hc)
    have hsame := (hperm.symm.trans hentries).trans hs.entries
    obtain ⟨r', hr', heq⟩ := List.mem_map.mp (hsame.symm.subset (List.mem_map_of_mem hr))
    obtain rfl : r' = r := List.inj_on_of_nodup_map hs.ids hr' hr (congrArg Entry.id heq)
    exact written_eq_rewritten_iff.mp heq.symm
  · intro hnone
    refine ⟨client', _, hrebuild, hlive, rfl, hperm.trans ?_⟩
    have hsame : s.rows.map (rewritten sp s.files) = s.rows.map (written sp s.files) :=
      List.map_congr_left fun r hr ↦ (written_eq_rewritten_iff.mpr (hnone r hr)).symm
    rw [hsame]
    exact hs.entries.symm

/-- A file of one chunk, with its situating sentence. -/
def oneChunk (context : Option Str) : List Job :=
  [.upload (str "f") (str "a.txt"),
    .index (str "f") [(str "Price: 120", none)] (some fun _ ↦ context)]

/-- `reproduces_iff` where the model gave no situating sentence. -/
theorem reproduces_plain : ∃ s, (jobs ⟨str "mini", 384⟩).Reachable s ∧ s.rows.length = 1 ∧
    Reproduces ⟨str "mini", 384⟩ s (str "p") 64 (fun _ _ ↦ true) fun _ ↦ none := by
  obtain ⟨s, hs, hrows⟩ := Lib.System.Reach.of_exec (S := jobs ⟨str "mini", 384⟩)
    (g := fun _ _ ↦ True) (l := oneChunk none)
    (f := fun s ↦ s.rows.map ProjectChunk.context) (b := [none]) (by decide)
  have hlen := congrArg List.length hrows
  simp only [List.length_map, List.length_cons, List.length_nil] at hlen
  refine ⟨s, hs, hlen, (reproduces_iff hs (by decide)).mpr ?_⟩
  intro r hr
  have hmem := List.mem_map_of_mem (f := ProjectChunk.context) hr
  rw [hrows] at hmem
  exact Or.inl (List.mem_singleton.mp hmem)

/-- With a situating sentence the text alone is embedded, and not what was indexed. -/
theorem context_not_reproduced : ∃ s, (jobs ⟨str "mini", 384⟩).Reachable s ∧
    s.entries.map Entry.input = [str "From a price list.\n\nPrice: 120"] ∧
    (∃ client' c, rebuild ⟨str "mini", 384⟩ (str "p") 64
        (projectRows (fun _ _ ↦ true) s.files s.rows) (fun _ ↦ none) = some client' ∧
      client' (.live (str "p")) = some c ∧ c.entries.map Entry.input = [str "Price: 120"]) ∧
    ¬Reproduces ⟨str "mini", 384⟩ s (str "p") 64 (fun _ _ ↦ true) fun _ ↦ none := by
  obtain ⟨s, hs, hrun⟩ := Lib.System.Reach.of_exec (S := jobs ⟨str "mini", 384⟩)
    (g := fun _ _ ↦ True) (l := oneChunk (some (str "From a price list.")))
    (f := fun s ↦ (s.entries.map Entry.input, projectRows (fun _ _ ↦ true) s.files s.rows))
    (b := ([str "From a price list.\n\nPrice: 120"],
      [⟨str "f_0", str "Price: 120", 0, str "f", str "a.txt"⟩])) (by decide)
  obtain ⟨hinput, hrows⟩ := Prod.mk.inj hrun
  obtain ⟨client', hrebuild, hlive⟩ : ∃ client',
      rebuild ⟨str "mini", 384⟩ (str "p") 64
        [⟨str "f_0", str "Price: 120", 0, str "f", str "a.txt"⟩] (fun _ ↦ none) = some client' ∧
      client' (.live (str "p")) = some ⟨some (str "mini"),
        [⟨str "f_0", str "Price: 120", 0, str "f", str "a.txt"⟩].map
          (rowEntry ⟨str "mini", 384⟩)⟩ := rebuild_rows (by decide) (by decide)
  rw [← hrows] at hrebuild
  refine ⟨s, hs, hinput, ⟨client', _, hrebuild, hlive, rfl⟩, ?_⟩
  rintro ⟨client'', c, hrebuild', hc, -, hperm⟩
  obtain rfl := Option.some.inj (hrebuild.symm.trans hrebuild')
  obtain rfl := Option.some.inj (hlive.symm.trans hc)
  have hinputs := hperm.map Entry.input
  rw [hinput] at hinputs
  revert hinputs
  decide

end Script

end Adapta.Reembed
