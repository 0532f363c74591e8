import Adapta.Documents.Chunking
import Adapta.Lib.Window

/-!
# Where the chunks of a text stand

Each chunk that `chunk_text` makes is a window of the list of sentences.  The loop is followed
with the number of sentences it has seen and the windows of the chunks made so far (`Trace`);
the current sentences are always a window that ends at the next sentence.
-/

namespace Adapta.Documents

open Lib

/-! ## Sentences -/

/-- The text has a character that is not white space. -/
def Inked (s : Str) : Prop := ∃ c ∈ s, isSpace c = false

theorem inked_unwrap {text : Str} (h : Inked text) : Inked (unwrap text) := by
  obtain ⟨c, hc, hs⟩ := h
  refine ⟨c, List.mem_map.mpr ⟨c, hc, if_neg ?_⟩, hs⟩
  rintro rfl
  revert hs
  decide

theorem inked_consHead {c : Code} {l : List Str} (h : isSpace c = false ∨ ∃ t ∈ l, Inked t) :
    ∃ t ∈ consHead c l, Inked t := by
  cases l with
  | nil =>
      rcases h with hc | ⟨t, ht, -⟩
      · exact ⟨[c], List.mem_singleton_self _, c, List.mem_singleton_self _, hc⟩
      · cases ht
  | cons s rest =>
      rw [consHead]
      rcases h with hc | ⟨t, ht, d, hd, hs⟩
      · exact ⟨c :: s, List.mem_cons_self, c, List.mem_cons_self, hc⟩
      · rcases List.mem_cons.mp ht with rfl | ht
        · exact ⟨c :: t, List.mem_cons_self, d, List.mem_cons_of_mem _ hd, hs⟩
        · exact ⟨t, List.mem_cons_of_mem _ ht, d, hd, hs⟩

/-- Only white space is lost between the sentences. -/
theorem inked_split {m : Mark} {s : Str} (h : Inked s) : ∃ t ∈ split m s, Inked t := by
  induction s generalizing m with
  | nil =>
      obtain ⟨c, hc, -⟩ := h
      cases hc
  | cons c s ih =>
      have hhead : ∀ m', ∃ t ∈ consHead c (split m' s), Inked t := by
        intro m'
        apply inked_consHead
        obtain ⟨d, hd, hs⟩ := h
        rcases List.mem_cons.mp hd with rfl | hd
        · exact .inl hs
        · exact .inr (ih ⟨d, hd, hs⟩)
      have hrest : isSpace c = true → Inked s := by
        intro hc
        obtain ⟨d, hd, hs⟩ := h
        rcases List.mem_cons.mp hd with rfl | hd
        · rw [hc] at hs
          cases hs
        · exact ⟨d, hd, hs⟩
      cases m with
      | inside => exact hhead _
      | stop =>
          rw [split]
          by_cases hc : isSpace c = true
          · obtain ⟨t, ht, hinked⟩ := ih (m := .gap) (hrest hc)
            rw [if_pos hc]
            exact ⟨t, List.mem_cons_of_mem _ ht, hinked⟩
          · rw [if_neg hc]
            exact hhead _
      | gap =>
          rw [split]
          by_cases hc : isSpace c = true
          · rw [if_pos hc]
            exact ih (hrest hc)
          · rw [if_neg hc]
            exact hhead _

theorem inked_sentences {text : Str} (h : Inked text) : ∃ t ∈ sentences text, Inked t :=
  inked_split (inked_unwrap h)

/-- The sentences of a chunk with a letter do not strip to nothing. -/
theorem chunkStr_ne_nil {l : List Str} (h : ∃ t ∈ l, Inked t) : chunkStr l ≠ [] := by
  obtain ⟨t, ht, c, hc, hs⟩ := h
  rw [chunkStr, strip_ne_nil_iff]
  obtain ⟨i, hi, rfl⟩ := List.getElem_of_mem ht
  have hget : (l.intersperse (str " "))[2 * i]? = some l[i] := by
    rw [List.getElem?_intersperse_two_mul, List.getElem?_eq_getElem hi]
  exact ⟨c, List.mem_flatten.mpr ⟨l[i], List.mem_of_getElem? hget, hc⟩, hs⟩

/-! ## The loop -/

/-- The loop's variables, the number of the next sentence, and the windows of the chunks. -/
structure Trace where
  acc : Acc
  next : Nat
  windows : List (Nat × Nat)

section

variable (source : Str) (size overlap : Int)

/-- The window of a chunk of the current sentences, unless it is blank. -/
def Trace.emit (t : Trace) : List (Nat × Nat) :=
  if chunkStr t.acc.current = [] then t.windows
  else t.windows ++ [(t.next - t.acc.current.length, t.next)]

/-- The loop's body. -/
def Trace.add (t : Trace) (sentence : Str) : Trace where
  acc := t.acc.add source size overlap sentence
  next := t.next + 1
  windows :=
    if size < t.acc.currentLen + sentence.length ∧ t.acc.current ≠ [] then t.emit else t.windows

def traceOf (l : List Str) : Trace := l.foldl (Trace.add source size overlap) ⟨⟨[], [], 0⟩, 0, []⟩

/-- The windows of the chunks of the sentences. -/
def windowsOf (l : List Str) : List (Nat × Nat) :=
  let t := traceOf source size overlap l
  if t.acc.current = [] then t.windows else t.emit

end

variable {source : Str} {size overlap : Int} {l : List Str} {t : Trace}

theorem foldl_add_acc (l : List Str) (t : Trace) :
    (l.foldl (Trace.add source size overlap) t).acc =
      l.foldl (Acc.add source size overlap) t.acc := by
  induction l generalizing t with
  | nil => rfl
  | cons s l ih => exact ih (t.add source size overlap s)

theorem acc_traceOf (l : List Str) : (traceOf source size overlap l).acc =
    l.foldl (Acc.add source size overlap) ⟨[], [], 0⟩ :=
  foldl_add_acc l _

/-- What is carried over ends the chunk. -/
theorem keepOverlap_suffix (l words : List Str) (len : Nat) :
    (keepOverlap overlap l words len).1 <:+ l.reverse ++ words := by
  induction l generalizing words len with
  | nil => exact List.suffix_refl _
  | cons s l ih =>
      rw [keepOverlap]
      split
      · exact List.suffix_append _ _
      · rw [List.reverse_cons, List.append_assoc]
        exact ih _ _

/-- The sentence joins the current ones. -/
theorem Trace.add_of_fits {t : Trace} {s : Str}
    (h : ¬(size < t.acc.currentLen + s.length ∧ t.acc.current ≠ [])) :
    t.add source size overlap s = ⟨⟨t.acc.chunks, t.acc.current ++ [s],
      t.acc.currentLen + s.length⟩, t.next + 1, t.windows⟩ := by
  rw [Trace.add, Acc.add, if_neg h, if_neg h]

/-- The current sentences make a chunk, and a suffix of them within the overlap is carried
over. -/
theorem Trace.add_of_full (source : Str) (overlap : Int) {t : Trace} {s : Str}
    (h : size < t.acc.currentLen + s.length ∧ t.acc.current ≠ []) :
    ∃ kept, kept = (keepOverlap overlap t.acc.current.reverse [] 0).1 ∧
      kept <:+ t.acc.current ∧ (totalLen kept : Int) ≤ max overlap 0 ∧
      t.add source size overlap s = ⟨⟨t.acc.emit source, kept ++ [s], totalLen kept + s.length⟩,
        t.next + 1, t.emit⟩ := by
  obtain ⟨hlen, hle⟩ : (keepOverlap overlap t.acc.current.reverse [] 0).2 =
        totalLen (keepOverlap overlap t.acc.current.reverse [] 0).1 ∧
      ((keepOverlap overlap t.acc.current.reverse [] 0).2 : Int) ≤ max overlap 0 :=
    keepOverlap_spec rfl (by omega)
  refine ⟨_, rfl, ?_, ?_, ?_⟩
  · simpa using keepOverlap_suffix t.acc.current.reverse [] 0
  · omega
  · rw [Trace.add, Acc.add, if_pos h, if_pos h, ← hlen]

/-- What a round does. -/
theorem Trace.add_cases (t : Trace) (s : Str) :
    (t.add source size overlap s = ⟨⟨t.acc.chunks, t.acc.current ++ [s],
        t.acc.currentLen + s.length⟩, t.next + 1, t.windows⟩ ∧
      (t.acc.current = [] ∨ (t.acc.currentLen + s.length : Int) ≤ size)) ∨
    ∃ kept, kept <:+ t.acc.current ∧ (totalLen kept : Int) ≤ max overlap 0 ∧
      t.acc.current ≠ [] ∧
      t.add source size overlap s = ⟨⟨t.acc.emit source, kept ++ [s], totalLen kept + s.length⟩,
        t.next + 1, t.emit⟩ := by
  by_cases hfull : size < t.acc.currentLen + s.length ∧ t.acc.current ≠ []
  · obtain ⟨kept, -, hkept, hle, hadd⟩ := Trace.add_of_full source overlap hfull
    exact .inr ⟨kept, hkept, hle, hfull.2, hadd⟩
  · refine .inl ⟨Trace.add_of_fits hfull, ?_⟩
    by_cases hnil : t.acc.current = []
    · exact .inl hnil
    · exact .inr (not_lt.mp fun hlt ↦ hfull ⟨hlt, hnil⟩)

/-- What every round keeps, the loop over the sentences keeps. -/
theorem traceOf_keeps (P : Trace → Prop) (hinit : P ⟨⟨[], [], 0⟩, 0, []⟩)
    (hstep : ∀ t s, P t → l[t.next]? = some s → P (t.add source size overlap s)) :
    P (traceOf source size overlap l) ∧ (traceOf source size overlap l).next = l.length := by
  have hrun : ∀ (rest : List Str) (t : Trace), t.next + rest.length = l.length →
      l.drop t.next = rest → P t →
      P (rest.foldl (Trace.add source size overlap) t) ∧
        (rest.foldl (Trace.add source size overlap) t).next = l.length := by
    intro rest
    induction rest with
    | nil => exact fun t hlen _ hP ↦ ⟨hP, hlen⟩
    | cons s rest ih =>
        intro t hlen hdrop hP
        have hget : l[t.next]? = some s := by
          rw [← List.head?_drop, hdrop, List.head?_cons]
        apply ih
        · rw [Trace.add, ← hlen, List.length_cons, Nat.add_right_comm, Nat.add_assoc]
        · rw [Trace.add, ← List.drop_drop, hdrop, List.drop_one, List.tail_cons]
        · exact hstep t s hP hget
  exact hrun l _ (by simp) (by simp) hinit

/-! ## The windows -/

/-- The chunk is the window of the sentences. -/
structure IsWindow (l : List Str) (source : Str) (w : Nat × Nat) (x : List Str × Chunk) : Prop where
  proper : w.1 < w.2 ∧ w.2 ≤ l.length
  sentences : x.1 = window l w
  text : x.2.text = chunkStr (window l w)
  source : x.2.source = source

/-- The first `k` sentences are cut into chunks. -/
structure Cut (l : List Str) (source : Str) (k : Nat) (ws : List (Nat × Nat))
    (chunks : List (List Str × Chunk)) : Prop where
  windows : List.Forall₂ (IsWindow l source) ws chunks
  indexes : chunks.map (fun x ↦ x.2.index) = List.range chunks.length
  sorted : ws.Pairwise fun v w ↦ v.1 ≤ w.1 ∧ v.2 < w.2
  covered : ∀ i s, i < k → l[i]? = some s → Inked s → ∃ w ∈ ws, w.1 ≤ i ∧ i < w.2

theorem Cut.mono {ws : List (Nat × Nat)} {chunks : List (List Str × Chunk)} {k k' : Nat}
    (h : Cut l source k ws chunks) (hle : k' ≤ k) : Cut l source k' ws chunks :=
  { h with covered := fun i s hi ↦ h.covered i s (lt_of_lt_of_le hi hle) }

/-- The number of the first of the current sentences. -/
def Trace.start (t : Trace) : Nat := t.next - t.acc.current.length

/-- What holds between two sentences. -/
structure Trace.Placed (l : List Str) (source : Str) (t : Trace) : Prop where
  next_le : t.next ≤ l.length
  length_le : t.acc.current.length ≤ t.next
  current : t.acc.current = window l (t.start, t.next)
  ends : ∀ w ∈ t.windows, w.1 ≤ t.start ∧ w.2 < t.next
  cut : Cut l source t.start t.windows t.acc.chunks

/-- A chunk of the current sentences. -/
theorem Trace.Placed.emit (h : t.Placed l source) (hne : t.acc.current ≠ []) :
    Cut l source t.next t.emit (t.acc.emit source) := by
  have hpos : 0 < t.acc.current.length := List.length_pos_iff.mpr hne
  have hlt : t.start < t.next := Nat.sub_lt (lt_of_lt_of_le hpos h.length_le) hpos
  rw [Trace.emit, Acc.emit]
  by_cases hblank : chunkStr t.acc.current = []
  · rw [if_pos hblank, if_pos hblank]
    refine { h.cut with covered := fun i s hi hs hinked ↦ ?_ }
    by_cases hstart : i < t.start
    · exact h.cut.covered i s hstart hs hinked
    · refine absurd hblank (chunkStr_ne_nil ⟨s, ?_, hinked⟩)
      rw [h.current]
      exact mem_window (not_lt.mp hstart) hi hs
  · rw [if_neg hblank, if_neg hblank]
    constructor
    · have hnew : IsWindow l source (t.start, t.next)
          (t.acc.current, ⟨chunkStr t.acc.current, source, t.acc.chunks.length⟩) :=
        ⟨⟨hlt, h.next_le⟩, h.current, congrArg chunkStr h.current, rfl⟩
      exact List.rel_append h.cut.windows (.cons hnew .nil)
    · rw [List.map_append, h.cut.indexes, List.length_append, List.length_singleton,
        List.range_succ]
      rfl
    · rw [List.pairwise_append]
      refine ⟨h.cut.sorted, List.pairwise_singleton _ _, fun v hv w hw ↦ ?_⟩
      obtain rfl := List.mem_singleton.mp hw
      exact h.ends v hv
    · intro i s hi hs hinked
      by_cases hstart : i < t.start
      · obtain ⟨w, hw, hin⟩ := h.cut.covered i s hstart hs hinked
        exact ⟨w, List.mem_append_left _ hw, hin⟩
      · exact ⟨(t.start, t.next), List.mem_append_right _ (List.mem_singleton_self _),
          not_lt.mp hstart, hi⟩

/-- The windows end before or at the next sentence. -/
theorem Trace.Placed.emit_ends (h : t.Placed l source) :
    ∀ w ∈ t.emit, w.1 ≤ t.start ∧ w.2 ≤ t.next := by
  rw [Trace.emit]
  intro w hw
  split at hw
  · exact ⟨(h.ends w hw).1, le_of_lt (h.ends w hw).2⟩
  · rcases List.mem_append.mp hw with hw | hw
    · exact ⟨(h.ends w hw).1, le_of_lt (h.ends w hw).2⟩
    · obtain rfl := List.mem_singleton.mp hw
      exact ⟨le_rfl, le_rfl⟩

/-- The sentences that are carried over are a window. -/
theorem Trace.Placed.kept (h : t.Placed l source) {kept : List Str}
    (hkept : kept <:+ t.acc.current) :
    kept = window l (t.next - kept.length, t.next) ∧ t.start ≤ t.next - kept.length := by
  have hlen := hkept.length_le
  refine ⟨?_, by rw [Trace.start]; omega⟩
  rw [h.current] at hkept
  exact eq_window_of_suffix (Nat.sub_le _ _) h.next_le hkept

theorem Trace.Placed.add (h : t.Placed l source) {s : Str} (hs : l[t.next]? = some s) :
    (t.add source size overlap s).Placed l source := by
  have hnext : t.next + 1 ≤ l.length := (List.getElem?_eq_some_iff.mp hs).1
  rcases t.add_cases s with ⟨hadd, -⟩ | ⟨kept, hkept, -, hne, hadd⟩
  · have hstart : (t.add source size overlap s).start = t.start := by
      rw [hadd, Trace.start, Trace.start]
      simp
    refine ⟨?_, ?_, ?_, ?_, ?_⟩
    · rwa [hadd]
    · simpa [hadd] using h.length_le
    · rw [hstart, hadd]
      show t.acc.current ++ [s] = window l (t.start, t.next + 1)
      have hle : t.start ≤ t.next := Nat.sub_le _ _
      rw [window_succ hle hs, ← h.current]
    · rw [hstart, hadd]
      exact fun w hw ↦ ⟨(h.ends w hw).1, Nat.lt_succ_of_lt (h.ends w hw).2⟩
    · rw [hstart, hadd]
      exact h.cut
  · obtain ⟨hwin, hle⟩ := h.kept hkept
    have hlen := hkept.length_le.trans h.length_le
    have hstart : (t.add source size overlap s).start = t.next - kept.length := by
      rw [hadd, Trace.start]
      simp
    refine ⟨?_, ?_, ?_, ?_, ?_⟩
    · rwa [hadd]
    · simpa [hadd] using hlen
    · rw [hstart, hadd]
      show kept ++ [s] = window l (t.next - kept.length, t.next + 1)
      rw [window_succ (Nat.sub_le _ _) hs, ← hwin]
    · rw [hstart, hadd]
      intro w hw
      obtain ⟨hw1, hw2⟩ := h.emit_ends w hw
      exact ⟨hw1.trans hle, Nat.lt_succ_of_le hw2⟩
    · rw [hstart, hadd]
      exact (h.emit hne).mono (Nat.sub_le _ _)

theorem placed_init : Trace.Placed l source ⟨⟨[], [], 0⟩, 0, []⟩ :=
  ⟨Nat.zero_le _, le_rfl, (window_self l 0).symm, nofun,
    ⟨.nil, rfl, .nil, fun _ _ hi ↦ absurd hi (Nat.not_lt_zero _)⟩⟩

/-- The chunks of the sentences, with their windows. -/
theorem cut_chunksOf (source : Str) (size overlap : Int) (l : List Str) :
    Cut l source l.length (windowsOf source size overlap l) (chunksOf source size overlap l) := by
  obtain ⟨hplaced, hnext⟩ : (traceOf source size overlap l).Placed l source ∧
      (traceOf source size overlap l).next = l.length :=
    traceOf_keeps (Trace.Placed l source) placed_init fun _ _ h hs ↦ h.add hs
  rw [windowsOf, chunksOf, ← acc_traceOf]
  by_cases hnil : (traceOf source size overlap l).acc.current = []
  · have hstart : (traceOf source size overlap l).start = l.length := by
      rw [Trace.start, hnil, hnext, List.length_nil, Nat.sub_zero]
    rw [if_pos hnil, if_pos hnil, ← hstart]
    exact hplaced.cut
  · rw [if_neg hnil, if_neg hnil, ← hnext]
    exact hplaced.emit hnil

/-! ## Their length -/

/-- The chunk size, or the overlap and a sentence. -/
def lengthBound (size overlap : Int) (l : List Str) : Int := max size (overlap + longest l)

structure Trace.Sized (size overlap : Int) (l : List Str) (t : Trace) : Prop where
  len : t.acc.currentLen = totalLen t.acc.current
  current : t.acc.current ≠ [] → totalLen t.acc.current ≤ lengthBound size overlap l
  windows : ∀ w ∈ t.windows, totalLen (window l w) ≤ lengthBound size overlap l

theorem Trace.Sized.emit (h : t.Sized size overlap l) (hp : t.Placed l source)
    (hne : t.acc.current ≠ []) :
    ∀ w ∈ t.emit, totalLen (window l w) ≤ lengthBound size overlap l := by
  rw [Trace.emit]
  intro w hw
  split at hw
  · exact h.windows w hw
  · rcases List.mem_append.mp hw with hw | hw
    · exact h.windows w hw
    · obtain rfl := List.mem_singleton.mp hw
      have hcur := h.current hne
      rw [hp.current] at hcur
      exact hcur

theorem Trace.Sized.add (h : t.Sized size overlap l) (hp : t.Placed l source) (hover : 0 ≤ overlap)
    {s : Str} (hs : l[t.next]? = some s) : (t.add source size overlap s).Sized size overlap l := by
  have hlong : (s.length : Int) ≤ longest l := by
    exact_mod_cast length_le_longest (List.mem_of_getElem? hs)
  rcases t.add_cases s with ⟨hadd, hfits⟩ | ⟨kept, -, hkept, hne, hadd⟩
  · rw [hadd]
    refine ⟨by simp [h.len], fun _ ↦ ?_, h.windows⟩
    rw [totalLen_append, totalLen_cons, totalLen_nil, ← h.len]
    push_cast
    rcases hfits with hnil | hle
    · have hzero : t.acc.currentLen = 0 := by rw [h.len, hnil, totalLen_nil]
      apply le_max_of_le_right
      omega
    · apply le_max_of_le_left
      omega
  · rw [hadd]
    refine ⟨by simp, fun _ ↦ ?_, h.emit hp hne⟩
    rw [totalLen_append, totalLen_cons, totalLen_nil]
    push_cast
    apply le_max_of_le_right
    omega

theorem sized_windowsOf (source : Str) (hover : 0 ≤ overlap) (l : List Str) :
    ∀ w ∈ windowsOf source size overlap l, totalLen (window l w) ≤ lengthBound size overlap l := by
  obtain ⟨⟨hplaced, hsized⟩, -⟩ : ((traceOf source size overlap l).Placed l source ∧
      (traceOf source size overlap l).Sized size overlap l) ∧
      (traceOf source size overlap l).next = l.length := by
    apply traceOf_keeps fun t ↦ t.Placed l source ∧ t.Sized size overlap l
    · exact ⟨placed_init, rfl, fun h ↦ absurd rfl h, nofun⟩
    · exact fun t s h hs ↦ ⟨h.1.add hs, h.2.add h.1 hover hs⟩
  rw [windowsOf]
  by_cases hnil : (traceOf source size overlap l).acc.current = []
  · rw [if_pos hnil]
    exact hsized.windows
  · rw [if_neg hnil]
    exact hsized.emit hplaced hnil

/-- Nothing is lost in the chunks of a text: they are windows of its sentences that follow one
another and cover every sentence that is not blank. -/
theorem chunkText_covers (d : Defaults) (text source : Str) (size overlap : Option Int)
    (hover : 1 ≤ pyOr overlap d.chunkOverlap) :
    ∃ ws : List (Nat × Nat),
      List.Forall₂ (fun w (c : Chunk) ↦ w.1 < w.2 ∧ w.2 ≤ (sentences text).length ∧
          c.text = chunkStr (window (sentences text) w) ∧ c.source = source) ws
        ((chunkText d text source size overlap).map Prod.snd) ∧
      ws.Pairwise (fun v w ↦ v.1 ≤ w.1 ∧ v.2 < w.2) ∧
      (∀ i s, (sentences text)[i]? = some s → (∃ c ∈ s, isSpace c = false) →
        ∃ w ∈ ws, w.1 ≤ i ∧ i < w.2) ∧
      ((chunkText d text source size overlap).map fun x ↦ x.2.index) =
        List.range (chunkText d text source size overlap).length ∧
      (∀ w ∈ ws, (totalLen (window (sentences text) w) : Int) ≤
        max (pyOr size d.chunkSize) (pyOr overlap d.chunkOverlap + longest (sentences text))) ∧
      ((∃ c ∈ text, isSpace c = false) → chunkText d text source size overlap ≠ []) := by
  have hcut : Cut (sentences text) source (sentences text).length
      (windowsOf source (pyOr size d.chunkSize) (pyOr overlap d.chunkOverlap) (sentences text))
      (chunkText d text source size overlap) :=
    cut_chunksOf source _ _ (sentences text)
  have hcovered : ∀ i s, (sentences text)[i]? = some s → (∃ c ∈ s, isSpace c = false) →
      ∃ w ∈ windowsOf source (pyOr size d.chunkSize) (pyOr overlap d.chunkOverlap)
        (sentences text), w.1 ≤ i ∧ i < w.2 :=
    fun i s hs hinked ↦ hcut.covered i s (List.getElem?_eq_some_iff.mp hs).1 hs hinked
  refine ⟨_, ?_, hcut.sorted, hcovered, hcut.indexes, ?_, ?_⟩
  · rw [List.forall₂_map_right_iff]
    exact hcut.windows.imp fun w x h ↦ ⟨h.proper.1, h.proper.2, h.text, h.source⟩
  · exact sized_windowsOf source (by omega) (sentences text)
  · intro hinked hnil
    obtain ⟨s, hs, hsinked⟩ := inked_sentences hinked
    obtain ⟨i, hi, rfl⟩ := List.getElem_of_mem hs
    obtain ⟨w, hw, -⟩ := hcovered i _ (List.getElem?_eq_getElem hi) hsinked
    have hws := hcut.windows
    rw [hnil, List.forall₂_nil_right_iff] at hws
    rw [hws] at hw
    cases hw

/-- Three sentences in chunks of eight characters. -/
theorem chunkText_covers_three :
    (chunkText ⟨8, 4⟩ (str "One. Two. Three.") (str "a.txt") none none).map
        (fun x ↦ x.2.text) = [str "One. Two.", str "Two. Three."] ∧
      chunkText ⟨8, 4⟩ (str "One. Two. Three.") (str "a.txt") none none ≠ [] := by
  obtain ⟨ws, -, -, -, -, -, hne⟩ := chunkText_covers ⟨8, 4⟩ (str "One. Two. Three.")
    (str "a.txt") none none (by decide)
  exact ⟨by decide, hne (by decide)⟩

/-! ## What they share -/

theorem totalLen_window_anti {a b e : Nat} (hab : a ≤ b) :
    totalLen (window l (b, e)) ≤ totalLen (window l (a, e)) := by
  by_cases hbe : b ≤ e
  · rw [window_append hab hbe, totalLen_append]
    exact Nat.le_add_left ..
  · have hnil : window l (b, e) = [] := by
      rw [window, Nat.sub_eq_zero_of_le (not_le.mp hbe).le, List.take_zero]
    rw [hnil]
    exact Nat.zero_le _

/-- The length of the sentences that two chunks have in common. -/
def shared (l : List Str) (v w : Nat × Nat) : Nat := totalLen (window l (w.1, v.2))

structure Trace.Shares (overlap : Int) (l : List Str) (t : Trace) : Prop where
  windows : t.windows.Pairwise fun v w ↦ (shared l v w : Int) ≤ max overlap 0
  start : ∀ w ∈ t.windows, (totalLen (window l (t.start, w.2)) : Int) ≤ max overlap 0

theorem Trace.Shares.emit (h : t.Shares overlap l) :
    t.emit.Pairwise fun v w ↦ (shared l v w : Int) ≤ max overlap 0 := by
  rw [Trace.emit]
  split
  · exact h.windows
  · rw [List.pairwise_append]
    refine ⟨h.windows, List.pairwise_singleton _ _, fun v hv w hw ↦ ?_⟩
    obtain rfl := List.mem_singleton.mp hw
    exact h.start v hv

theorem Trace.Shares.add (h : t.Shares overlap l) (hp : t.Placed l source) (s : Str) :
    (t.add source size overlap s).Shares overlap l := by
  rcases t.add_cases s with ⟨hadd, -⟩ | ⟨kept, hkept, hle, -, hadd⟩
  · have hstart : (t.add source size overlap s).start = t.start := by
      rw [hadd, Trace.start, Trace.start]
      simp
    refine ⟨?_, ?_⟩
    · rw [hadd]
      exact h.windows
    · rw [hstart, hadd]
      exact h.start
  · obtain ⟨hwin, hstart_le⟩ := hp.kept hkept
    have hstart : (t.add source size overlap s).start = t.next - kept.length := by
      rw [hadd, Trace.start]
      simp
    refine ⟨?_, ?_⟩
    · rw [hadd]
      exact h.emit
    · rw [hstart, hadd]
      intro w hw
      have hcarried : (totalLen (window l (t.next - kept.length, t.next)) : Int) ≤
          max overlap 0 := by rwa [← hwin]
      have hold : ∀ v ∈ t.windows,
          (totalLen (window l (t.next - kept.length, v.2)) : Int) ≤ max overlap 0 := by
        intro v hv
        have hanti : totalLen (window l (t.next - kept.length, v.2)) ≤
          totalLen (window l (t.start, v.2)) := totalLen_window_anti hstart_le
        have := h.start v hv
        omega
      rw [Trace.emit] at hw
      split at hw
      · exact hold w hw
      · rcases List.mem_append.mp hw with hw | hw
        · exact hold w hw
        · obtain rfl := List.mem_singleton.mp hw
          exact hcarried

/-- Two chunks share no more than the overlap. -/
theorem shares_windowsOf (source : Str) (size overlap : Int) (l : List Str) :
    (windowsOf source size overlap l).Pairwise fun v w ↦ (shared l v w : Int) ≤ max overlap 0 := by
  obtain ⟨⟨-, hshares⟩, -⟩ : ((traceOf source size overlap l).Placed l source ∧
      (traceOf source size overlap l).Shares overlap l) ∧
      (traceOf source size overlap l).next = l.length := by
    apply traceOf_keeps fun t ↦ t.Placed l source ∧ t.Shares overlap l
    · exact ⟨placed_init, .nil, nofun⟩
    · exact fun t s h hs ↦ ⟨h.1.add hs, h.2.add h.1 s⟩
  rw [windowsOf]
  by_cases hnil : (traceOf source size overlap l).acc.current = []
  · rw [if_pos hnil]
    exact hshares.windows
  · rw [if_neg hnil]
    exact hshares.emit

end Adapta.Documents
