import Mathlib.Logic.Function.Iterate
import Adapta.Files.Index

/-!
# One attempt to index a file

`_index_file` writes to two stores, and may be left by an exception at any of its awaits.
Here it runs alone, from a row that is waiting to be indexed, with no chunk rows and no
vectors.  `fault` says which awaits of the `try` block raise; a call that raises has had no
effect, and the calls of the `except` branch succeed.

`indexFile_atomic`: it returns, and it has either written both stores or none of them.
-/

namespace Adapta.Files

open Lib

/-- The await is in the `try` block of `_index_file`. -/
def IndexPc.inTry : IndexPc → Bool
  | .find _ | .startCommit _ | .insertCollection | .checkCollection | .ensure | .parse
  | .persist _ | .upsert _ | .endCommit _ => true
  | .lookup | .cleanGet _ | .cleanDelete _ _ | .mark _ _ | .markCommit _ _ _ | .ended _
  | .raised _ => false

/-- An attempt under way, with the exception its `try` block has raised. -/
structure Attempt where
  stores : Stores
  pc : IndexPc
  failure : Option Exc

namespace Attempt

/-- The awaited call raises, without an effect. -/
def fail (x : Attempt) (e : Exc) : Attempt :=
  { x with pc := x.pc.afterRaise e, failure := some e }

section

variable (c : Config) (f : FileId) (final : Bool) (cs : List Chunk) (fault : IndexPc → Option Exc)

/-- The exception of the awaited call, if it is to raise one. -/
def planned (pc : IndexPc) : Option Exc := if pc.inTry then fault pc else none

/-- The awaited call ends; the document's chunks are `cs`. -/
def next (x : Attempt) : Attempt :=
  match planned fault x.pc with
  | some e => x.fail e
  | none =>
      if x.pc = .parse then { x with pc := .persist cs }
      else
        match x.pc.effect c f x.stores with
        | .ok st => { x with stores := st, pc := x.pc.resume f final x.stores }
        | .error e => x.fail e

/-- `_index_file`, which has at most 13 awaits when its row is there. -/
def indexFile (st : Stores) : Attempt :=
  (next c f final cs fault)^[13] ⟨st, .find IndexPc.lookupTries, none⟩

end

variable {c : Config} {f : FileId} {final : Bool} {cs : List Chunk} {fault : IndexPc → Option Exc}
  {x : Attempt}

end Attempt

/-! ## What is stored of a file -/

/-- The file waits to be indexed, or is being indexed, and has no chunk rows. -/
def Stores.Bare (st : Stores) (f : FileId) : Prop :=
  (∃ r, st.files f = some r ∧ r.status.transient) ∧ st.chunks f = []

def Stores.NoVectors (st : Stores) (f : FileId) : Prop := ∀ v ∈ st.vectors, v.file ≠ f

/-- The vectors of the file are those of the chunks: the same ids, with the same texts. -/
def Stores.Mirrors (st : Stores) (f : FileId) (cs : List Chunk) : Prop :=
  (cs.map Chunk.index).Nodup ∧
    ∀ n text, (∃ k ∈ cs, k.index = n ∧ k.text = text) ↔ ⟨f, n, text⟩ ∈ st.vectors

/-- Both stores have been written, or none of them. -/
def Stores.Atomic (st : Stores) (f : FileId) (status : FileStatus) : Prop :=
  (status = .indexed ∧ st.Mirrors f (st.chunks f)) ∨
    ((status = .failed ∨ status = .pending) ∧ st.chunks f = [] ∧ st.NoVectors f)

section

variable {st st' : Stores} {f : FileId} {cs : List Chunk}

theorem Stores.mirrors_indexChunks (hn : (cs.map Chunk.index).Nodup) (h : st.NoVectors f) :
    (st.indexChunks f cs).Mirrors f cs := by
  refine ⟨hn, ?_⟩
  intro n text
  rw [Stores.mem_indexChunks]
  constructor
  · rintro ⟨k, hk, rfl, rfl⟩
    exact .inr ⟨k, hk, rfl⟩
  · rintro (⟨hv, -⟩ | ⟨k, hk, heq⟩)
    · exact absurd rfl (h _ hv)
    · obtain ⟨-, rfl, rfl⟩ := Vector.mk.inj heq
      exact ⟨k, hk, rfl, rfl⟩

theorem Stores.noVectors_of_fileIds (h : st.fileIds f = []) : st.NoVectors f := by
  intro v hv hf
  have hmem : v.index ∈ st.fileIds f := Stores.mem_fileIds.mpr ⟨v, hv, hf, rfl⟩
  rw [h] at hmem
  cases hmem

/-- A flush of the file's row, as the session has read it. -/
theorem Stores.writeFile_saved {o : Tracked FileRow} (h : st.files f = some o.saved) :
    ∃ st', st.writeFile f o = some st' ∧ st'.files f = some o.now := by
  unfold Stores.writeFile
  split
  · next heq => exact ⟨st, rfl, heq ▸ h⟩
  · rw [h]
    refine ⟨_, rfl, ?_⟩
    simp [Stores.setFile, FileRow.flush]

end

namespace Attempt

/-- What holds at each await. -/
def Holds (f : FileId) (final : Bool) (st : Stores) (failure : Option Exc) : IndexPc → Prop
  | .find _ | .insertCollection | .checkCollection | .ensure | .parse | .persist _ =>
      st.Bare f ∧ st.NoVectors f ∧ failure = none
  | .startCommit o => st.Bare f ∧ st.NoVectors f ∧ failure = none ∧
      st.files f = some o.saved ∧ o.now = { o.saved with status := .processing }
  | .upsert cs => st.Bare f ∧ st.NoVectors f ∧ failure = none ∧ (cs.map Chunk.index).Nodup
  | .endCommit cs => st.Bare f ∧ st.Mirrors f cs ∧ failure = none
  | .cleanGet e => st.Bare f ∧ failure = some e
  | .cleanDelete e ids => st.Bare f ∧ failure = some e ∧
      ∀ v ∈ st.vectors, v.file = f → v.index ∈ ids
  | .mark e _ => st.Bare f ∧ st.NoVectors f ∧ failure = some e
  | .markCommit e _ o => st.Bare f ∧ st.NoVectors f ∧ failure = some e ∧
      st.files f = some o.saved ∧ o.now = markRow e (IndexPc.retry final e) o.saved
  | .ended retry => ∃ r, st.files f = some r ∧ st.Atomic f r.status ∧
      (retry ↔ ∃ e, failure = some e ∧ e.transient ∧ final = false ∧ r.status = .pending)
  | .lookup | .raised _ => False

def Inv (f : FileId) (final : Bool) (x : Attempt) : Prop := Holds f final x.stores x.failure x.pc

/-- How many awaits are left at most. -/
def rank : IndexPc → Nat
  | .lookup => 14
  | .find _ => 13
  | .startCommit _ => 12
  | .insertCollection => 11
  | .checkCollection => 10
  | .ensure => 9
  | .parse => 8
  | .persist _ => 7
  | .upsert _ => 6
  | .endCommit _ => 5
  | .cleanGet _ => 4
  | .cleanDelete _ _ => 3
  | .mark _ _ => 2
  | .markCommit _ _ _ => 1
  | .ended _ | .raised _ => 0

section

variable {c : Config} {f : FileId} {final : Bool} {cs : List Chunk} {fault : IndexPc → Option Exc}
  {st st' : Stores} {pc : IndexPc} {failure : Option Exc} {e : Exc}

/-- An exception of the `try` block leads to the `except` branch. -/
theorem Holds.fail (h : Holds f final st failure pc) (ht : pc.inTry) :
    Holds f final st (some e) (pc.afterRaise e) ∧ rank (pc.afterRaise e) < rank pc := by
  cases pc with
  | find | insertCollection | checkCollection | ensure | parse | persist | startCommit
  | upsert =>
      obtain ⟨hb, hv, -⟩ := h
      exact ⟨⟨hb, hv, rfl⟩, by simp [IndexPc.afterRaise, rank]⟩
  | endCommit => exact ⟨⟨h.1, rfl⟩, by simp [IndexPc.afterRaise, rank]⟩
  | lookup | cleanGet | cleanDelete | mark | markCommit | ended | raised => cases ht

/-- The outcome of a row that was marked. -/
theorem holds_markRow {r : FileRow} (hc : st.chunks f = []) (hv : st.NoVectors f)
    (hf : st.files f = some (markRow e (IndexPc.retry final e) r)) :
    Holds f final st (some e) (.ended (IndexPc.retry final e)) := by
  refine ⟨_, hf, .inr ⟨?_, hc, hv⟩, ?_⟩
  · cases IndexPc.retry final e with
    | true => exact .inr rfl
    | false => exact .inl rfl
  · rw [markRow, IndexPc.retry]
    cases ht : e.transient <;> cases final <;> simp [ht]

/-- Only the rows of the file and its vectors matter. -/
theorem bare_of_eq (h : st.Bare f) (hf : st'.files = st.files) (hc : st'.chunks = st.chunks) :
    st'.Bare f := by
  rwa [Stores.Bare, hf, hc]

/-- The awaited call returns. -/
theorem Holds.resume (h : Holds f final st failure pc) (hover : rank pc ≠ 0) (hparse : pc ≠ .parse)
    (he : pc.effect c f st = .ok st') :
    Holds f final st' failure (pc.resume f final st) ∧ rank (pc.resume f final st) < rank pc := by
  cases pc with
  | find tries =>
      cases he
      obtain ⟨⟨⟨r, hr, ht⟩, hc⟩, hv, hf⟩ := h
      simp only [IndexPc.resume, hr]
      exact ⟨⟨⟨⟨r, hr, ht⟩, hc⟩, hv, hf, hr, rfl⟩, by simp [rank]⟩
  | startCommit o =>
      obtain ⟨⟨-, hc⟩, hv, hf, hrow, hnow⟩ := h
      obtain ⟨st₁, hw, hrow'⟩ := Stores.writeFile_saved hrow
      obtain ⟨hch, -, hchroma⟩ := Stores.writeFile_eq hw
      simp only [IndexPc.effect, hw, Except.ok.injEq] at he
      subst he
      refine ⟨⟨⟨⟨_, hrow', by rw [hnow]; rfl⟩, hch ▸ hc⟩, ?_, hf⟩, by simp [IndexPc.resume, rank]⟩
      rwa [Stores.NoVectors, Stores.vectors, hchroma]
  | insertCollection | checkCollection | ensure =>
      cases he
      exact ⟨h, by simp [IndexPc.resume, rank]⟩
  | persist cs' =>
      obtain ⟨hb, hv, hf⟩ := h
      simp only [IndexPc.effect] at he
      split at he
      · next hins =>
          cases he
          refine ⟨⟨hb, hv, hf, ?_⟩, by simp [IndexPc.resume, rank]⟩
          rcases hins with rfl | hins
          · exact List.nodup_nil
          · simp only [insertable, decide_eq_true_eq] at hins
            exact hins.2.1
      · cases he
  | upsert cs' =>
      cases he
      obtain ⟨hb, hv, hf, hn⟩ := h
      refine ⟨⟨bare_of_eq hb ?_ ?_, Stores.mirrors_indexChunks hn hv, hf⟩,
        by simp [IndexPc.resume, rank]⟩
      · rw [Stores.indexChunks]
        split <;> rfl
      · rw [Stores.indexChunks]
        split <;> rfl
  | endCommit cs' =>
      obtain ⟨⟨⟨r, hr, ht⟩, hc⟩, hm, rfl⟩ := h
      simp only [IndexPc.effect, hr, Except.ok.injEq] at he
      subst he
      refine ⟨⟨{ r with status := .indexed }, ?_, .inl ⟨rfl, ?_⟩, by simp⟩,
        by simp [IndexPc.resume, rank]⟩
      · simp [Stores.setFile, Stores.setChunks]
      · have hcs : ((st.setFile f (some { r with status := .indexed })).setChunks f
            (st.chunks f ++ cs')).chunks f = cs' := by simp [Stores.setChunks, hc]
        rw [hcs]
        exact hm
  | cleanGet e =>
      cases he
      obtain ⟨hb, hf⟩ := h
      simp only [IndexPc.resume]
      split
      · next hids => exact ⟨⟨hb, Stores.noVectors_of_fileIds hids, hf⟩, by simp [rank]⟩
      · refine ⟨⟨hb, hf, ?_⟩, by simp [rank]⟩
        intro v hv hvf
        exact Stores.mem_fileIds.mpr ⟨v, hv, hvf, rfl⟩
  | cleanDelete e ids =>
      cases he
      obtain ⟨hb, hf, hids⟩ := h
      refine ⟨⟨hb, ?_, hf⟩, by simp [IndexPc.resume, rank]⟩
      intro v hv hvf
      obtain ⟨hv, hnot⟩ := Stores.mem_deleteIds.mp hv
      exact hnot ⟨hvf, hids v hv hvf⟩
  | mark e share =>
      cases he
      obtain ⟨⟨⟨r, hr, ht⟩, hc⟩, hv, hf⟩ := h
      simp only [IndexPc.resume, hr]
      exact ⟨⟨⟨⟨r, hr, ht⟩, hc⟩, hv, hf, hr, rfl⟩, by simp [rank]⟩
  | markCommit e share o =>
      obtain ⟨⟨-, hc⟩, hv, rfl, hrow, hnow⟩ := h
      obtain ⟨st₁, hw, hrow'⟩ := Stores.writeFile_saved hrow
      obtain ⟨hch, -, hchroma⟩ := Stores.writeFile_eq hw
      simp only [IndexPc.effect, hw, Except.ok.injEq] at he
      subst he
      refine ⟨holds_markRow (hch ▸ hc) ?_ (hnow ▸ hrow'), by simp [IndexPc.resume, rank]⟩
      rwa [Stores.NoVectors, Stores.vectors, hchroma]
  | ended | raised => exact absurd rfl hover
  | parse => exact absurd rfl hparse
  | lookup => exact h.elim

/-- The database refuses only the chunk rows. -/
theorem Holds.inTry_of_error (h : Holds f final st failure pc) (he : pc.effect c f st = .error e) :
    pc.inTry := by
  cases pc with
  | find | startCommit | insertCollection | checkCollection | ensure | parse | persist | upsert
  | endCommit => rfl
  | markCommit e share o =>
      obtain ⟨st₁, hw, -⟩ := Stores.writeFile_saved h.2.2.2.1
      simp [IndexPc.effect, hw] at he
  | lookup | cleanGet | cleanDelete | mark | ended | raised => cases he

variable (c cs fault)

/-- One await. -/
theorem Inv.step {x : Attempt} (h : x.Inv f final) (hover : rank x.pc ≠ 0) :
    (x.next c f final cs fault).Inv f final ∧ rank (x.next c f final cs fault).pc < rank x.pc := by
  unfold Attempt.next
  cases hp : planned fault x.pc with
  | some e =>
      have ht : x.pc.inTry := by
        rw [planned] at hp
        split at hp
        · assumption
        · cases hp
      exact Holds.fail h ht
  | none =>
      by_cases hparse : x.pc = .parse
      · simp only [if_pos hparse]
        rw [Inv, hparse] at h
        exact ⟨h, by simp [hparse, rank]⟩
      · simp only [if_neg hparse]
        cases he : x.pc.effect c f x.stores with
        | ok st => exact Holds.resume h hover hparse he
        | error e => exact Holds.fail h (Holds.inTry_of_error h he)

/-- An attempt that has returned stays as it is. -/
theorem next_eq_self {x : Attempt} (h : rank x.pc = 0) : x.next c f final cs fault = x := by
  obtain ⟨st, pc, failure⟩ := x
  cases pc with
  | ended retry => rfl
  | raised e => rfl
  | lookup | find | startCommit | insertCollection | checkCollection | ensure | parse | persist
  | upsert | endCommit | cleanGet | cleanDelete | mark | markCommit => cases h

/-- The run of an attempt: each await brings it nearer to its end. -/
theorem Inv.iterate (n : Nat) {x : Attempt} (h : x.Inv f final) (hn : rank x.pc ≤ n) :
    ((next c f final cs fault)^[n] x).Inv f final ∧
      rank ((next c f final cs fault)^[n] x).pc = 0 := by
  induction n generalizing x with
  | zero => exact ⟨h, Nat.le_zero.mp hn⟩
  | succ n ih =>
      rw [Function.iterate_succ_apply]
      by_cases hover : rank x.pc = 0
      · rw [next_eq_self c cs fault hover]
        exact ih h (by omega)
      · obtain ⟨hinv, hlt⟩ := h.step c cs fault hover
        exact ih hinv (by omega)

end

/-- **An index job is atomic.**  Whatever the document's chunks are and wherever the `try`
block raises, the attempt returns, and the file is either indexed, with the ids and texts of
its vectors those of its chunk rows, or failed or pending, with neither.  A retry is wanted
exactly if the exception was transient, the attempt was not the final one and the row is
pending again. -/
theorem indexFile_atomic (c : Config) (f : FileId) (final : Bool) (cs : List Chunk)
    (fault : IndexPc → Option Exc) (st : Stores) (hb : st.Bare f) (hv : st.NoVectors f) :
    ∃ retry r, (indexFile c f final cs fault st).pc = .ended retry ∧
      (indexFile c f final cs fault st).stores.files f = some r ∧
      (indexFile c f final cs fault st).stores.Atomic f r.status ∧
      (retry = true ↔ ∃ e, (indexFile c f final cs fault st).failure = some e ∧
        e.transient = true ∧ final = false ∧ r.status = .pending) := by
  have hstart : Inv f final ⟨st, .find IndexPc.lookupTries, none⟩ := ⟨hb, hv, rfl⟩
  obtain ⟨hinv, hrank⟩ := hstart.iterate c cs fault 13 (Nat.le_refl 13)
  unfold indexFile
  generalize (next c f final cs fault)^[13] ⟨st, .find IndexPc.lookupTries, none⟩ = x at hinv hrank
  obtain ⟨st', pc, failure⟩ := x
  cases pc with
  | ended retry =>
      obtain ⟨r, hr, hatomic, hretry⟩ := hinv
      exact ⟨retry, r, rfl, hr, hatomic, hretry⟩
  | raised e => exact hinv.elim
  | lookup | find | startCommit | insertCollection | checkCollection | ensure | parse | persist
  | upsert | endCommit | cleanGet | cleanDelete | mark | markCommit => cases hrank

/-- A file that waits to be indexed. -/
def waiting : Stores := Stores.empty.setFile 0 (some ⟨.pending, none⟩)

/-- The commit of `indexed` raises. -/
def commitFault : IndexPc → Option Exc
  | .endCommit _ => some ⟨true, false, "connection is closed"⟩
  | _ => none

/-- The vectors have been written, and are removed again. -/
theorem indexFile_atomic_commitFault :
    ∃ r, (indexFile .sample 0 false [⟨0, some 1, "a"⟩, ⟨1, some 1, "b"⟩] commitFault waiting).pc =
        .ended true ∧
      (indexFile .sample 0 false [⟨0, some 1, "a"⟩, ⟨1, some 1, "b"⟩] commitFault
        waiting).stores.files 0 = some r ∧
      r.status = .pending := by
  obtain ⟨retry, r, hpc, hr, -, hretry⟩ := indexFile_atomic .sample 0 false
    [⟨0, some 1, "a"⟩, ⟨1, some 1, "b"⟩] commitFault waiting
    ⟨⟨⟨.pending, none⟩, rfl, rfl⟩, rfl⟩ (by intro v hv; cases hv)
  have hended : (indexFile .sample 0 false [⟨0, some 1, "a"⟩, ⟨1, some 1, "b"⟩] commitFault
      waiting).pc = .ended true := by decide
  obtain rfl : retry = true := IndexPc.ended.inj (hpc.symm.trans hended)
  obtain ⟨-, -, -, -, hpending⟩ := hretry.mp rfl
  exact ⟨r, hended, hr, hpending⟩

end Attempt

end Adapta.Files
