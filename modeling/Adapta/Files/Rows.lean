import Adapta.Files.Index

/-!
# The row of an index job

What the index job does to rows of `project_files`: it writes its own row only, it leaves it
alone until it has found it `pending` or `processing`, and it returns only when the row is
terminal, or gone.
-/

namespace Adapta.Files

open Lib

variable {c : Config} {f g : FileId} {st st' : Stores} {locked : Bool} {j j' : IndexJob} {e : JobEv}

/-- The row is `pending` or `processing`. -/
def Stores.Transient (st : Stores) (f : FileId) : Prop :=
  ∃ r, st.files f = some r ∧ r.status.transient = true

/-- The job has found its row, and may write it. -/
def IndexJob.active : IndexJob → Bool
  | .attempt _ .lookup | .failSelect | .returned | .raised _ | .cancelled => false
  | _ => true

/-- The session of the `except` branch is in step with the row: no other writes it. -/
def IndexJob.InSync (st : Stores) (f : FileId) : IndexJob → Prop
  | .attempt final (.markCommit e _ o) =>
      o.now = markRow e (IndexPc.retry final e) o.saved ∧ ∀ r, st.files f = some r → r = o.saved
  | _ => True

/-! ## Effects on rows -/

/-- Only the row of `f` may change, and it is neither made nor deleted. -/
structure WritesOnly (f : FileId) (st st' : Stores) : Prop where
  ne : ∀ g, g ≠ f → st'.files g = st.files g
  none : st.files f = none → st'.files f = none

namespace WritesOnly

protected theorem refl (f : FileId) (st : Stores) : WritesOnly f st st := ⟨fun _ _ ↦ rfl, id⟩

theorem of_files_eq (h : st'.files = st.files) : WritesOnly f st st' :=
  ⟨fun _ _ ↦ by rw [h], fun hn ↦ by rw [h]; exact hn⟩

theorem setFile {r : FileRow} (h : st.files f = some r) (r' : FileRow) :
    WritesOnly f st (st.setFile f (some r')) := by
  refine ⟨fun g hg ↦ Function.update_of_ne hg _ _, ?_⟩
  intro hn
  rw [h] at hn
  cases hn

theorem writeFile {o : Tracked FileRow} (h : st.writeFile f o = some st') :
    WritesOnly f st st' := by
  rw [Stores.writeFile] at h
  split at h
  · cases h
    exact .refl f st
  · obtain ⟨cur, hcur, rfl⟩ := Option.map_eq_some_iff.mp h
    exact setFile hcur _

end WritesOnly

theorem Stores.files_indexChunks (cs : List Chunk) : (st.indexChunks f cs).files = st.files := by
  rw [Stores.indexChunks]
  split <;> rfl

/-- Threads write no file row. -/
theorem Thread.run_files (t : Thread) : (t.run st).1.files = st.files := by
  cases t with
  | ensure | get | delete => rfl
  | upsert f cs => exact Stores.files_indexChunks cs

theorem IndexPc.effect_writesOnly {pc : IndexPc} (h : pc.effect c f st = .ok st') :
    WritesOnly f st st' := by
  cases pc with
  | lookup | find | checkCollection | parse | cleanGet | mark | ended | raised | insertCollection
  | ensure | cleanDelete =>
      cases h
      exact .of_files_eq rfl
  | startCommit o | markCommit _ _ o =>
      simp only [IndexPc.effect] at h
      split at h
      · next hw =>
          cases h
          exact .writeFile hw
      · cases h
  | persist cs =>
      simp only [IndexPc.effect] at h
      split at h <;> cases h
      exact .refl f st
  | upsert cs =>
      cases h
      exact .of_files_eq (Stores.files_indexChunks cs)
  | endCommit cs =>
      simp only [IndexPc.effect] at h
      split at h
      · next r hr =>
          cases h
          have hw := WritesOnly.setFile hr { r with status := .indexed }
          exact ⟨hw.ne, hw.none⟩
      · cases h

theorem IndexJob.effect_writesOnly (h : j.effect c f st = .ok st') : WritesOnly f st st' := by
  cases j with
  | attempt final pc => exact IndexPc.effect_writesOnly h
  | failCommit o =>
      simp only [IndexJob.effect] at h
      split at h
      · next hw =>
          cases h
          exact .writeFile hw
      · cases h
  | failSelect | failGet | failDelete | returned | raised | cancelled =>
      cases h
      exact .of_files_eq rfl

theorem IndexJob.mayApply_writesOnly (applied : Bool) :
    WritesOnly f st (j.mayApply c f st applied) := by
  cases applied with
  | false => exact .refl f st
  | true =>
      cases h : j.effect c f st with
      | ok st' =>
          simp only [IndexJob.mayApply, h]
          exact effect_writesOnly h
      | error e =>
          simp only [IndexJob.mayApply, h]
          exact .refl f st

/-- An event of the job writes the job's own row only. -/
theorem IndexJob.step_writesOnly (h : j.step c f st locked e = some (st', j')) :
    WritesOnly f st st' := by
  simp only [IndexJob.step] at h
  split at h
  · cases h
  cases e with
  | ok =>
      simp only at h
      split at h
      · cases h
      split at h
      · next he =>
          cases h
          exact effect_writesOnly he
      · cases h
        exact .refl f st
  | parsed cs =>
      simp only at h
      split at h <;> cases h
      exact .refl f st
  | raised e applied =>
      cases h
      exact mayApply_writesOnly _
  | deadline applied =>
      simp only at h
      split at h <;> cases h
      exact mayApply_writesOnly _
  | cancel applied =>
      cases h
      exact mayApply_writesOnly _

/-! ## Before the row is found -/

theorem IndexJob.effect_of_inactive (hj : j.active = false) (h : j.effect c f st = .ok st') :
    st' = st := by
  cases j with
  | attempt final pc =>
      cases pc <;> cases hj
      cases h
      rfl
  | failCommit | failGet | failDelete => cases hj
  | failSelect | returned | raised | cancelled =>
      cases h
      rfl

theorem IndexJob.mayApply_of_inactive (hj : j.active = false) (applied : Bool) :
    j.mayApply c f st applied = st := by
  cases applied with
  | false => rfl
  | true =>
      cases h : j.effect c f st with
      | ok st' =>
          simp only [IndexJob.mayApply, h]
          exact effect_of_inactive hj h
      | error e => simp only [IndexJob.mayApply, h]

theorem IndexJob.timedOut_inactive (final : Bool) : (timedOut final).active = false := by
  cases final <;> rfl

/-- The look at the row decides whether the job becomes active. -/
theorem IndexJob.transient_of_resume (hj : j.active = false)
    (h : (j.resume c f st).active = true) : st.Transient f := by
  cases j with
  | attempt final pc =>
      cases pc <;> cases hj
      simp only [IndexJob.resume, IndexPc.resume] at h
      split at h
      · simp only [settle] at h
        split at h <;> cases h
      · next r hr =>
          split at h
          · next ht => exact ⟨r, hr, ht⟩
          · simp only [settle] at h
            split at h <;> cases h
  | failCommit | failGet | failDelete => cases hj
  | failSelect =>
      simp only [IndexJob.resume, raiseTimeout] at h
      split at h
      · next r hr =>
          split at h
          · next ht => exact ⟨r, hr, ht⟩
          · cases h
      · cases h
  | returned | raised | cancelled => cases h

theorem IndexJob.afterRaise_of_inactive (hj : j.active = false) (e : Exc) :
    (j.afterRaise c e).active = false := by
  cases j with
  | attempt final pc =>
      cases pc <;> cases hj
      simp only [IndexJob.afterRaise, IndexPc.afterRaise, settle]
      split
      · exact timedOut_inactive final
      · rfl
  | failCommit | failGet | failDelete => cases hj
  | failSelect | returned | raised | cancelled => rfl

/-- A job that has not found its row leaves the rows alone, and goes on only if it finds it
`pending` or `processing`. -/
theorem IndexJob.step_of_inactive (hj : j.active = false)
    (h : j.step c f st locked e = some (st', j')) :
    st' = st ∧ (j'.active = true → st.Transient f) := by
  simp only [IndexJob.step] at h
  split at h
  · cases h
  cases e with
  | ok =>
      simp only at h
      split at h
      · cases h
      split at h
      · next he =>
          cases h
          exact ⟨effect_of_inactive hj he, transient_of_resume hj⟩
      · cases h
        exact ⟨rfl, fun ha ↦ by rw [afterRaise_of_inactive hj] at ha; cases ha⟩
  | parsed cs =>
      simp only at h
      split at h <;> cases h
      cases hj
  | raised e applied =>
      cases h
      exact ⟨mayApply_of_inactive hj _, fun ha ↦ by rw [afterRaise_of_inactive hj] at ha; cases ha⟩
  | deadline applied =>
      simp only at h
      split at h <;> cases h
      exact ⟨mayApply_of_inactive hj _, fun ha ↦ by rw [timedOut_inactive] at ha; cases ha⟩
  | cancel applied =>
      cases h
      exact ⟨mayApply_of_inactive hj _, fun ha ↦ by cases ha⟩

/-! ## Where a job returns -/

theorem IndexJob.inSync_of_not_markCommit
    (h : ∀ final e share o, j ≠ .attempt final (.markCommit e share o)) : j.InSync st f := by
  cases j with
  | attempt final pc =>
      cases pc with
      | markCommit e share o => exact absurd rfl (h final e share o)
      | lookup | find | startCommit | insertCollection | checkCollection | ensure | parse | persist
      | upsert | endCommit | cleanGet | cleanDelete | mark | ended | raised => trivial
  | failSelect | failCommit | failGet | failDelete | returned | raised | cancelled => trivial

/-- The row of the job is as it was, or gone. -/
theorem IndexJob.InSync.of_row (h : j.InSync st f)
    (hr : ∀ r, st'.files f = some r → st.files f = some r) : j.InSync st' f := by
  cases j with
  | attempt final pc =>
      cases pc with
      | markCommit e share o => exact ⟨h.1, fun r hr' ↦ h.2 r (hr r hr')⟩
      | lookup | find | startCommit | insertCollection | checkCollection | ensure | parse | persist
      | upsert | endCommit | cleanGet | cleanDelete | mark | ended | raised => trivial
  | failSelect | failCommit | failGet | failDelete | returned | raised | cancelled => trivial

theorem IndexJob.settle_eq_markCommit {final final' : Bool} {pc : IndexPc} {e : Exc} {share : Bool}
    {o : Tracked FileRow} (h : settle final pc = .attempt final' (.markCommit e share o)) :
    final' = final ∧ pc = .markCommit e share o := by
  cases pc with
  | ended | raised =>
      simp only [settle, timedOut] at h
      repeat' split at h
      all_goals cases h
  | lookup | find | startCommit | insertCollection | checkCollection | ensure | parse | persist
  | upsert | endCommit | cleanGet | cleanDelete | mark => cases h
  | markCommit =>
      cases h
      exact ⟨rfl, rfl⟩

/-- The `except` branch commits what it has just loaded. -/
theorem IndexJob.inSync_resume (h : j.effect c f st = .ok st') :
    (j.resume c f st).InSync st' f := by
  cases j with
  | attempt final pc =>
      cases hp : settle final (pc.resume f final st) with
      | attempt final' pc' =>
          simp only [IndexJob.resume, hp]
          cases pc' with
          | markCommit e share o =>
              obtain ⟨rfl, hpc⟩ := settle_eq_markCommit hp
              cases pc with
              | mark e' share' =>
                  simp only [IndexPc.resume] at hpc
                  split at hpc <;> cases hpc
                  next r hr =>
                    cases h
                    refine ⟨rfl, ?_⟩
                    intro r' hr'
                    cases hr.symm.trans hr'
                    rfl
              | lookup | find | cleanGet =>
                  simp only [IndexPc.resume] at hpc
                  repeat' split at hpc
                  all_goals cases hpc
              | startCommit | insertCollection | checkCollection | ensure | parse | persist
              | upsert | endCommit | cleanDelete | markCommit | ended | raised => cases hpc
          | lookup | find | startCommit | insertCollection | checkCollection | ensure | parse
          | persist | upsert | endCommit | cleanGet | cleanDelete | mark | ended | raised => trivial
      | failSelect | failCommit | failGet | failDelete | returned | raised | cancelled =>
          simp only [IndexJob.resume, hp]
          trivial
  | failSelect | failGet =>
      simp only [IndexJob.resume, raiseTimeout]
      repeat' split
      all_goals trivial
  | failCommit | failDelete | returned | raised | cancelled => trivial

theorem IndexJob.inSync_afterRaise (e : Exc) : (j.afterRaise c e).InSync st f := by
  apply inSync_of_not_markCommit
  intro final e' share o heq
  cases j with
  | attempt final' pc =>
      obtain ⟨-, hpc⟩ := settle_eq_markCommit heq
      cases pc <;> cases hpc
  | failSelect | failCommit | failGet | failDelete | returned | raised | cancelled => cases heq

/-- After every event the session of the job is in step with its row. -/
theorem IndexJob.step_inSync (h : j.step c f st locked e = some (st', j')) : j'.InSync st' f := by
  simp only [IndexJob.step] at h
  split at h
  · cases h
  cases e with
  | ok =>
      simp only at h
      split at h
      · cases h
      split at h
      · next he =>
          cases h
          exact inSync_resume he
      · cases h
        exact inSync_afterRaise _
  | parsed cs =>
      simp only at h
      split at h <;> cases h
      trivial
  | raised e applied =>
      cases h
      exact inSync_afterRaise e
  | deadline applied =>
      simp only at h
      split at h <;> cases h
      rename_i final pc _
      cases final <;> trivial
  | cancel applied =>
      cases h
      trivial

theorem Stores.writeFile_self {o : Tracked FileRow} (h : st.writeFile f o = some st')
    (hs : ∀ r, st.files f = some r → r = o.saved) : ∀ r, st'.files f = some r → r = o.now := by
  rw [Stores.writeFile] at h
  split at h
  · next heq =>
      cases h
      intro r hr
      exact (hs r hr).trans heq.symm
  · obtain ⟨cur, hcur, rfl⟩ := Option.map_eq_some_iff.mp h
    intro r hr
    rw [Stores.setFile] at hr
    simp only [Function.update_self, Option.some.injEq] at hr
    rw [← hr, hs cur hcur, FileRow.flush]
    simp

/-- No exception makes the job return. -/
theorem IndexJob.afterRaise_ne_returned (e : Exc) : j.afterRaise c e ≠ .returned := by
  intro h
  cases j with
  | attempt final pc =>
      cases pc <;> simp only [IndexJob.afterRaise, IndexPc.afterRaise, settle, timedOut] at h
      all_goals repeat' split at h
      all_goals cases h
  | failSelect | failCommit | failGet | failDelete | returned | raised | cancelled => cases h

theorem IndexJob.terminal_of_resume {final : Bool} {pc : IndexPc}
    (hover : (IndexJob.attempt final pc).isOver = false)
    (hsync : (IndexJob.attempt final pc).InSync st f) (he : pc.effect c f st = .ok st')
    (h : settle final (pc.resume f final st) = .returned) : ¬st'.Transient f := by
  rintro ⟨r, hr, ht⟩
  cases pc with
  | lookup =>
      cases he
      simp only [IndexPc.resume, hr, ht] at h
      cases h
  | find tries =>
      cases he
      simp only [IndexPc.resume, hr] at h
      cases h
  | mark e share =>
      cases he
      simp only [IndexPc.resume, hr] at h
      cases h
  | endCommit cs =>
      simp only [IndexPc.effect] at he
      split at he <;> cases he
      simp only [Stores.setChunks, Stores.setFile, Function.update_self, Option.some.injEq] at hr
      rw [← hr] at ht
      cases ht
  | markCommit e share o =>
      obtain ⟨hnow, hsaved⟩ := hsync
      simp only [IndexPc.effect] at he
      split at he <;> cases he
      next hw =>
        rw [Stores.writeFile_self hw hsaved r hr, hnow] at ht
        cases hretry : IndexPc.retry final e with
        | false =>
            rw [hretry] at ht
            cases ht
        | true =>
            have hfinal : final = false := by
              simp only [IndexPc.retry, Bool.and_eq_true, Bool.not_eq_true'] at hretry
              exact hretry.2
            subst hfinal
            simp [settle, IndexPc.resume, hretry] at h
  | cleanGet e =>
      simp only [IndexPc.resume] at h
      split at h <;> cases h
  | startCommit | insertCollection | checkCollection | ensure | parse | persist | upsert
  | cleanDelete => cases h
  | ended | raised => cases hover

/-- A job returns when its row is terminal, or gone. -/
theorem IndexJob.terminal_of_returned (hsync : j.InSync st f)
    (h : j.step c f st locked e = some (st', .returned)) : ¬st'.Transient f := by
  simp only [IndexJob.step] at h
  split at h
  · cases h
  next hover =>
  cases e with
  | ok =>
      simp only at h
      split at h
      · cases h
      split at h
      · next he =>
          simp only [Option.some.injEq, Prod.mk.injEq] at h
          obtain ⟨rfl, hres⟩ := h
          cases j with
          | attempt final pc => exact terminal_of_resume (by simpa using hover) hsync he hres
          | failSelect | failGet =>
              simp only [IndexJob.resume, raiseTimeout] at hres
              repeat' split at hres
              all_goals cases hres
          | failCommit | failDelete => cases hres
          | returned | raised | cancelled => exact absurd rfl hover
      · simp only [Option.some.injEq, Prod.mk.injEq] at h
        exact absurd h.2 (afterRaise_ne_returned _)
  | parsed cs =>
      simp only at h
      split at h <;> cases h
  | raised e applied =>
      simp only [Option.some.injEq, Prod.mk.injEq] at h
      exact absurd h.2 (afterRaise_ne_returned e)
  | deadline applied =>
      simp only at h
      split at h
      · next final pc =>
          simp only [Option.some.injEq, Prod.mk.injEq] at h
          cases final <;> cases h.2
      · cases h
  | cancel applied => cases h

end Adapta.Files
