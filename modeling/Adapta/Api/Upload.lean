import Adapta.Lib.Effect
import Adapta.Lib.Slices

/-!
# Uploads with a cap

`save_capped_upload` of `adapta/api/_upload.py` streams the body of a request into a file and
stops as soon as the cap is passed.  The routers for files, datasets and adapters share it.

Any read, write or other call may fail, before it has had its effect or after.  A write that
fails may have written a part of its chunk; what is in the file then does not matter here.
-/

namespace Adapta.Api

open Lib Effect

abbrev Bytes := List UInt8

/-- What ends a request: a `PayloadTooLarge` with its message, another error of the application,
or the exception of a failed call. -/
inductive Raised (ρ : Type) where
  | payloadTooLarge (message : String)
  | rejected (r : ρ)
  | call

/-- `_CHUNK_SIZE`, and `1024 * 1024` wherever it counts megabytes. -/
def mebibyte : Nat := 1024 * 1024

/-! ## The source -/

section Copy

variable {ρ : Type} (reads writes : Nat → Outcome) (maxBytes : Nat) (tooLarge : Raised ρ)
  (ending : Option (Raised ρ))

/-- The read at the end of a stream returns nothing, or it raises. -/
def endOfStream (written : Nat) : Option (Raised ρ) → Effect (Raised ρ) (Option Bytes) Nat
  | none => pure written
  | some e => raise e

/-- The loop that copies a stream chunk by chunk, from the `i`-th read on, with `written` bytes
counted so far. -/
def copyCapped (i written : Nat) : List Bytes → Effect (Raised ρ) (Option Bytes) Nat
  | [] => do
      ask (reads i) .call
      endOfStream written ending
  | chunk :: rest => do
      ask (reads i) .call
      if maxBytes < written + chunk.length then raise tooLarge
      else do
        call (writes i) .call fun file ↦ file.map (· ++ chunk)
        copyCapped (i + 1) (written + chunk.length) rest

end Copy

/-- The calls of `save_capped_upload`. -/
inductive SaveCall where
  | open
  /-- The `i`-th read from the request. -/
  | read (i : Nat)
  | write (i : Nat)
  | close
  | unlink
deriving DecidableEq, Repr

/-- The file at the destination is written from chunks of at most `maxBytes` bytes, and removed
if there are more. -/
def saveChunks {ρ : Type} (calls : SaveCall → Outcome) (maxBytes : Nat) (message : String)
    (chunks : List Bytes) : Effect (Raised ρ) (Option Bytes) Nat :=
  tryCatch
    (do
      call (calls .open) .call fun _ ↦ some []
      closing (calls .close) .call
        (copyCapped (fun i ↦ calls (.read i)) (fun i ↦ calls (.write i)) maxBytes
          (.payloadTooLarge message) none 0 0 chunks))
    fun
      | .payloadTooLarge m => do
          call (calls .unlink) .call fun _ ↦ none
          raise (.payloadTooLarge m)
      | e => raise e

/-- `save_capped_upload`; `size` is the declared size. -/
def saveCappedUpload {ρ : Type} (calls : SaveCall → Outcome) (limitMb : Nat) (size : Option Nat)
    (body : Bytes) : Effect (Raised ρ) (Option Bytes) Nat :=
  let maxBytes := limitMb * mebibyte
  let message := s!"Upload exceeds the {limitMb} MB limit"
  if size.any (maxBytes < ·) then raise (.payloadTooLarge message)
  else saveChunks calls maxBytes message (slices mebibyte body)

/-! ## The loop -/

section Copy

variable {ρ : Type} {reads writes : Nat → Outcome} {maxBytes : Nat} {tooLarge : Raised ρ}
  {ending : Option (Raised ρ)}

/-- A call of the loop fails: a read before the cap is passed, or a write within the cap. -/
def Breaks (reads writes : Nat → Outcome) (maxBytes i written : Nat) (chunks : List Bytes) :
    Prop :=
  (∃ j ≤ chunks.length, written + (chunks.take j).flatten.length ≤ maxBytes ∧
    reads (i + j) ≠ .ok) ∨
  ∃ j < chunks.length, written + (chunks.take (j + 1)).flatten.length ≤ maxBytes ∧
    writes (i + j) ≠ .ok

theorem breaks_nil {i written : Nat} (hw : written ≤ maxBytes) :
    Breaks reads writes maxBytes i written [] ↔ reads i ≠ .ok := by
  simp [Breaks, hw]

theorem breaks_cons {i written : Nat} (hw : written ≤ maxBytes) (chunk : Bytes)
    (rest : List Bytes) :
    Breaks reads writes maxBytes i written (chunk :: rest) ↔
      reads i ≠ .ok ∨ (written + chunk.length ≤ maxBytes ∧ writes i ≠ .ok) ∨
        Breaks reads writes maxBytes (i + 1) (written + chunk.length) rest := by
  have hstep : ∀ j, written + ((chunk :: rest).take (j + 1)).flatten.length =
      written + chunk.length + (rest.take j).flatten.length := by
    intro j
    rw [List.take_succ_cons, List.flatten_cons, List.length_append, Nat.add_assoc]
  have hindex : ∀ j, i + (j + 1) = i + 1 + j := by omega
  constructor
  · rintro (⟨j, hj, hle, hread⟩ | ⟨j, hj, hle, hwrite⟩)
    · cases j with
      | zero => exact .inl hread
      | succ j =>
          rw [hstep] at hle
          rw [hindex] at hread
          exact .inr (.inr (.inl ⟨j, Nat.le_of_succ_le_succ hj, hle, hread⟩))
    · rw [hstep] at hle
      cases j with
      | zero => exact .inr (.inl ⟨by simpa using hle, hwrite⟩)
      | succ j =>
          rw [hindex] at hwrite
          exact .inr (.inr (.inr ⟨j, Nat.lt_of_succ_lt_succ hj, hle, hwrite⟩))
  · rintro (hread | ⟨hle, hwrite⟩ | ⟨j, hj, hle, hread⟩ | ⟨j, hj, hle, hwrite⟩)
    · exact .inl ⟨0, Nat.zero_le _, by simpa using hw, hread⟩
    · exact .inr ⟨0, Nat.succ_pos _, by simpa using hle, hwrite⟩
    · refine .inl ⟨j + 1, Nat.succ_le_succ hj, ?_, ?_⟩
      · rwa [hstep]
      · rwa [hindex]
    · refine .inr ⟨j + 1, Nat.succ_lt_succ hj, ?_, ?_⟩
      · rwa [hstep]
      · rwa [hindex]

/-- How the loop ends: a call fails, or the chunk that passes the cap is reached, or the stream
is copied to its end. -/
theorem wp_copyCapped {Q : Nat → Option Bytes → Prop} {E : Raised ρ → Option Bytes → Prop}
    {chunks : List Bytes} {i written : Nat} {file : Bytes} (hw : written ≤ maxBytes)
    (hbreaks : Breaks reads writes maxBytes i written chunks → ∀ x, E .call (some x))
    (hover : ¬ Breaks reads writes maxBytes i written chunks → ∀ j < chunks.length,
      written + (chunks.take j).flatten.length ≤ maxBytes →
      maxBytes < written + (chunks.take (j + 1)).flatten.length →
      E tooLarge (some (file ++ (chunks.take j).flatten)))
    (hraise : ¬ Breaks reads writes maxBytes i written chunks →
      written + chunks.flatten.length ≤ maxBytes → ∀ e, ending = some e →
      E e (some (file ++ chunks.flatten)))
    (hend : ¬ Breaks reads writes maxBytes i written chunks →
      written + chunks.flatten.length ≤ maxBytes → ending = none →
      Q (written + chunks.flatten.length) (some (file ++ chunks.flatten))) :
    wp (copyCapped reads writes maxBytes tooLarge ending i written chunks) Q E (some file) := by
  induction chunks generalizing i written file with
  | nil =>
      rw [copyCapped, wp_bind, wp_ask]
      rw [breaks_nil hw] at hbreaks hraise hend
      refine ⟨fun hread ↦ ?_, fun hread ↦ hbreaks hread file⟩
      cases ending with
      | none =>
          rw [endOfStream, wp_pure]
          simpa using hend (not_not.mpr hread) (by simpa using hw) rfl
      | some e =>
          rw [endOfStream, wp_raise]
          simpa using hraise (not_not.mpr hread) (by simpa using hw) e rfl
  | cons chunk rest ih =>
      rw [copyCapped, wp_bind, wp_ask]
      rw [breaks_cons hw] at hbreaks hover hraise hend
      refine ⟨fun hread ↦ ?_, fun hread ↦ hbreaks (.inl hread) file⟩
      have hflat : written + (chunk :: rest).flatten.length =
          written + chunk.length + rest.flatten.length := by
        rw [List.flatten_cons, List.length_append, Nat.add_assoc]
      split
      · next hlt =>
          -- no later call is made
          have hnot : ¬ (reads i ≠ .ok ∨ (written + chunk.length ≤ maxBytes ∧ writes i ≠ .ok) ∨
              Breaks reads writes maxBytes (i + 1) (written + chunk.length) rest) := by
            rintro (h | ⟨hle, -⟩ | ⟨j, -, hle, -⟩ | ⟨j, -, hle, -⟩)
            · exact h hread
            · omega
            · omega
            · omega
          have h := hover hnot 0 (Nat.succ_pos _) (by simpa using hw) (by simpa using hlt)
          simpa using h
      · next hle =>
          rw [wp_bind, wp_call]
          have hle := Nat.le_of_not_lt hle
          refine ⟨fun hwrite ↦ ?_, fun hwrite ↦ ?_, fun hwrite ↦ ?_⟩
          · have hiff : (reads i ≠ .ok ∨ (written + chunk.length ≤ maxBytes ∧ writes i ≠ .ok) ∨
                Breaks reads writes maxBytes (i + 1) (written + chunk.length) rest) ↔
                Breaks reads writes maxBytes (i + 1) (written + chunk.length) rest := by
              simp [hread, hwrite]
            rw [hiff] at hbreaks hover hraise hend
            refine ih hle hbreaks ?_ ?_ ?_
            · intro hnot j hj hj₁ hj₂
              have h := hover hnot (j + 1) (Nat.succ_lt_succ hj)
              rw [List.take_succ_cons, List.take_succ_cons, List.flatten_cons, List.flatten_cons,
                List.length_append, List.length_append, ← Nat.add_assoc, ← Nat.add_assoc,
                ← List.append_assoc] at h
              exact h hj₁ hj₂
            · intro hnot hle' e he
              have h := hraise hnot (hflat ▸ hle') e he
              rwa [List.flatten_cons, ← List.append_assoc] at h
            · intro hnot hle' he
              have h := hend hnot (hflat ▸ hle') he
              rwa [hflat, List.flatten_cons, ← List.append_assoc] at h
          · refine hbreaks (.inr (.inl ⟨hle, ?_⟩)) _
            rw [hwrite]
            decide
          · refine hbreaks (.inr (.inl ⟨hle, ?_⟩)) _
            rw [hwrite]
            decide

end Copy

/-! ## The file -/

section Save

variable {ρ : Type} {calls : SaveCall → Outcome} {Q : Nat → Option Bytes → Prop}
  {E : Raised ρ → Option Bytes → Prop} {s : Option Bytes}

/-- A call fails while the file is open: a read before the cap is passed, a write within the
cap, or the close. -/
def BreaksOpen (calls : SaveCall → Outcome) (maxBytes : Nat) (chunks : List Bytes) : Prop :=
  Breaks (fun i ↦ calls (.read i)) (fun i ↦ calls (.write i)) maxBytes 0 0 chunks ∨
    calls .close ≠ .ok

theorem wp_saveChunks {maxBytes : Nat} {message : String} {chunks : List Bytes}
    (hopen : (calls .open = .fails → E .call s) ∧
      (calls .open = .failsAfter → E .call (some [])))
    (hbreaks : calls .open = .ok → BreaksOpen calls maxBytes chunks → ∀ x, E .call (some x))
    (hover : calls .open = .ok → ¬ BreaksOpen calls maxBytes chunks →
      maxBytes < chunks.flatten.length →
      (calls .unlink = .fails → ∀ x, E .call (some x)) ∧
        (calls .unlink ≠ .fails → ∀ e, E e none))
    (hok : calls .open = .ok → ¬ BreaksOpen calls maxBytes chunks →
      chunks.flatten.length ≤ maxBytes → Q chunks.flatten.length (some chunks.flatten)) :
    wp (saveChunks calls maxBytes message chunks) Q E s := by
  rw [saveChunks, wp_tryCatch, wp_bind, wp_call]
  refine ⟨fun hopened ↦ ?_, hopen.1, hopen.2⟩
  have hcalm : ¬ Breaks (fun i ↦ calls (.read i)) (fun i ↦ calls (.write i)) maxBytes 0 0 chunks →
      calls .close = .ok → ¬ BreaksOpen calls maxBytes chunks := by
    rintro hcalm hclose (h | h)
    · exact hcalm h
    · exact h hclose
  rw [wp_closing]
  refine wp_copyCapped (Nat.zero_le _) ?_ ?_ ?_ ?_
  · intro h x
    have h := hbreaks hopened (.inl h) x
    exact ⟨fun _ ↦ h, fun _ ↦ h⟩
  · intro h j hj hle hlt
    refine ⟨fun hclose ↦ ?_, fun hclose ↦ hbreaks hopened (.inr hclose) _⟩
    have hlong : maxBytes < chunks.flatten.length := by
      rw [← List.take_append_drop (j + 1) chunks, List.flatten_append, List.length_append]
      omega
    have h := hover hopened (hcalm h hclose) hlong
    simp only [wp_bind, wp_call, wp_raise]
    refine ⟨fun hun ↦ h.2 ?_ _, fun hun ↦ h.1 hun _, fun hun ↦ h.2 ?_ _⟩
    · rw [hun]
      decide
    · rw [hun]
      decide
  · intro _ _ e he
    cases he
  · intro h hle _
    rw [Nat.zero_add] at hle ⊢
    exact ⟨fun hclose ↦ hok hopened (hcalm h hclose) hle,
      fun hclose ↦ hbreaks hopened (.inr hclose) _⟩

theorem any_lt_iff {m : Nat} {size : Option Nat} :
    size.any (m < ·) = true ↔ ∃ n, size = some n ∧ m < n := by
  cases size with
  | none => simp
  | some n => simp

/-- The declared size is over the cap. -/
def DeclaredTooLarge (limitMb : Nat) (size : Option Nat) : Prop :=
  ∃ n, size = some n ∧ limitMb * mebibyte < n

/-- A call fails while the body is written. -/
def Interrupted (calls : SaveCall → Outcome) (limitMb : Nat) (body : Bytes) : Prop :=
  BreaksOpen calls (limitMb * mebibyte) (slices mebibyte body)

/-- How `save_capped_upload` ends, and what is at the destination then. -/
theorem wp_saveCappedUpload {limitMb : Nat} {size : Option Nat} {body : Bytes}
    (hdeclared : DeclaredTooLarge limitMb size → ∀ m, E (.payloadTooLarge m) s)
    (hopen : ¬ DeclaredTooLarge limitMb size →
      (calls .open = .fails → E .call s) ∧ (calls .open = .failsAfter → E .call (some [])))
    (hinterrupted : ¬ DeclaredTooLarge limitMb size → calls .open = .ok →
      Interrupted calls limitMb body → ∀ x, E .call (some x))
    (hover : ¬ DeclaredTooLarge limitMb size → calls .open = .ok →
      ¬ Interrupted calls limitMb body → limitMb * mebibyte < body.length →
      (calls .unlink = .fails → ∀ x, E .call (some x)) ∧
        (calls .unlink ≠ .fails → ∀ e, E e none))
    (hok : ¬ DeclaredTooLarge limitMb size → calls .open = .ok →
      ¬ Interrupted calls limitMb body → body.length ≤ limitMb * mebibyte →
      Q body.length (some body)) :
    wp (saveCappedUpload calls limitMb size body) Q E s := by
  have hflat : (slices mebibyte body).flatten = body := flatten_slices (by decide)
  rw [saveCappedUpload]
  split
  · next hany => exact hdeclared (any_lt_iff.mp hany) _
  · next hany =>
      have hnot : ¬ DeclaredTooLarge limitMb size := fun h ↦ hany (any_lt_iff.mpr h)
      refine wp_saveChunks (hopen hnot) (hinterrupted hnot) ?_ ?_
      · rw [hflat]
        exact hover hnot
      · rw [hflat]
        exact hok hnot

/-- The declared size or the body is over the cap. -/
def TooLarge (limitMb : Nat) (size : Option Nat) (body : Bytes) : Prop :=
  DeclaredTooLarge limitMb size ∨ limitMb * mebibyte < body.length

/-- It stores the body, or else a call has failed or the body is too large. -/
theorem wp_saveCappedUpload_of {limitMb : Nat} {size : Option Nat} {body : Bytes}
    (hok : ¬ TooLarge limitMb size body → Q body.length (some body))
    (hraise : ∀ e x, ((∀ c, calls c = .ok) → TooLarge limitMb size body) → E e x) :
    wp (saveCappedUpload calls limitMb size body) Q E s := by
  have hfail : ∀ {c o}, calls c = o → o ≠ .ok → ∀ e x, E e x :=
    fun h ho e x ↦ hraise e x fun hall ↦ absurd (h.symm.trans (hall _)) ho
  refine wp_saveCappedUpload ?_ ?_ ?_ ?_ ?_
  · exact fun h m ↦ hraise _ _ fun _ ↦ .inl h
  · exact fun _ ↦ ⟨fun h ↦ hfail h (by decide) _ _, fun h ↦ hfail h (by decide) _ _⟩
  · intro _ _ hint x
    refine hraise _ _ fun hall ↦ ?_
    rcases hint with (⟨j, -, -, h⟩ | ⟨j, -, -, h⟩) | h
    · exact absurd (hall _) h
    · exact absurd (hall _) h
    · exact absurd (hall _) h
  · intro _ _ _ hlong
    exact ⟨fun h ↦ fun x ↦ hfail h (by decide) _ _, fun _ e ↦ hraise e _ fun _ ↦ .inr hlong⟩
  · intro hdeclared _ _ hshort
    refine hok ?_
    rintro (h | h)
    · exact hdeclared h
    · exact absurd h (Nat.not_lt.mpr hshort)

end Save

end Adapta.Api
