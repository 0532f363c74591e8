/-!
# Programs with failing calls

A computation changes a world, and returns or raises; what it has done to the world stays in
either case.  It reaches the world through calls of which each may fail, before it has had its
effect or after.

`wp` is the weakest precondition for a postcondition of each of the two ends.  Each construct
has an equation for it.
-/

universe u v w x

namespace Lib

/-- A computation that returns or raises, and leaves a world behind. -/
def Effect (ε : Type u) (σ : Type v) (α : Type w) : Type (max u v w) := σ → Except ε α × σ

/-- How a call ends. -/
inductive Outcome where
  | ok
  /-- It raises, and has done nothing. -/
  | fails
  /-- It raises, but it has had its effect. -/
  | failsAfter
deriving DecidableEq, Repr

namespace Effect

variable {ε : Type u} {σ : Type v} {α β : Type w}

/-- `pure` leaves the world as it is; `bind` goes on where the first part returned. -/
instance instMonad : Monad (Effect ε σ) where
  pure a := fun s ↦ (.ok a, s)
  bind x f := fun s ↦
    match x s with
    | (.ok a, s') => f a s'
    | (.error e, s') => (.error e, s')

def raise (e : ε) : Effect ε σ α := fun s ↦ (.error e, s)

/-- What a function reads of the world. -/
def gets (f : σ → α) : Effect ε σ α := fun s ↦ (.ok (f s), s)

/-- A result that was computed without the world. -/
def lift (x : Except ε α) : Effect ε σ α := fun s ↦ (x, s)

/-- `try: x`, `except e: h e`. -/
def tryCatch (x : Effect ε σ α) (h : ε → Effect ε σ α) : Effect ε σ α := fun s ↦
  match x s with
  | (.ok a, s') => (.ok a, s')
  | (.error e, s') => h e s'

/-- `try: x`, `except BaseException: cleanup; raise`. -/
def onRaise (x : Effect ε σ α) (cleanup : Effect ε σ PUnit.{w + 1}) : Effect ε σ α :=
  tryCatch x fun e ↦ cleanup >>= fun _ ↦ raise e

/-- A call with the effect `f`, which raises `e` if it fails. -/
def call (o : Outcome) (e : ε) (f : σ → σ) : Effect ε σ PUnit.{w + 1} := fun s ↦
  match o with
  | .ok => (.ok ⟨⟩, f s)
  | .fails => (.error e, s)
  | .failsAfter => (.error e, f s)

/-- A call that changes nothing of the world. -/
def ask (o : Outcome) (e : ε) : Effect ε σ PUnit.{w + 1} := call o e id

/-- A call whose errors are ignored. -/
def quiet (o : Outcome) (f : σ → σ) : Effect ε σ PUnit.{w + 1} := fun s ↦
  match o with
  | .ok | .failsAfter => (.ok ⟨⟩, f s)
  | .fails => (.ok ⟨⟩, s)

/-- A context manager: the call that closes it is made in any case, and its error prevails. -/
def closing (o : Outcome) (e : ε) (x : Effect ε σ α) : Effect ε σ α :=
  onRaise x (ask o e) >>= fun a ↦ ask.{u, v, w} o e >>= fun _ ↦ pure a

/-- A computation on a part of the world. -/
def zoom {τ : Type x} (get : σ → τ) (put : τ → σ → σ) (m : Effect ε τ α) : Effect ε σ α :=
  fun s ↦ ((m (get s)).1, put (m (get s)).2 s)

/-! ## Weakest preconditions -/

/-- If the computation returns, `Q` holds then, and if it raises, `E`. -/
def wp (m : Effect ε σ α) (Q : α → σ → Prop) (E : ε → σ → Prop) (s : σ) : Prop :=
  match m s with
  | (.ok a, s') => Q a s'
  | (.error e, s') => E e s'

variable {m : Effect ε σ α} {Q Q' : α → σ → Prop} {E E' : ε → σ → Prop} {s : σ}

@[simp] theorem wp_pure (a : α) : wp (pure a : Effect ε σ α) Q E = Q a := rfl

@[simp] theorem wp_raise (e : ε) : wp (raise e : Effect ε σ α) Q E = E e := rfl

@[simp] theorem wp_gets (f : σ → α) :
    wp (gets f : Effect ε σ α) Q E = fun s ↦ Q (f s) s := rfl

@[simp] theorem wp_lift_ok (a : α) : wp (lift (.ok a) : Effect ε σ α) Q E = Q a := rfl

@[simp] theorem wp_lift_error (e : ε) : wp (lift (.error e) : Effect ε σ α) Q E = E e := rfl

@[simp] theorem wp_bind (f : α → Effect ε σ β) {Q : β → σ → Prop} :
    wp (m >>= f) Q E = wp m (fun a ↦ wp (f a) Q E) E := by
  funext s
  have hbind : (m >>= f) s = match m s with
    | (.ok a, s') => f a s'
    | (.error e, s') => (.error e, s') := rfl
  rw [wp, wp, hbind]
  rcases m s with ⟨e | a, s'⟩
  · rfl
  · rfl

@[simp] theorem wp_tryCatch (h : ε → Effect ε σ α) :
    wp (tryCatch m h) Q E = wp m Q (fun e ↦ wp (h e) Q E) := by
  funext s
  rw [wp, wp, tryCatch]
  rcases m s with ⟨e | a, s'⟩
  · rfl
  · rfl

@[simp] theorem wp_onRaise (cleanup : Effect ε σ PUnit.{w + 1}) :
    wp (onRaise m cleanup) Q E = wp m Q (fun e ↦ wp cleanup (fun _ ↦ E e) E) := by
  rw [onRaise, wp_tryCatch]
  simp only [wp_bind, wp_raise]

@[simp] theorem wp_call {o : Outcome} {e : ε} {f : σ → σ} {Q : PUnit.{w + 1} → σ → Prop} :
    wp (call o e f) Q E = fun s ↦
      (o = .ok → Q ⟨⟩ (f s)) ∧ (o = .fails → E e s) ∧ (o = .failsAfter → E e (f s)) := by
  funext s
  cases o with
  | ok => simp [wp, call]
  | fails => simp [wp, call]
  | failsAfter => simp [wp, call]

@[simp] theorem wp_quiet {o : Outcome} {f : σ → σ} {Q : PUnit.{w + 1} → σ → Prop} :
    wp (quiet o f) Q E = fun s ↦ (o ≠ .fails → Q ⟨⟩ (f s)) ∧ (o = .fails → Q ⟨⟩ s) := by
  funext s
  cases o with
  | ok => simp [wp, quiet]
  | fails => simp [wp, quiet]
  | failsAfter => simp [wp, quiet]

@[simp] theorem wp_ask {o : Outcome} {e : ε} {Q : PUnit.{w + 1} → σ → Prop} :
    wp (ask o e) Q E = fun s ↦ (o = .ok → Q ⟨⟩ s) ∧ (o ≠ .ok → E e s) := by
  funext s
  cases o with
  | ok => simp [ask]
  | fails => simp [ask]
  | failsAfter => simp [ask]

@[simp] theorem wp_closing {o : Outcome} {e : ε} :
    wp (closing o e m) Q E =
      wp m (fun a s ↦ (o = .ok → Q a s) ∧ (o ≠ .ok → E e s))
        (fun e' s ↦ (o = .ok → E e' s) ∧ (o ≠ .ok → E e s)) := by
  rw [closing, wp_bind, wp_onRaise]
  simp only [wp_bind, wp_ask, wp_pure]

@[simp] theorem wp_zoom {τ : Type x} {get : σ → τ} {put : τ → σ → σ} {m : Effect ε τ α} :
    wp (zoom get put m) Q E = fun s ↦
      wp m (fun a t ↦ Q a (put t s)) (fun e t ↦ E e (put t s)) (get s) := by
  funext s
  rw [wp, wp, zoom]
  rcases m (get s) with ⟨e | a, t⟩
  · rfl
  · rfl

/-- Weaker postconditions. -/
theorem wp_mono (h : wp m Q E s) (hQ : ∀ a s', Q a s' → Q' a s') (hE : ∀ e s', E e s' → E' e s') :
    wp m Q' E' s := by
  rw [wp] at h ⊢
  revert h
  rcases m s with ⟨e | a, s'⟩
  · exact hE e s'
  · exact hQ a s'

/-- What holds at either end holds of the world that is left. -/
theorem wp_final {P : σ → Prop} : wp m (fun _ ↦ P) (fun _ ↦ P) s ↔ P (m s).2 := by
  rw [wp]
  rcases m s with ⟨e | a, s'⟩
  · rfl
  · rfl

/-- The two ends of a run. -/
theorem run_of_wp (h : wp m Q E s) :
    (∃ a s', m s = (.ok a, s') ∧ Q a s') ∨ ∃ e s', m s = (.error e, s') ∧ E e s' := by
  rw [wp] at h
  revert h
  rcases m s with ⟨e | a, s'⟩
  · exact fun h ↦ .inr ⟨e, s', rfl, h⟩
  · exact fun h ↦ .inl ⟨a, s', rfl, h⟩

end Effect

end Lib
