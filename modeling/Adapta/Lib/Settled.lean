import Adapta.Lib.RoundTrip

/-!
# Settled values

A value that has been read from a text has no field twice, and its floats have the texts that
`repr` gives them.  Such a value is written and read again as it is, if `repr` is stable, that
is, if the text that it gives is the text that it gives for what that text is read as.
-/

namespace Lib

variable {canon : FloatText → FloatText} {s : Str} {v : Json} {toks : List Token}

mutual

/-- No field twice, and floats with their own texts. -/
def Settled (canon : FloatText → FloatText) : Json → Prop
  | .float x => canon x = x
  | .arr l => SettledItems canon l
  | .obj l => (l.map Prod.fst).Nodup ∧ SettledFields canon l
  | .null | .bool _ | .int _ | .str _ => True

def SettledItems (canon : FloatText → FloatText) : List Json → Prop
  | [] => True
  | v :: l => Settled canon v ∧ SettledItems canon l

def SettledFields (canon : FloatText → FloatText) : List (Str × Json) → Prop
  | [] => True
  | (_, v) :: l => Settled canon v ∧ SettledFields canon l

end

theorem settledItems_iff {l : List Json} : SettledItems canon l ↔ ∀ v ∈ l, Settled canon v := by
  induction l with
  | nil => simp [SettledItems]
  | cons v l ih => rw [SettledItems, ih, List.forall_mem_cons]

theorem settledFields_iff {l : Fields} : SettledFields canon l ↔ ∀ x ∈ l, Settled canon x.2 := by
  induction l with
  | nil => simp [SettledFields]
  | cons x l ih => rw [SettledFields, ih, List.forall_mem_cons]

/-! ## Writing and reading -/

/-- Pairs with distinct keys are the fields of their `dict`. -/
theorem ofPairs_eq_self {l : Fields} (h : (l.map Prod.fst).Nodup) : ofPairs l = l := by
  have hfold : ∀ (t d : Fields), ((d ++ t).map Prod.fst).Nodup →
      t.foldl (fun d x ↦ setField d x.1 x.2) d = d ++ t := by
    intro t
    induction t with
    | nil => simp
    | cons x t ih =>
        intro d hd
        -- the key is new
        have hnew : d.any (·.1 = x.1) = false := by
          simp only [List.any_eq_false, decide_eq_true_eq]
          intro y hy heq
          rw [List.map_append, List.nodup_append] at hd
          exact hd.2.2 y.1 (List.mem_map_of_mem hy) x.1 (by simp) heq
        have hset : setField d x.1 x.2 = d ++ [x] := by
          rw [setField, if_neg (by simp [hnew])]
        rw [List.foldl_cons, hset, ih _ (by simpa using hd), List.append_assoc]
        rfl
  exact hfold l [] h

mutual

theorem reload_eq_self (v : Json) (h : Settled canon v) : reload canon false v = v := by
  cases v with
  | null | bool | int => rfl
  | float x => exact congrArg Json.float h
  | str s => rw [reload, reloadStr_false]
  | arr l => rw [reload, reloadItems_eq_self l h]
  | obj l =>
      obtain ⟨hkeys, hfields⟩ := h
      rw [reload, reloadFields_eq_self l hfields, ofPairs_eq_self hkeys]

theorem reloadItems_eq_self (l : List Json) (h : SettledItems canon l) :
    reloadItems canon false l = l := by
  cases l with
  | nil => rfl
  | cons v l =>
      obtain ⟨hv, hl⟩ := h
      rw [reloadItems, reload_eq_self v hv, reloadItems_eq_self l hl]

theorem reloadFields_eq_self (l : List (Str × Json)) (h : SettledFields canon l) :
    reloadFields canon false l = l := by
  cases l with
  | nil => rfl
  | cons x l =>
      obtain ⟨k, v⟩ := x
      obtain ⟨hv, hl⟩ := h
      rw [reloadFields, reloadStr_false, reload_eq_self v hv, reloadFields_eq_self l hl]

end

/-- A settled value is written and read again as it is. -/
theorem loads_dumps_of_settled (h : Settled canon v) : loads canon (dumps false v) = some v := by
  rw [loads_dumps, reload_eq_self v h]

/-! ## What is read is settled -/

/-- What a fold with a partial step preserves. -/
theorem foldlM_preserves {α β : Type} {f : α → β → Option α} {P : α → Prop} {l : List β}
    {a a' : α} (h : l.foldlM f a = some a') (hf : ∀ b ∈ l, ∀ a a', f a b = some a' → P a → P a')
    (ha : P a) : P a' := by
  induction l generalizing a with
  | nil =>
      cases h
      exact ha
  | cons b l ih =>
      rw [List.foldlM_cons] at h
      obtain ⟨a₁, hstep, hrest⟩ := Option.bind_eq_some_iff.mp h
      exact ih hrest (fun b' hb' ↦ hf b' (List.mem_cons_of_mem _ hb'))
        (hf b List.mem_cons_self a a₁ hstep ha)

def Token.Settled (canon : FloatText → FloatText) : Token → Prop
  | .lit v => Lib.Settled canon v
  | _ => True

theorem settled_wordValue (hcanon : ∀ x, canon (canon x) = canon x) {w : List Char}
    (h : wordValue canon w = some v) : Settled canon v := by
  simp only [wordValue] at h
  split at h
  · cases h
    trivial
  split at h
  · cases h
    trivial
  split at h
  · cases h
    trivial
  split at h
  · cases h
    trivial
  split at h
  · cases h
    exact hcanon _
  · cases h

theorem Lex.settled_finish (hcanon : ∀ x, canon (canon x) = canon x) {st : List Token × Lex}
    (h : Lex.finish canon st = some toks) (hst : ∀ t ∈ st.1, t.Settled canon) :
    ∀ t ∈ toks, t.Settled canon := by
  obtain ⟨ts, l⟩ := st
  cases l with
  | idle =>
      cases h
      exact hst
  | word w =>
      obtain ⟨v, hv, rfl⟩ := Option.map_eq_some_iff.mp h
      intro t ht
      rcases List.mem_append.mp ht with ht | ht
      · exact hst t ht
      · rw [List.mem_singleton.mp ht]
        exact settled_wordValue hcanon hv
  | str | esc | hex => cases h

theorem Lex.settled_start {c : Code} {st : List Token × Lex} (h : Lex.start toks c = some st)
    (ht : ∀ t ∈ toks, t.Settled canon) : ∀ t ∈ st.1, t.Settled canon := by
  cases c with
  | surrogate n => cases h
  | char x =>
      simp only [Lex.start] at h
      split at h
      · cases h
        exact ht
      split at h
      · cases h
        exact ht
      split at h
      · cases h
        exact ht
      · obtain ⟨t, hpunct, rfl⟩ := Option.map_eq_some_iff.mp h
        intro t' ht'
        rcases List.mem_append.mp ht' with ht' | ht'
        · exact ht t' ht'
        · -- punctuation is no value
          rw [List.mem_singleton.mp ht']
          simp only [punctuation] at hpunct
          split at hpunct <;> cases hpunct <;> trivial

theorem Lex.settled_step (hcanon : ∀ x, canon (canon x) = canon x) {c : Code}
    {st st' : List Token × Lex} (h : Lex.step canon st c = some st')
    (ht : ∀ t ∈ st.1, t.Settled canon) : ∀ t ∈ st'.1, t.Settled canon := by
  obtain ⟨ts, l⟩ := st
  simp only [Lex.step] at h
  split at h
  · exact Lex.settled_start h ht
  · split at h
    · cases h
      exact ht
    · obtain ⟨toks, hfin, hstart⟩ := Option.bind_eq_some_iff.mp h
      exact Lex.settled_start hstart (Lex.settled_finish hcanon hfin ht)
  · cases h
  · cases h
    intro t ht'
    rcases List.mem_append.mp ht' with ht' | ht'
    · exact ht t ht'
    · rw [List.mem_singleton.mp ht']
      trivial
  · cases h
    exact ht
  · split at h
    · cases h
    · cases h
      exact ht
  · cases h
    exact ht
  · obtain ⟨d, -, rfl⟩ := Option.map_eq_some_iff.mp h
    exact ht
  · cases h
  · obtain ⟨d, -, rfl⟩ := Option.map_eq_some_iff.mp h
    exact ht
  · cases h

theorem settled_lex (hcanon : ∀ x, canon (canon x) = canon x) (h : lex canon s = some toks) :
    ∀ t ∈ toks, t.Settled canon := by
  obtain ⟨st, hrun, hfin⟩ := Option.bind_eq_some_iff.mp h
  apply Lex.settled_finish hcanon hfin
  apply foldlM_preserves (P := fun st ↦ ∀ t ∈ st.1, t.Settled canon) hrun
  · intro c hc st st' hstep hst
    exact Lex.settled_step hcanon hstep hst
  · rintro t ⟨⟩

/-- The fields so far. -/
def SettledObj (canon : FloatText → FloatText) (l : Fields) : Prop := Settled canon (.obj l)

theorem SettledObj.setField {l : Fields} {k : Str} (hl : SettledObj canon l)
    (hv : Settled canon v) : SettledObj canon (setField l k v) := by
  obtain ⟨hkeys, hfields⟩ := hl
  rw [settledFields_iff] at hfields
  rw [Lib.setField]
  split
  · next hany =>
      -- the field is set in its place
      have hmap : (l.map fun x ↦ if x.1 = k then (k, v) else x).map Prod.fst = l.map Prod.fst := by
        rw [List.map_map]
        apply List.map_congr_left
        intro x hx
        by_cases hk : x.1 = k
        · simp [hk]
        · simp [hk]
      refine ⟨hmap ▸ hkeys, settledFields_iff.mpr ?_⟩
      intro y hy
      obtain ⟨x, hx, rfl⟩ := List.mem_map.mp hy
      split
      · exact hv
      · exact hfields x hx
  · next hany =>
      refine ⟨?_, settledFields_iff.mpr ?_⟩
      · rw [List.map_append, List.nodup_append]
        refine ⟨hkeys, by simp, ?_⟩
        intro k₁ hk₁ k₂ hk₂ heq
        obtain ⟨x, hx, rfl⟩ := List.mem_map.mp hk₁
        simp only [List.map_cons, List.map_nil, List.mem_singleton] at hk₂
        exact hany (List.any_eq_true.mpr ⟨x, hx, decide_eq_true (heq.trans hk₂)⟩)
      · intro y hy
        rcases List.mem_append.mp hy with hy | hy
        · exact hfields y hy
        · rw [List.mem_singleton.mp hy]
          exact hv

def Frame.Settled (canon : FloatText → FloatText) : Frame → Prop
  | .arr l => SettledItems canon l
  | .obj l _ => SettledObj canon l

def Expect.Settled (canon : FloatText → FloatText) : Expect → Prop
  | .item l => SettledItems canon l
  | .field l | .key l | .colon l _ => SettledObj canon l
  | .done v => Lib.Settled canon v
  | .value | .firstItem | .firstKey => True

/-- All values the reader holds are settled. -/
structure Reader.Settled (canon : FloatText → FloatText) (r : Reader) : Prop where
  stack : ∀ f ∈ r.stack, f.Settled canon
  now : r.now.Settled canon

namespace Reader

theorem settled_deliver {st : List Frame} (hv : Lib.Settled canon v)
    (hst : ∀ f ∈ st, f.Settled canon) : (deliver v st).Settled canon := by
  cases st with
  | nil => exact ⟨hst, hv⟩
  | cons f st =>
      have hrest : ∀ f ∈ st, f.Settled canon := fun f hf ↦ hst f (List.mem_cons_of_mem _ hf)
      have hf := hst f List.mem_cons_self
      cases f with
      | arr l =>
          refine ⟨hrest, ?_⟩
          rw [deliver, Expect.Settled, settledItems_iff]
          intro w hw
          rcases List.mem_append.mp hw with hw | hw
          · exact settledItems_iff.mp hf w hw
          · rw [List.mem_singleton.mp hw]
            exact hv
      | obj l k => exact ⟨hrest, SettledObj.setField hf hv⟩

theorem settled_begin {st : List Frame} {t : Token} {r : Reader} (h : begin st t = some r)
    (ht : t.Settled canon) (hst : ∀ f ∈ st, f.Settled canon) : r.Settled canon := by
  cases t with
  | lit v =>
      cases h
      exact settled_deliver ht hst
  | str s =>
      cases h
      exact settled_deliver (v := .str s) trivial hst
  | lbrack =>
      cases h
      exact ⟨hst, trivial⟩
  | lbrace =>
      cases h
      exact ⟨hst, trivial⟩
  | rbrack | rbrace | comma | colon => cases h

theorem settled_step {r r' : Reader} {t : Token} (h : step r t = some r')
    (ht : t.Settled canon) (hr : r.Settled canon) : r'.Settled canon := by
  obtain ⟨stack, now⟩ := r
  obtain ⟨hstack, hnow⟩ := hr
  have hnil : SettledObj canon [] := ⟨List.nodup_nil, trivial⟩
  have hcons : ∀ {f : Frame}, f.Settled canon → ∀ g ∈ f :: stack, g.Settled canon := by
    intro f hf g hg
    rcases List.mem_cons.mp hg with rfl | hg
    · exact hf
    · exact hstack g hg
  simp only [step] at h
  split at h
  · exact settled_begin h ht hstack
  · cases h
    exact settled_deliver (v := .arr []) trivial hstack
  · exact settled_begin h ht (hcons (f := .arr []) trivial)
  · cases h
    exact ⟨hcons hnow, trivial⟩
  · cases h
    exact settled_deliver hnow hstack
  · cases h
    exact settled_deliver (v := .obj []) hnil hstack
  · cases h
    exact ⟨hstack, hnil⟩
  · cases h
    exact ⟨hstack, hnow⟩
  · cases h
    exact ⟨hcons hnow, trivial⟩
  · cases h
    exact ⟨hstack, hnow⟩
  · cases h
    exact settled_deliver hnow hstack
  · cases h

end Reader

/-- What is read is settled. -/
theorem settled_loads (hcanon : ∀ x, canon (canon x) = canon x) (h : loads canon s = some v) :
    Settled canon v := by
  obtain ⟨toks, hlex, hread⟩ := Option.bind_eq_some_iff.mp h
  obtain ⟨r, hrun, hresult⟩ := Option.bind_eq_some_iff.mp hread
  have htoks := settled_lex hcanon hlex
  have hr : r.Settled canon := by
    apply foldlM_preserves (P := Reader.Settled canon) hrun
    · intro t ht r r' hstep hr
      exact Reader.settled_step hstep (htoks t ht) hr
    · exact ⟨by rintro f ⟨⟩, trivial⟩
  obtain ⟨stack, now⟩ := r
  cases now with
  | done w =>
      cases hresult
      exact hr.now
  | value | firstItem | item | firstKey | field | key | colon => cases hresult

end Lib
