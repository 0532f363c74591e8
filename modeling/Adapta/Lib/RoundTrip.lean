import Mathlib.Data.List.Induction
import Adapta.Lib.Json

/-!
# Reading what was written

`loads` undoes `dumps` up to what a file of JSON does not keep: the texts of floats,
fields with a repeated key, and, with `ensure_ascii`, surrogates that are next to each
other (`loads_dumps`).  A written value fits on a line (`inline_dumps`), and stripping a
text that can be read changes nothing (`loads_strip`).
-/

namespace Lib

variable {canon : FloatText → FloatText} {ascii : Bool} {toks : List Token} {st : List Token × Lex}

/-! ## Numbers and names -/

theorem isWord_of_isDigit {c : Char} (h : c.isDigit = true) : isWord c = true := by
  simp [isWord, Char.isAlphanum, h]

theorem not_isBlank_of_isWord {c : Char} (h : isWord c = true) : isBlank c = false := by
  cases hb : isBlank c with
  | false => rfl
  | true =>
      simp only [isBlank] at hb
      split at hb <;> revert h <;> first | decide | cases hb

theorem toDigits_head {n : Nat} (h : 0 < n) : (Nat.toDigits 10 n).head? ≠ some '0' := by
  induction n using Nat.strongRecOn with
  | ind n ih =>
      by_cases hn : n < 10
      · have hdigit : ∀ m < 10, 0 < m → [Nat.digitChar m].head? ≠ some '0' := by decide
        rw [Nat.toDigits_of_lt_base hn]
        exact hdigit n hn h
      · have hle : 10 ≤ n := Nat.le_of_not_lt hn
        rw [Nat.toDigits_of_base_le (by decide) hle, List.head?_append_of_ne_nil _
          Nat.toDigits_ne_nil]
        exact ih (n / 10) (by omega) (by omega)

theorem isDigits_toDigits (n : Nat) : isDigits (Nat.toDigits 10 n) = true := by
  have hall : (Nat.toDigits 10 n).all Char.isDigit = true := by
    rw [List.all_eq_true]
    exact fun c hc ↦ Nat.isDigit_of_mem_toDigits (by decide) (by decide) hc
  rw [isDigits, hall]
  rcases Nat.eq_zero_or_pos n with rfl | hn
  · simp
  · simp [Nat.toDigits_ne_nil, toDigits_head hn]

/-- The digits of a number are no sign. -/
theorem toDigits_ne_cons {n : Nat} {c : Char} {w : List Char} (hc : c.isDigit = false) :
    Nat.toDigits 10 n ≠ c :: w := by
  intro h
  have hd := Nat.isDigit_of_mem_toDigits (c := c) (b := 10) (n := n) (by decide) (by decide)
    (h ▸ List.mem_cons_self)
  rw [hc] at hd
  cases hd

theorem unsigned_intText (n : Int) : ∃ m, unsigned (intText n) = Nat.toDigits 10 m := by
  cases n with
  | ofNat n =>
      refine ⟨n, ?_⟩
      rw [intText]
      simp only [unsigned]
      split
      · next heq => exact absurd heq (toDigits_ne_cons (by decide))
      · rfl
  | negSucc n => exact ⟨n + 1, rfl⟩

theorem toInt_intText (n : Int) : toInt (intText n) = n := by
  cases n with
  | ofNat n =>
      rw [intText]
      simp only [toInt]
      split
      · next heq => exact absurd heq (toDigits_ne_cons (by decide))
      · rw [Nat.ofDigitChars_ten_toDigits]
        rfl
  | negSucc n =>
      simp only [intText, toInt, Nat.ofDigitChars_ten_toDigits]
      rfl

theorem wordValue_intText (n : Int) : wordValue canon (intText n) = some (.int n) := by
  obtain ⟨m, hm⟩ := unsigned_intText n
  have hd : isDigits (unsigned (intText n)) = true := hm ▸ isDigits_toDigits m
  have hne : ∀ w, isDigits (unsigned w) = false → intText n ≠ w := by
    rintro w hw rfl
    rw [hd] at hw
    cases hw
  rw [wordValue, if_neg (hne _ (by decide)), if_neg (hne _ (by decide)), if_neg (hne _ (by decide)),
    if_pos hd, toInt_intText]

theorem isWord_intText (n : Int) : (intText n).all isWord = true := by
  have hall : ∀ m, (Nat.toDigits 10 m).all isWord = true := by
    intro m
    rw [List.all_eq_true]
    exact fun c hc ↦ isWord_of_isDigit (Nat.isDigit_of_mem_toDigits (by decide) (by decide) hc)
  cases n with
  | ofNat n => exact hall n
  | negSucc n =>
      rw [intText, List.all_cons, hall]
      rfl

theorem intText_ne_nil (n : Int) : intText n ≠ [] := by
  cases n with
  | ofNat n => exact Nat.toDigits_ne_nil
  | negSucc n => exact List.cons_ne_nil _ _

/-- A float has a fraction, an exponent or a name, so it is no integer. -/
theorem isDigits_of_isFloat {w : List Char} (h : isFloat w = true) :
    isDigits (unsigned w) = false := by
  rw [isFloat, Bool.and_eq_true, Bool.or_eq_true, Bool.and_eq_true] at h
  obtain ⟨-, hname | ⟨-, hf⟩⟩ := h
  · have hnames : ∀ u ∈ floatNames.map String.toList, isDigits (unsigned u) = false := by decide
    exact hnames w (by simpa using hname)
  · cases hd : isDigits (unsigned w) with
    | false => rfl
    | true =>
        rw [isDigits, Bool.and_eq_true, List.all_eq_true] at hd
        rw [List.dropWhile_eq_nil_iff.mpr hd.1] at hf
        cases hf

theorem wordValue_float (x : FloatText) : wordValue canon x.text = some (.float (canon x)) := by
  have hne : ∀ w, isFloat w = false → x.text ≠ w := by
    rintro w hw rfl
    rw [x.ok] at hw
    cases hw
  rw [wordValue, if_neg (hne _ (by decide)), if_neg (hne _ (by decide)), if_neg (hne _ (by decide)),
    if_neg (by simp [isDigits_of_isFloat x.ok]), dif_pos x.ok]

theorem isWord_float (x : FloatText) : x.text.all isWord = true := by
  have h := x.ok
  rw [isFloat, Bool.and_eq_true] at h
  exact h.1

theorem float_ne_nil (x : FloatText) : x.text ≠ [] := by
  intro h
  have hx := x.ok
  rw [h] at hx
  revert hx
  decide

/-! ## Lexing -/

theorem Lex.start_word {c : Char} (h : isWord c = true) :
    Lex.start toks (.char c) = some (toks, .word [c]) := by
  have hq : c ≠ '"' := by
    rintro rfl
    revert h
    decide
  rw [Lex.start, if_neg (by simp [not_isBlank_of_isWord h]), if_neg hq, if_pos h]

theorem Lex.run_word {w : List Char} (hw : w.all isWord = true) (hne : w ≠ []) :
    (w.map Code.char).foldlM (Lex.step canon) (toks, .idle) = some (toks, .word w) := by
  -- a word grows at its end
  have hgrow : ∀ (v u : List Char), v.all isWord = true →
      (v.map Code.char).foldlM (Lex.step canon) (toks, .word u) = some (toks, .word (u ++ v)) := by
    intro v
    induction v with
    | nil => simp
    | cons c v ih =>
        intro u hv
        rw [List.all_cons, Bool.and_eq_true] at hv
        rw [List.map_cons, List.foldlM_cons]
        have hstep : Lex.step canon (toks, .word u) (.char c) = some (toks, .word (u ++ [c])) := by
          simp only [Lex.step, hv.1, if_true]
        rw [hstep, Option.bind_eq_bind, Option.bind_some, ih _ hv.2, List.append_assoc]
        rfl
  cases w with
  | nil => exact absurd rfl hne
  | cons c w =>
      rw [List.all_cons, Bool.and_eq_true] at hw
      rw [List.map_cons, List.foldlM_cons]
      have hstep : Lex.step canon (toks, .idle) (.char c) = some (toks, .word [c]) :=
        Lex.start_word hw.1
      rw [hstep, Option.bind_eq_bind, Option.bind_some, hgrow _ _ hw.2]
      rfl

/-- A token ends before a character that is not of its kind. -/
theorem Lex.step_of_finish (h : Lex.finish canon st = some toks) {c : Char}
    (hc : isWord c = false) : Lex.step canon st (.char c) = Lex.start toks (.char c) := by
  obtain ⟨ts, l⟩ := st
  cases l with
  | idle =>
      cases h
      rfl
  | word w => simp only [Lex.step, hc, Bool.false_eq_true, if_false, h, Option.bind_some]
  | str | esc | hex => cases h

/-! ### Strings -/

/-- What an escaped code point is read as. -/
def parts (ascii : Bool) (c : Code) : List Part :=
  if (shortEscape c).isSome then [.raw c]
  else if c.ord < 0x20 then [.unit c.ord]
  else if ascii && 0x7F ≤ c.ord then
    if c.ord < 0x10000 then [.unit c.ord]
    else
      [.unit (0xD800 + (c.ord - 0x10000) / 0x400), .unit (0xDC00 + (c.ord - 0x10000) % 0x400)]
  else [.raw c]

theorem hexValue_hexDigit : ∀ n < 16, hexValue (hexDigit n) = some n := by decide

theorem Lex.run_unit {l : List Part} {n : Nat} (hn : n < 0x10000) :
    (unitText n).foldlM (Lex.step canon) (toks, .str l) = some (toks, .str (l ++ [.unit n])) := by
  have hd : ∀ m, hexValue (hexDigit (m % 16)) = some (m % 16) :=
    fun m ↦ hexValue_hexDigit _ (Nat.mod_lt _ (by decide))
  have hval :
      16 * (16 * (16 * (16 * 0 + n / 4096 % 16) + n / 256 % 16) + n / 16 % 16) + n % 16 = n := by
    omega
  simp only [unitText, List.foldlM_cons, List.foldlM_nil, Lex.step, hd, Option.map_some,
    Option.bind_eq_bind, Option.bind_some, hval]
  rfl

theorem Lex.run_short {l : List Part} {c : Code} {e : Char} (h : shortEscape c = some e) :
    [Code.char '\\', .char e].foldlM (Lex.step canon) (toks, .str l) =
      some (toks, .str (l ++ [.raw c])) := by
  simp only [shortEscape] at h
  split at h <;> cases h <;> rfl

theorem Code.ord_lt (c : Code) : c.ord < 0x110000 := by
  cases c with
  | char c =>
      have := c.valid
      show c.val.toNat < 0x110000
      omega
  | surrogate n =>
      have := n.isLt
      show 0xD800 + n.val < 0x110000
      omega

theorem Lex.step_str {l : List Part} {c : Code} (hq : c ≠ .char '"') (hb : c ≠ .char '\\')
    (h : ¬c.ord < 0x20) :
    Lex.step canon (toks, .str l) c = some (toks, .str (l ++ [.raw c])) := by
  simp only [Lex.step]
  split <;> simp_all

theorem Lex.run_escape {l : List Part} (c : Code) :
    (escape ascii c).foldlM (Lex.step canon) (toks, .str l) =
      some (toks, .str (l ++ parts ascii c)) := by
  have hlt := c.ord_lt
  simp only [escape, parts]
  split
  · next e he =>
      rw [he]
      exact Lex.run_short he
  next hnone =>
  simp only [hnone, Option.isSome_none, Bool.false_eq_true, if_false]
  split
  · exact Lex.run_unit (by omega)
  next hge =>
  split
  · split
    · next hbmp => exact Lex.run_unit hbmp
    · rw [List.foldlM_append, Lex.run_unit (by omega), Option.bind_eq_bind, Option.bind_some,
        Lex.run_unit (by omega), List.append_assoc]
      rfl
  · -- the code point is written as it is
    have hq : c ≠ .char '"' := by
      rintro rfl
      cases hnone
    have hb : c ≠ .char '\\' := by
      rintro rfl
      cases hnone
    rw [List.foldlM_cons, Lex.step_str hq hb hge]
    rfl

/-- What a written string is read as. -/
def reloadStr (ascii : Bool) (s : Str) : Str := join (s.flatMap (parts ascii))

theorem Lex.run_quote (s : Str) :
    (quote ascii s).foldlM (Lex.step canon) (toks, .idle) =
      some (toks ++ [.str (reloadStr ascii s)], .idle) := by
  have hbody : ∀ (s : Str) (l : List Part),
      (s.flatMap (escape ascii)).foldlM (Lex.step canon) (toks, .str l) =
        some (toks, .str (l ++ s.flatMap (parts ascii))) := by
    intro s
    induction s with
    | nil => simp
    | cons c s ih =>
        intro l
        rw [List.flatMap_cons, List.foldlM_append, Lex.run_escape, Option.bind_eq_bind,
          Option.bind_some, ih, List.append_assoc, List.flatMap_cons]
  have hopen : Lex.step canon (toks, .idle) (.char '"') = some (toks, .str []) := rfl
  rw [quote, List.cons_append, List.foldlM_cons, hopen, Option.bind_eq_bind, Option.bind_some,
    List.foldlM_append, hbody, Option.bind_eq_bind, Option.bind_some]
  rfl

theorem ofUnit_ord {c : Code} (h : c.ord < 0x20) : ofUnit c.ord = c := by
  cases c with
  | char c =>
      have hn : ¬(0xD800 ≤ c.toNat ∧ c.toNat < 0xE000) := by
        have : c.toNat < 0x20 := h
        omega
      simp only [ofUnit, Code.ord, dif_neg hn, Char.ofNat_toNat]
  | surrogate n =>
      have : 0xD800 + n.val < 0x20 := h
      omega

/-- Without `ensure_ascii` a string is read as it was. -/
@[simp] theorem reloadStr_false (s : Str) : reloadStr false s = s := by
  rw [reloadStr]
  induction s with
  | nil => rfl
  | cons c s ih =>
      rw [List.flatMap_cons]
      simp only [parts, Bool.false_and, Bool.false_eq_true, if_false]
      split
      · exact congrArg _ ih
      split
      · next hlt =>
          -- a control character is no surrogate, so it does not pair with what follows
          have hjoin : ∀ l, join (.unit c.ord :: l) = ofUnit c.ord :: join l := by
            intro l
            cases l with
            | nil => rfl
            | cons p l =>
                cases p with
                | raw d => rfl
                | unit n => rw [join, if_neg (by omega)]
          rw [List.singleton_append, hjoin, ofUnit_ord hlt]
          exact congrArg _ ih
      · exact congrArg _ ih

/-! ### Values -/

mutual

/-- The tokens of a written value. -/
def tokens (canon : FloatText → FloatText) (ascii : Bool) : Json → List Token
  | .null => [.lit .null]
  | .bool b => [.lit (.bool b)]
  | .int n => [.lit (.int n)]
  | .float x => [.lit (.float (canon x))]
  | .str s => [.str (reloadStr ascii s)]
  | .arr [] => [.lbrack, .rbrack]
  | .arr (v :: l) => .lbrack :: (tokens canon ascii v ++ tokensItems canon ascii l) ++ [.rbrack]
  | .obj [] => [.lbrace, .rbrace]
  | .obj ((k, v) :: l) =>
      .lbrace :: .str (reloadStr ascii k) :: .colon ::
        (tokens canon ascii v ++ tokensFields canon ascii l) ++ [.rbrace]

def tokensItems (canon : FloatText → FloatText) (ascii : Bool) : List Json → List Token
  | [] => []
  | v :: l => .comma :: (tokens canon ascii v ++ tokensItems canon ascii l)

def tokensFields (canon : FloatText → FloatText) (ascii : Bool) : List (Str × Json) → List Token
  | [] => []
  | (k, v) :: l =>
      .comma :: .str (reloadStr ascii k) :: .colon ::
        (tokens canon ascii v ++ tokensFields canon ascii l)

end

/-- A run that leaves the lexer with the tokens `ts` if the text ends. -/
def Lex.Reads (canon : FloatText → FloatText) (st : List Token × Lex) (s : Str)
    (ts : List Token) : Prop :=
  ∃ st', s.foldlM (Lex.step canon) st = some st' ∧ Lex.finish canon st' = some ts

namespace Lex.Reads

variable {s t : Str} {ts : List Token}

theorem of_run (h : s.foldlM (Lex.step canon) st = some (ts, .idle)) : Reads canon st s ts :=
  ⟨_, h, rfl⟩

theorem append (h : Reads canon st s toks)
    (ht : ∀ st', Lex.finish canon st' = some toks → Reads canon st' t ts) :
    Reads canon st (s ++ t) ts := by
  obtain ⟨st₁, hs, hf⟩ := h
  obtain ⟨st₂, ht, hf₂⟩ := ht st₁ hf
  refine ⟨st₂, ?_, hf₂⟩
  rw [List.foldlM_append, hs]
  exact ht

/-- A character between tokens. -/
theorem cons {c : Char} {ts' : List Token} (h : Lex.finish canon st = some toks)
    (hc : isWord c = false) (hs : Lex.start toks (.char c) = some (ts', .idle))
    (ht : Reads canon (ts', .idle) t ts) : Reads canon st (.char c :: t) ts := by
  obtain ⟨st₁, ht, hf⟩ := ht
  refine ⟨st₁, ?_, hf⟩
  rw [List.foldlM_cons, Lex.step_of_finish h hc, hs]
  exact ht

theorem word {w : List Char} {v : Json} (hw : w.all isWord = true) (hne : w ≠ [])
    (hv : wordValue canon w = some v) :
    Reads canon (toks, .idle) (w.map .char) (toks ++ [.lit v]) :=
  ⟨_, Lex.run_word hw hne, by rw [Lex.finish, hv]; rfl⟩

end Lex.Reads

mutual

/-- The lexer finds the tokens of a written value. -/
theorem Lex.reads_dumps (v : Json) (toks : List Token) :
    Lex.Reads canon (toks, .idle) (dumps ascii v) (toks ++ tokens canon ascii v) := by
  cases v with
  | null => exact .word (w := "null".toList) (by decide) (by decide) rfl
  | bool b =>
      cases b with
      | true => exact .word (w := "true".toList) (by decide) (by decide) rfl
      | false => exact .word (w := "false".toList) (by decide) (by decide) rfl
  | int n => exact .word (isWord_intText n) (intText_ne_nil n) (wordValue_intText n)
  | float x => exact .word (isWord_float x) (float_ne_nil x) (wordValue_float x)
  | str s => exact .of_run (Lex.run_quote s)
  | arr l =>
      cases l with
      | nil => exact .cons rfl rfl rfl (.cons rfl rfl rfl (.of_run (by simp [tokens])))
      | cons v l =>
          rw [dumps, List.cons_append, List.append_assoc]
          refine .cons rfl rfl rfl ?_
          apply (reads_dumps v _).append
          intro st hst
          apply (reads_items l hst).append
          intro st hst
          refine .cons hst rfl rfl (.of_run ?_)
          simp [tokens]
  | obj l =>
      cases l with
      | nil => exact .cons rfl rfl rfl (.cons rfl rfl rfl (.of_run (by simp [tokens])))
      | cons x l =>
          obtain ⟨k, v⟩ := x
          rw [dumps, List.cons_append]
          simp only [List.append_assoc]
          refine .cons rfl rfl rfl ?_
          apply (Lex.Reads.of_run (Lex.run_quote k)).append
          intro st hst
          refine .cons hst rfl rfl (.cons rfl rfl rfl ?_)
          apply (reads_dumps v _).append
          intro st hst
          apply (reads_fields l hst).append
          intro st hst
          refine .cons hst rfl rfl (.of_run ?_)
          simp [tokens]

theorem Lex.reads_items (l : List Json) {toks : List Token} {st : List Token × Lex}
    (h : Lex.finish canon st = some toks) :
    Lex.Reads canon st (dumpsItems ascii l) (toks ++ tokensItems canon ascii l) := by
  cases l with
  | nil => exact ⟨st, rfl, by rw [h, tokensItems, List.append_nil]⟩
  | cons v l =>
      rw [dumpsItems, List.append_assoc]
      refine .cons h rfl rfl (.cons rfl rfl rfl ?_)
      have hv := (reads_dumps v (toks ++ [.comma])).append fun st hst ↦ reads_items l hst
      simpa [tokensItems] using hv

theorem Lex.reads_fields (l : List (Str × Json)) {toks : List Token} {st : List Token × Lex}
    (h : Lex.finish canon st = some toks) :
    Lex.Reads canon st (dumpsFields ascii l) (toks ++ tokensFields canon ascii l) := by
  cases l with
  | nil => exact ⟨st, rfl, by rw [h, tokensFields, List.append_nil]⟩
  | cons x l =>
      obtain ⟨k, v⟩ := x
      rw [dumpsFields, List.append_assoc, List.append_assoc, List.append_assoc]
      refine .cons h rfl rfl (.cons rfl rfl rfl ?_)
      apply (Lex.Reads.of_run (Lex.run_quote k)).append
      intro st hst
      refine .cons hst rfl rfl (.cons rfl rfl rfl ?_)
      have hv := (reads_dumps v (toks ++ [.comma] ++ [.str (reloadStr ascii k)] ++ [.colon])).append
        fun st hst ↦ reads_fields l hst
      simpa [tokensFields] using hv

end

/-! ## Reading -/

/-- The fields of a `dict` that is made from pairs. -/
def ofPairs (l : List (Str × Json)) : Fields := l.foldl (fun d x ↦ setField d x.1 x.2) []

mutual

/-- What a written value is read as. -/
def reload (canon : FloatText → FloatText) (ascii : Bool) : Json → Json
  | .float x => .float (canon x)
  | .str s => .str (reloadStr ascii s)
  | .arr l => .arr (reloadItems canon ascii l)
  | .obj l => .obj (ofPairs (reloadFields canon ascii l))
  | .null => .null
  | .bool b => .bool b
  | .int n => .int n

def reloadItems (canon : FloatText → FloatText) (ascii : Bool) : List Json → List Json
  | [] => []
  | v :: l => reload canon ascii v :: reloadItems canon ascii l

def reloadFields (canon : FloatText → FloatText) (ascii : Bool) :
    List (Str × Json) → List (Str × Json)
  | [] => []
  | (k, v) :: l => (reloadStr ascii k, reload canon ascii v) :: reloadFields canon ascii l

end

/-! ### Dictionaries -/

theorem getField_nil (k : Str) : getField [] k = none := rfl

theorem getField_cons (x : Str × Json) (l : Fields) (k : Str) :
    getField (x :: l) k = if x.1 = k then some x.2 else getField l k := by
  rw [getField, getField, List.find?_cons]
  by_cases h : x.1 = k
  · simp [h]
  · simp [h]

/-- An assignment changes the value of its key and of no other. -/
theorem getField_setField (l : Fields) (k k' : Str) (v : Json) :
    getField (setField l k v) k' = if k = k' then some v else getField l k' := by
  have hset : ∀ l : Fields, getField (l.map fun x ↦ if x.1 = k then (k, v) else x) k' =
      if k = k' then (getField l k').map fun _ ↦ v else getField l k' := by
    intro l
    induction l with
    | nil => simp [getField_nil]
    | cons x l ih =>
        rw [List.map_cons, getField_cons, getField_cons, ih]
        by_cases hx : x.1 = k
        · by_cases hk : k = k'
          · simp [hx, hk]
          · simp [hx, hk]
        · by_cases hk : k = k'
          · have hx' : x.1 ≠ k' := hk ▸ hx
            simp [hk, hx']
          · simp [hx, hk]
  have hadd : ∀ l : Fields, getField (l ++ [(k, v)]) k' =
      (getField l k').or (if k = k' then some v else none) := by
    intro l
    induction l with
    | nil => rw [List.nil_append, getField_cons, getField_nil, Option.none_or]
    | cons x l ih =>
        rw [List.cons_append, getField_cons, getField_cons, ih]
        split
        · rfl
        · rfl
  rw [setField]
  split
  · next hany =>
      rw [hset]
      split
      · next hk =>
          obtain ⟨x, hx, hxk⟩ := List.any_eq_true.mp hany
          have hsome : (l.find? (·.1 = k')).isSome :=
            List.find?_isSome.mpr ⟨x, hx, by simpa [← hk] using hxk⟩
          obtain ⟨y, hy⟩ := Option.isSome_iff_exists.mp hsome
          rw [getField, hy]
          rfl
      · rfl
  · next hany =>
      rw [hadd]
      split
      · next hk =>
          have hnone : getField l k' = none := by
            rw [getField, Option.map_eq_none_iff, List.find?_eq_none]
            intro x hx hxk
            exact hany (List.any_eq_true.mpr ⟨x, hx, by simpa [hk] using hxk⟩)
          rw [hnone, Option.none_or]
      · rw [Option.or_none]

/-- A `dict` made from pairs has for each key the value of the last pair with this key. -/
theorem getField_ofPairs {l : List (Str × Json)} {k : Str} {v : Json}
    (h : getField (ofPairs l) k = some v) :
    ∃ front back, l = front ++ (k, v) :: back ∧ ∀ x ∈ back, x.1 ≠ k := by
  induction l using List.reverseRecOn with
  | nil => cases h
  | append_singleton l x ih =>
      rw [ofPairs, List.foldl_append] at h
      change getField (setField (ofPairs l) x.1 x.2) k = some v at h
      rw [getField_setField] at h
      split at h
      · next hx =>
          cases h
          exact ⟨l, [], by rw [← hx], by simp⟩
      · next hx =>
          obtain ⟨front, back, rfl, hback⟩ := ih h
          refine ⟨front, back ++ [x], by simp, ?_⟩
          simp only [List.mem_append, List.mem_singleton]
          rintro y (hy | rfl)
          · exact hback y hy
          · exact hx

/-- The last pair with a key gives the value. -/
theorem getField_ofPairs_append {front back : List (Str × Json)} {k : Str} {v : Json}
    (hback : ∀ x ∈ back, x.1 ≠ k) : getField (ofPairs (front ++ (k, v) :: back)) k = some v := by
  induction back using List.reverseRecOn with
  | nil =>
      rw [ofPairs, List.foldl_append]
      exact (getField_setField _ _ _ _).trans (if_pos rfl)
  | append_singleton back x ih =>
      rw [← List.cons_append, ← List.append_assoc, ofPairs, List.foldl_append]
      refine (getField_setField _ _ _ _).trans ?_
      rw [if_neg (hback x (by simp))]
      exact ih fun y hy ↦ hback y (List.mem_append_left _ hy)

/-! ### The reader -/

namespace Reader

/-- A value does not begin with a closing bracket. -/
theorem step_firstItem (v : Json) (fs : List Frame) (rest : List Token) :
    (tokens canon ascii v ++ rest).foldlM step ⟨fs, .firstItem⟩ =
      (tokens canon ascii v ++ rest).foldlM step ⟨.arr [] :: fs, .value⟩ := by
  cases v with
  | null | bool | int | float | str => rfl
  | arr l => cases l <;> rfl
  | obj l =>
      cases l with
      | nil => rfl
      | cons x l => rfl

mutual

/-- The reader builds a written value from its tokens. -/
theorem run_tokens (v : Json) (fs : List Frame) (rest : List Token) :
    (tokens canon ascii v ++ rest).foldlM step ⟨fs, .value⟩ =
      rest.foldlM step (deliver (reload canon ascii v) fs) := by
  cases v with
  | null | bool | int | float | str => rfl
  | arr l =>
      cases l with
      | nil => rfl
      | cons v l =>
          have hstep : step ⟨fs, .value⟩ .lbrack = some ⟨fs, .firstItem⟩ := rfl
          rw [tokens, List.cons_append, List.cons_append, List.foldlM_cons, hstep,
            Option.bind_eq_bind, Option.bind_some, List.append_assoc, List.append_assoc,
            step_firstItem, run_tokens, deliver, List.singleton_append, run_items]
          rfl
  | obj l =>
      cases l with
      | nil => rfl
      | cons x l =>
          obtain ⟨k, v⟩ := x
          have hstep : step ⟨fs, .value⟩ .lbrace = some ⟨fs, .firstKey⟩ := rfl
          have hkey : step ⟨fs, .firstKey⟩ (.str (reloadStr ascii k)) =
              some ⟨fs, .colon [] (reloadStr ascii k)⟩ := rfl
          have hcolon : step ⟨fs, .colon [] (reloadStr ascii k)⟩ .colon =
              some ⟨.obj [] (reloadStr ascii k) :: fs, .value⟩ := rfl
          simp only [tokens, List.cons_append, List.foldlM_cons, hstep, hkey, hcolon,
            Option.bind_eq_bind, Option.bind_some, List.append_assoc]
          rw [run_tokens, deliver, run_fields]
          rfl

theorem run_items (l : List Json) (items : List Json) (fs : List Frame) (rest : List Token) :
    (tokensItems canon ascii l ++ .rbrack :: rest).foldlM step ⟨fs, .item items⟩ =
      rest.foldlM step (deliver (.arr (items ++ reloadItems canon ascii l)) fs) := by
  cases l with
  | nil =>
      rw [reloadItems, List.append_nil]
      rfl
  | cons v l =>
      have hstep : step ⟨fs, .item items⟩ .comma = some ⟨.arr items :: fs, .value⟩ := rfl
      rw [tokensItems, List.cons_append, List.foldlM_cons, hstep, Option.bind_eq_bind,
        Option.bind_some, List.append_assoc, run_tokens, deliver, run_items, reloadItems,
        List.append_assoc]
      rfl

theorem run_fields (l : List (Str × Json)) (d : Fields) (fs : List Frame) (rest : List Token) :
    (tokensFields canon ascii l ++ .rbrace :: rest).foldlM step ⟨fs, .field d⟩ =
      rest.foldlM step (deliver (.obj
        ((reloadFields canon ascii l).foldl (fun d x ↦ setField d x.1 x.2) d)) fs) := by
  cases l with
  | nil => rfl
  | cons x l =>
      obtain ⟨k, v⟩ := x
      have hstep : step ⟨fs, .field d⟩ .comma = some ⟨fs, .key d⟩ := rfl
      have hkey : step ⟨fs, .key d⟩ (.str (reloadStr ascii k)) =
          some ⟨fs, .colon d (reloadStr ascii k)⟩ := rfl
      have hcolon : step ⟨fs, .colon d (reloadStr ascii k)⟩ .colon =
          some ⟨.obj d (reloadStr ascii k) :: fs, .value⟩ := rfl
      simp only [tokensFields, List.cons_append, List.foldlM_cons, hstep, hkey, hcolon,
        Option.bind_eq_bind, Option.bind_some, List.append_assoc]
      rw [run_tokens, deliver, run_fields]
      rfl

end

end Reader

/-- **Round trip.** -/
theorem loads_dumps (v : Json) : loads canon (dumps ascii v) = some (reload canon ascii v) := by
  obtain ⟨st, hrun, hfin⟩ : Lex.Reads canon ([], .idle) (dumps ascii v) ([] ++ _) :=
    Lex.reads_dumps v []
  have hread : (tokens canon ascii v ++ []).foldlM Reader.step ⟨[], .value⟩ = _ :=
    Reader.run_tokens v [] []
  rw [List.append_nil] at hread
  rw [loads, lex, hrun, Option.bind_some, hfin, List.nil_append, Option.bind_some, hread]
  rfl

/-! ## One line -/

theorem ord_ge_of_isWord {c : Char} (h : isWord c = true) : 0x20 ≤ (Code.char c).ord := by
  by_contra hlt
  have hall : ∀ n < 0x20, isWord (Char.ofNat n) = false := by decide
  have hc := hall c.toNat (by simpa [Code.ord] using hlt)
  rw [Char.ofNat_toNat, h] at hc
  cases hc

theorem ord_ge_unitText {n : Nat} {c : Code} (h : c ∈ unitText n) : 0x20 ≤ c.ord := by
  have hhex : ∀ m, 0x20 ≤ (Code.char (hexDigit (m % 16))).ord := by
    intro m
    have hall : ∀ d < 16, 0x20 ≤ (Code.char (hexDigit d)).ord := by decide
    exact hall _ (Nat.mod_lt _ (by decide))
  simp only [unitText, List.mem_cons, List.not_mem_nil, or_false] at h
  rcases h with rfl | rfl | rfl | rfl | rfl | rfl
  · decide
  · decide
  all_goals exact hhex _

theorem ord_ge_escape {c d : Code} (h : d ∈ escape ascii c) : 0x20 ≤ d.ord := by
  simp only [escape] at h
  split at h
  · next e he =>
      have hshort : 0x20 ≤ (Code.char e).ord := by
        simp only [shortEscape] at he
        split at he <;> cases he <;> decide
      rcases List.mem_cons.mp h with rfl | h
      · decide
      · rw [List.mem_singleton.mp h]
        exact hshort
  split at h
  · exact ord_ge_unitText h
  next hge =>
  split at h
  · split at h
    · exact ord_ge_unitText h
    · rcases List.mem_append.mp h with h | h <;> exact ord_ge_unitText h
  · rw [List.mem_singleton.mp h]
    exact Nat.le_of_not_lt hge

theorem ord_ge_quote {s : Str} {c : Code} (h : c ∈ quote ascii s) : 0x20 ≤ c.ord := by
  simp only [quote, List.mem_cons, List.mem_append, List.mem_flatMap, List.not_mem_nil,
    or_false, List.cons_append] at h
  rcases h with rfl | ⟨d, -, h⟩ | rfl
  · decide
  · exact ord_ge_escape h
  · decide

mutual

/-- A written value has no control characters. -/
theorem ord_ge_dumps (v : Json) : ∀ c ∈ dumps ascii v, 0x20 ≤ c.ord := by
  intro c hc
  cases v with
  | null =>
      rw [dumps] at hc
      revert c
      decide
  | bool b =>
      cases b <;>
      · rw [dumps] at hc
        revert c
        decide
  | int n =>
      obtain ⟨d, hd, rfl⟩ := List.mem_map.mp hc
      exact ord_ge_of_isWord (List.all_eq_true.mp (isWord_intText n) d hd)
  | float x =>
      obtain ⟨d, hd, rfl⟩ := List.mem_map.mp hc
      exact ord_ge_of_isWord (List.all_eq_true.mp (isWord_float x) d hd)
  | str s => exact ord_ge_quote hc
  | arr l =>
      cases l with
      | nil =>
          rw [dumps] at hc
          revert c
          decide
      | cons v l =>
          simp only [dumps, List.cons_append, List.mem_cons, List.mem_append, List.not_mem_nil,
            or_false] at hc
          rcases hc with rfl | (hc | hc) | rfl
          · decide
          · exact ord_ge_dumps v c hc
          · exact ord_ge_items l c hc
          · decide
  | obj l =>
      cases l with
      | nil =>
          rw [dumps] at hc
          revert c
          decide
      | cons x l =>
          obtain ⟨k, v⟩ := x
          simp only [dumps, List.cons_append, List.mem_cons, List.mem_append, List.not_mem_nil,
            or_false] at hc
          rcases hc with rfl | (((hc | hc) | hc) | hc) | rfl
          · decide
          · exact ord_ge_quote hc
          · revert c
            decide
          · exact ord_ge_dumps v c hc
          · exact ord_ge_fields l c hc
          · decide

theorem ord_ge_items (l : List Json) : ∀ c ∈ dumpsItems ascii l, 0x20 ≤ c.ord := by
  intro c hc
  cases l with
  | nil => cases hc
  | cons v l =>
      simp only [dumpsItems, List.mem_append] at hc
      rcases hc with (hc | hc) | hc
      · revert c
        decide
      · exact ord_ge_dumps v c hc
      · exact ord_ge_items l c hc

theorem ord_ge_fields (l : List (Str × Json)) : ∀ c ∈ dumpsFields ascii l, 0x20 ≤ c.ord := by
  intro c hc
  cases l with
  | nil => cases hc
  | cons x l =>
      obtain ⟨k, v⟩ := x
      simp only [dumpsFields, List.mem_append] at hc
      rcases hc with (((hc | hc) | hc) | hc) | hc
      · revert c
        decide
      · exact ord_ge_quote hc
      · revert c
        decide
      · exact ord_ge_dumps v c hc
      · exact ord_ge_fields l c hc

end

theorem inline_dumps (v : Json) : Inline (dumps ascii v) := by
  intro c hc
  have hge := ord_ge_dumps v c hc
  constructor
  · rintro rfl
    revert hge
    decide
  · rintro rfl
    revert hge
    decide

/-- A written object stands in braces. -/
theorem dumps_obj (ascii : Bool) (l : Fields) :
    ∃ body, dumps ascii (.obj l) = .char '\x7b' :: (body ++ [.char '\x7d']) := by
  cases l with
  | nil => exact ⟨[], by decide +revert⟩
  | cons x l =>
      obtain ⟨k, v⟩ := x
      refine ⟨quote ascii k ++ str ": " ++ dumps ascii v ++ dumpsFields ascii l, ?_⟩
      rw [dumps, List.cons_append]

/-! ## Stripping -/

theorem strip_dumps_obj (l : Fields) : strip (dumps ascii (.obj l)) = dumps ascii (.obj l) := by
  obtain ⟨body, hbody⟩ := dumps_obj ascii l
  rw [hbody]
  exact strip_eq_self (by decide) (by decide)

theorem not_isSpace_of_isWord {c : Char} (h : isWord c = true) : isSpace (.char c) = false := by
  have hrange : (48 ≤ c.toNat ∧ c.toNat ≤ 57) ∨ (65 ≤ c.toNat ∧ c.toNat ≤ 90) ∨
      (97 ≤ c.toNat ∧ c.toNat ≤ 122) ∨ c.toNat = 43 ∨ c.toNat = 45 ∨ c.toNat = 46 := by
    have hupper : c.isUpper = decide (c.val ≥ 'A'.val ∧ c.val ≤ 'Z'.val) := rfl
    have hlower : c.isLower = (c.val ≥ 'a'.val && c.val ≤ 'z'.val) := rfl
    have halpha : c.isAlpha = (c.isUpper || c.isLower) := rfl
    simp only [isWord, Char.isAlphanum, halpha, hupper, hlower, Char.isDigit,
      Bool.or_eq_true, Bool.and_eq_true, decide_eq_true_eq, UInt32.le_iff_toNat_le,
      ge_iff_le] at h
    have hc : c.toNat = c.val.toNat := rfl
    rcases h with ((((h | h) | h) | rfl) | rfl) | rfl
    · exact .inr (.inl h)
    · exact .inr (.inr (.inl h))
    · exact .inl h
    all_goals decide
  have hord : (Code.char c).ord = c.toNat := rfl
  by_contra hs
  simp only [isSpace, Bool.not_eq_false, Bool.or_eq_true, Bool.and_eq_true, decide_eq_true_eq,
    List.mem_cons, List.not_mem_nil, or_false] at hs
  omega

/-- A code point that may stand between tokens. -/
def Code.blank : Code → Bool
  | .char c => isBlank c
  | .surrogate _ => false

/-- Between tokens, what `strip` takes for white space is skipped or an error. -/
theorem Lex.start_space {c : Code} (hc : isSpace c = true) {st' : List Token × Lex}
    (h : Lex.start toks c = some st') : st' = (toks, .idle) ∧ c.blank = true := by
  cases c with
  | surrogate n => cases h
  | char c =>
      have hno : ∀ d : Char, isSpace (.char d) = false → c ≠ d := by
        rintro d hd rfl
        rw [hc] at hd
        cases hd
      have hword : isWord c ≠ true := by
        intro hw
        rw [not_isSpace_of_isWord hw] at hc
        cases hc
      simp only [Lex.start, if_neg (hno '"' (by decide)), if_neg hword] at h
      split at h
      · next hblank =>
          cases h
          exact ⟨rfl, hblank⟩
      obtain ⟨t, ht, -⟩ := Option.map_eq_some_iff.mp h
      simp only [punctuation] at ht
      split at ht
      all_goals first | exact absurd rfl (hno _ (by decide)) | cases ht

/-- White space at the end of a text ends a token, or makes the text an error. -/
theorem Lex.finish_of_space {c : Code} (hc : isSpace c = true) {st' : List Token × Lex}
    (h : Lex.step canon st c = some st') (hf : Lex.finish canon st' = some toks) :
    Lex.finish canon st = some toks ∧ c.blank = true := by
  obtain ⟨ts, l⟩ := st
  cases l with
  | idle =>
      obtain ⟨rfl, hblank⟩ := Lex.start_space hc h
      exact ⟨hf, hblank⟩
  | word w =>
      cases c with
      | surrogate n => cases h
      | char c =>
          have hword : isWord c ≠ true := by
            intro hw
            rw [not_isSpace_of_isWord hw] at hc
            cases hc
          simp only [Lex.step, if_neg hword] at h
          obtain ⟨ts', hts, hstart⟩ := Option.bind_eq_some_iff.mp h
          obtain ⟨rfl, hblank⟩ := Lex.start_space hc hstart
          cases hf
          exact ⟨hts, hblank⟩
  | str l =>
      -- white space does not close a string
      have hno : ∀ d : Code, isSpace d = false → c ≠ d := by
        rintro d hd rfl
        rw [hc] at hd
        cases hd
      have hq := hno (.char '"') (by decide)
      have hb := hno (.char '\\') (by decide)
      by_cases hord : c.ord < 0x20
      · have hnone : Lex.step canon (ts, .str l) c = none := by
          simp only [Lex.step]
          split <;> simp_all
        rw [hnone] at h
        cases h
      · rw [Lex.step_str hq hb hord] at h
        cases h
        cases hf
  | esc l =>
      cases c with
      | surrogate n => cases h
      | char c =>
          simp only [Lex.step] at h
          split at h
          all_goals first
            | contradiction
            | (cases h; cases hf)
            | (obtain ⟨d, -, rfl⟩ := Option.map_eq_some_iff.mp h; cases hf)
  | hex l n v =>
      cases c with
      | surrogate n => cases h
      | char c =>
          obtain ⟨d, hd, rfl⟩ := Option.map_eq_some_iff.mp h
          cases n <;> cases hf

theorem lex_dropWhile {s : Str} (h : lex canon s = some toks) :
    lex canon (s.dropWhile isSpace) = some toks := by
  induction s with
  | nil => exact h
  | cons c s ih =>
      rw [List.dropWhile_cons]
      split
      · next hc =>
          apply ih
          rw [lex, List.foldlM_cons] at h
          obtain ⟨st, hrun, hf⟩ := Option.bind_eq_some_iff.mp h
          obtain ⟨st₁, hstep, hrun⟩ := Option.bind_eq_some_iff.mp hrun
          rw [(Lex.start_space hc hstep).1] at hrun
          rw [lex, hrun]
          exact hf
      · exact h

theorem lex_rdropWhile {s : Str} (h : lex canon s = some toks) :
    lex canon (s.rdropWhile isSpace) = some toks := by
  induction s using List.reverseRecOn with
  | nil => exact h
  | append_singleton s c ih =>
      by_cases hc : isSpace c = true
      · rw [List.rdropWhile_concat_pos _ _ _ hc]
        apply ih
        rw [lex, List.foldlM_append] at h
        obtain ⟨st', hrun, hf⟩ := Option.bind_eq_some_iff.mp h
        obtain ⟨st, hrun, hstep⟩ := Option.bind_eq_some_iff.mp hrun
        rw [lex, hrun]
        refine (Lex.finish_of_space hc ?_ hf).1
        simpa using hstep
      · rw [List.rdropWhile_concat_neg _ _ _ hc]
        exact h

/-- Stripping a text that can be read changes nothing. -/
theorem loads_strip {s : Str} {v : Json} (h : loads canon s = some v) :
    loads canon (strip s) = some v := by
  rw [loads] at h ⊢
  obtain ⟨toks, hlex, hread⟩ := Option.bind_eq_some_iff.mp h
  rw [strip, lex_rdropWhile (lex_dropWhile hlex)]
  exact hread

end Lib
