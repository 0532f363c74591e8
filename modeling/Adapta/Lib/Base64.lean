import Mathlib.Data.List.Basic
import Mathlib.Logic.Function.Basic

/-!
# Base64

Three bytes are written as four digits of six bits; a rest of one or two bytes is filled up with
`=`.  Decoding is strict about the length and the padding, and does not look at the bits that are
left over.

What was encoded is decoded again (`decode_encode`), so different bytes have different texts, all
made of letters, digits, `+`, `/` and `=`.
-/

namespace Lib.Base64

/-- The digit of a value below 64. -/
def digit (n : Nat) : Char :=
  if n < 26 then Char.ofNat (65 + n)
  else if n < 52 then Char.ofNat (71 + n)
  else if n < 62 then Char.ofNat (n - 4)
  else if n = 62 then '+'
  else '/'

/-- The value of a digit. -/
def value (c : Char) : Option Nat :=
  if 'A' ≤ c ∧ c ≤ 'Z' then some (c.toNat - 65)
  else if 'a' ≤ c ∧ c ≤ 'z' then some (c.toNat - 71)
  else if '0' ≤ c ∧ c ≤ '9' then some (c.toNat + 4)
  else if c = '+' then some 62
  else if c = '/' then some 63
  else none

/-- The first digit is made of the first byte, and the others share two bytes or have the rest. -/
def encode : List UInt8 → List Char
  | [] => []
  | [a] => [digit (a.toNat / 4), digit (a.toNat % 4 * 16), '=', '=']
  | [a, b] =>
      [digit (a.toNat / 4), digit (a.toNat % 4 * 16 + b.toNat / 16), digit (b.toNat % 16 * 4), '=']
  | a :: b :: c :: l =>
      digit (a.toNat / 4) :: digit (a.toNat % 4 * 16 + b.toNat / 16) ::
        digit (b.toNat % 16 * 4 + c.toNat / 64) :: digit (c.toNat % 64) :: encode l

/-- The bytes of four values. -/
def bytes (v w x y : Nat) : List UInt8 :=
  [UInt8.ofNat (v * 4 + w / 16), UInt8.ofNat (w % 16 * 16 + x / 4), UInt8.ofNat (x % 4 * 64 + y)]

def decode : List Char → Option (List UInt8)
  | [] => some []
  | a :: b :: c :: d :: l =>
      if d = '=' ∧ l = [] then
        if c = '=' then do
          let v ← value a
          let w ← value b
          some ((bytes v w 0 0).take 1)
        else do
          let v ← value a
          let w ← value b
          let x ← value c
          some ((bytes v w x 0).take 2)
      else do
        let v ← value a
        let w ← value b
        let x ← value c
        let y ← value d
        let rest ← decode l
        some (bytes v w x y ++ rest)
  | _ => none

theorem value_digit {n : Nat} (h : n < 64) : value (digit n) = some n := by
  have hall : ∀ m < 64, value (digit m) = some m := by decide
  exact hall n h

theorem digit_ne_pad {n : Nat} (h : n < 64) : digit n ≠ '=' := by
  have hall : ∀ m < 64, digit m ≠ '=' := by decide
  exact hall n h

/-- The values of the digits give the bytes back. -/
theorem bytes_eq (a b c : UInt8) : bytes (a.toNat / 4) (a.toNat % 4 * 16 + b.toNat / 16)
    (b.toNat % 16 * 4 + c.toNat / 64) (c.toNat % 64) = [a, b, c] := by
  have ha := a.toNat_lt
  have hb := b.toNat_lt
  have hc := c.toNat_lt
  have hfst : a.toNat / 4 * 4 + (a.toNat % 4 * 16 + b.toNat / 16) / 16 = a.toNat := by omega
  have hsnd : (a.toNat % 4 * 16 + b.toNat / 16) % 16 * 16 +
      (b.toNat % 16 * 4 + c.toNat / 64) / 4 = b.toNat := by omega
  have hthd : (b.toNat % 16 * 4 + c.toNat / 64) % 4 * 64 + c.toNat % 64 = c.toNat := by omega
  rw [bytes, hfst, hsnd, hthd, UInt8.ofNat_toNat, UInt8.ofNat_toNat, UInt8.ofNat_toNat]

/-- **What was encoded is decoded again.** -/
theorem decode_encode (l : List UInt8) : decode (encode l) = some l := by
  induction l using encode.induct with
  | case1 => rfl
  | case2 a =>
      have ha := a.toNat_lt
      have hbytes := bytes_eq a 0 0
      simp only [UInt8.toNat_zero, Nat.zero_div, Nat.zero_mod, Nat.zero_mul, Nat.add_zero] at hbytes
      rw [encode, decode, if_pos ⟨rfl, rfl⟩, if_pos rfl, value_digit (by omega),
        value_digit (by omega)]
      simp only [Option.bind_eq_bind, Option.bind_some, hbytes]
      rfl
  | case3 a b =>
      have ha := a.toNat_lt
      have hb := b.toNat_lt
      have hbytes := bytes_eq a b 0
      simp only [UInt8.toNat_zero, Nat.zero_div, Nat.zero_mod, Nat.add_zero] at hbytes
      rw [encode, decode, if_pos ⟨rfl, rfl⟩, if_neg (digit_ne_pad (by omega)),
        value_digit (by omega), value_digit (by omega), value_digit (by omega)]
      simp only [Option.bind_eq_bind, Option.bind_some, hbytes]
      rfl
  | case4 a b c l ih =>
      have ha := a.toNat_lt
      have hb := b.toNat_lt
      have hc := c.toNat_lt
      rw [encode, decode, if_neg fun h ↦ digit_ne_pad (by omega) h.1, value_digit (by omega),
        value_digit (by omega), value_digit (by omega), value_digit (by omega), ih]
      simp only [Option.bind_eq_bind, Option.bind_some, bytes_eq]
      rfl

theorem encode_injective : Function.Injective encode := by
  intro l l' h
  rw [← Option.some_inj, ← decode_encode l, ← decode_encode l', h]

theorem length_encode (l : List UInt8) : (encode l).length = (l.length + 2) / 3 * 4 := by
  induction l using encode.induct with
  | case1 => rfl
  | case2 a => simp [encode]
  | case3 a b => simp [encode]
  | case4 a b c l ih =>
      simp only [encode, List.length_cons, ih]
      omega

theorem toNat_digit {n : Nat} (h : n < 64) : 0 < (digit n).toNat ∧ (digit n).toNat < 128 := by
  have hall : ∀ m < 64, 0 < (digit m).toNat ∧ (digit m).toNat < 128 := by decide
  exact hall n h

/-- The text is ASCII, and has no character zero. -/
theorem toNat_mem_encode {l : List UInt8} {c : Char} (h : c ∈ encode l) :
    0 < c.toNat ∧ c.toNat < 128 := by
  have hpad : 0 < '='.toNat ∧ '='.toNat < 128 := by decide
  induction l using encode.induct with
  | case1 => cases h
  | case2 a =>
      have ha := a.toNat_lt
      simp only [encode, List.mem_cons, List.not_mem_nil, or_false] at h
      rcases h with rfl | rfl | rfl | rfl
      · exact toNat_digit (by omega)
      · exact toNat_digit (by omega)
      · exact hpad
      · exact hpad
  | case3 a b =>
      have ha := a.toNat_lt
      have hb := b.toNat_lt
      simp only [encode, List.mem_cons, List.not_mem_nil, or_false] at h
      rcases h with rfl | rfl | rfl | rfl
      · exact toNat_digit (by omega)
      · exact toNat_digit (by omega)
      · exact toNat_digit (by omega)
      · exact hpad
  | case4 a b d l ih =>
      have ha := a.toNat_lt
      have hb := b.toNat_lt
      have hd := d.toNat_lt
      simp only [encode, List.mem_cons] at h
      rcases h with rfl | rfl | rfl | rfl | h
      · exact toNat_digit (by omega)
      · exact toNat_digit (by omega)
      · exact toNat_digit (by omega)
      · exact toNat_digit (by omega)
      · exact ih h

end Lib.Base64
