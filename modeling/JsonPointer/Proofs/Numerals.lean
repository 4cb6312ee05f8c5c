import JsonPointer.Number.Numeral
import Mathlib.Data.Nat.Digits.Defs

/-!
# Numerals

A numeral is a text of decimal digits, at least one. `digitsOfNat` writes numbers as numerals and
`natOfDigits` reads them back (`natOfDigits_digitsOfNat`); reading also takes leading zeros, which
count as digits. The number of digits bounds the number that is read, and is bounded by the one that
is written.

A literal is a backslash before a numeral. It is how a text writes a name that consists of digits.

A hexadecimal digit may be written in upper or lower case (`hexValue?_of_toLower`).
-/

namespace JsonPointer
namespace Digits

variable {cs : List Char}

theorem isNumeral_iff : isNumeral cs = true ↔ cs ≠ [] ∧ ∀ c ∈ cs, c.isDigit = true := by
  simp [isNumeral]

/-- A numeral holds no other characters. -/
theorem notMem_of_isNumeral (h : isNumeral cs = true) {c : Char} (hc : c.isDigit = false) :
    c ∉ cs := by
  intro hmem
  rw [(isNumeral_iff.mp h).2 c hmem] at hc
  cases hc

/-! ### Literals -/

/-- Is the text a backslash before a numeral? -/
def isLiteral : List Char → Bool
  | '\\' :: digits => isNumeral digits
  | _ => false

theorem isLiteral_iff : isLiteral cs = true ↔ ∃ digits, cs = '\\' :: digits ∧ isNumeral digits := by
  fun_cases isLiteral cs with
  | case1 digits => simp
  | case2 cs h =>
      simp only [Bool.false_eq_true, false_iff, not_exists, not_and]
      exact fun digits hcs => absurd hcs (h digits)

/-- A numeral starts with a digit, and a literal does not. -/
theorem isLiteral_eq_false_of_isNumeral (h : isNumeral cs = true) : isLiteral cs = false := by
  rw [Bool.eq_false_iff, ne_eq, isLiteral_iff]
  rintro ⟨digits, rfl, _⟩
  exact notMem_of_isNumeral h (by decide) List.mem_cons_self

/-- A literal holds a backslash and digits, but no other characters. -/
theorem notMem_of_isLiteral (h : isLiteral cs = true) {c : Char} (hc : c.isDigit = false)
    (hb : c ≠ '\\') : c ∉ cs := by
  obtain ⟨digits, rfl, hd⟩ := isLiteral_iff.mp h
  rw [List.mem_cons, not_or]
  exact ⟨hb, notMem_of_isNumeral hd hc⟩

/-! ### Writing numbers and reading them -/

theorem digitsOfNat_eq (n : Nat) : digitsOfNat n = Nat.toDigits 10 n := Nat.toList_repr

theorem natOfDigits_eq (cs : List Char) : natOfDigits cs = Nat.ofDigitChars 10 cs 0 := by
  rw [Nat.ofDigitChars_eq_foldl]
  rfl

theorem isNumeral_digitsOfNat (n : Nat) : isNumeral (digitsOfNat n) = true := by
  rw [digitsOfNat_eq, isNumeral_iff]
  exact ⟨Nat.toDigits_ne_nil, fun c hc => Nat.isDigit_of_mem_toDigits (by decide) (by decide) hc⟩

theorem natOfDigits_digitsOfNat (n : Nat) : natOfDigits (digitsOfNat n) = n := by
  rw [natOfDigits_eq, digitsOfNat_eq, Nat.ofDigitChars_ten_toDigits]

theorem length_digitsOfNat_le_iff {n k : Nat} (hk : 0 < k) :
    (digitsOfNat n).length ≤ k ↔ n < tenPow k := by
  rw [digitsOfNat_eq]
  exact Nat.length_toDigits_le_iff (by decide) hk

theorem tenPow_pos (k : Nat) : 0 < tenPow k := Nat.pow_pos (by decide)

theorem tenPow_succ (k : Nat) : tenPow (k + 1) = tenPow k * 10 := rfl

/-- The first digit is worth a power of ten, one factor for every digit behind it. -/
theorem natOfDigits_cons (c : Char) (cs : List Char) :
    natOfDigits (c :: cs) = tenPow cs.length * digitValue c + natOfDigits cs := by
  rw [natOfDigits_eq, natOfDigits_eq, Nat.ofDigitChars_cons, Nat.ofDigitChars_eq_ofDigitChars_zero,
    Nat.mul_zero, Nat.zero_add]
  rfl

theorem digitValue_le {c : Char} (h : c.isDigit = true) : digitValue c ≤ 9 := by
  have h9 : c.toNat ≤ '9'.toNat := (Char.isDigit_iff_toNat.mp h).2
  exact Nat.sub_le_sub_right h9 '0'.toNat

theorem digitValue_eq_zero_iff {c : Char} (h : c.isDigit = true) : digitValue c = 0 ↔ c = '0' := by
  rw [Char.isDigit_iff_toNat] at h
  have h0 : '0'.toNat = 48 := rfl
  rw [digitValue, ← Char.toNat_inj, h0]
  -- the value is a difference that never goes below zero
  omega

/-- A number is below the power of ten for its number of digits. -/
theorem natOfDigits_lt (h : ∀ c ∈ cs, c.isDigit = true) :
    natOfDigits cs < tenPow cs.length := by
  induction cs with
  | nil => decide
  | cons c cs ih =>
      rw [List.forall_mem_cons] at h
      have hc := Nat.mul_le_mul_left (tenPow cs.length) (digitValue_le h.1)
      have hcs := ih h.2
      rw [natOfDigits_cons, List.length_cons, tenPow_succ]
      -- the product with the power is one quantity here, and `hc` bounds it
      omega

theorem natOfDigits_lt_of_length_le {k : Nat} (h : ∀ c ∈ cs, c.isDigit = true)
    (hk : cs.length ≤ k) : natOfDigits cs < tenPow k :=
  Nat.lt_of_lt_of_le (natOfDigits_lt h) (Nat.pow_le_pow_right (by decide) hk)

/-- The bound is met by nines. -/
theorem natOfDigits_replicate_nine (k : Nat) :
    natOfDigits (List.replicate k '9') + 1 = tenPow k := by
  induction k with
  | zero => rfl
  | succ k ih =>
      have hnine : digitValue '9' = 9 := rfl
      rw [List.replicate_succ, natOfDigits_cons, List.length_replicate, hnine, tenPow_succ]
      omega

theorem natOfDigits_eq_zero_iff (h : ∀ c ∈ cs, c.isDigit = true) :
    natOfDigits cs = 0 ↔ ∀ c ∈ cs, c = '0' := by
  induction cs with
  | nil => simp [natOfDigits]
  | cons c cs ih =>
      rw [List.forall_mem_cons] at h ⊢
      rw [natOfDigits_cons, Nat.add_eq_zero_iff, ih h.2, Nat.mul_eq_zero,
        or_iff_right (tenPow_pos _).ne', digitValue_eq_zero_iff h.1]

/-! ### Hexadecimal digits -/

section Hexadecimal

variable {c : Char} {n : Nat}

/-- Only ASCII letters change when they are made small. -/
theorem toNat_lt_of_toLower_ne (h : c.toLower ≠ c) : c.toNat < 128 := by
  have hrange : c.val ≥ 'A'.val ∧ c.val ≤ 'Z'.val := by
    by_contra hn
    exact h (dif_neg hn)
  have hle : c.toNat ≤ 'Z'.toNat := UInt32.le_iff_toNat_le.mp hrange.2
  exact Nat.lt_of_le_of_lt hle (by decide)

/-- The case of a hexadecimal digit does not matter. -/
theorem hexValue?_toLower (c : Char) : hexValue? c.toLower = hexValue? c := by
  by_cases h : c.toLower = c
  · rw [h]
  · -- only the capital letters are left
    have hall : ∀ n < 128, hexValue? (Char.ofNat n).toLower = hexValue? (Char.ofNat n) := by
      decide
    have hc := hall c.toNat (toNat_lt_of_toLower_ne h)
    rwa [Char.ofNat_toNat] at hc

theorem hexValue?_digitChar (h : n < 16) : hexValue? (Nat.digitChar n) = some n := by
  have hall : ∀ n < 16, hexValue? (Nat.digitChar n) = some n := by decide
  exact hall n h

theorem hexValue?_of_toLower (h : c.toLower = Nat.digitChar (n % 16)) :
    hexValue? c = some (n % 16) := by
  rw [← hexValue?_toLower, h, hexValue?_digitChar (Nat.mod_lt _ (by decide))]

end Hexadecimal

end Digits
end JsonPointer
