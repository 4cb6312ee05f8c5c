import Mathlib.Algebra.Order.Field.Power
import Mathlib.Algebra.Order.Field.Rat
import Mathlib.Data.Rat.Cast.Order
import Mathlib.Tactic.FieldSimp
import Mathlib.Tactic.Linarith
import Mathlib.Tactic.NormNum
import Mathlib.Tactic.Positivity
import Mathlib.Tactic.Ring
import JsonPointer.Number.Decimal

/-!
# Rounding to a binary format

`FloatFormat.round` works with logarithms and quotients of natural numbers. Here its result is
compared with the exact quotient, a rational number: `FloatFormat.round_isNearest` says that no
value of the format is nearer, and that of two nearest ones it is the even one.
-/

namespace JsonPointer

/-! ### Powers of two -/

@[simp] theorem cast_twoPow (n : Nat) : (twoPow n : ℚ) = 2 ^ n := Nat.cast_pow 2 n

theorem two_zpow_pos (q : Int) : (0 : ℚ) < 2 ^ q := zpow_pos (by norm_num) q

theorem two_zpow_le {p q : Int} (h : p ≤ q) : (2 : ℚ) ^ p ≤ 2 ^ q :=
  zpow_le_zpow_right₀ (by norm_num) h

theorem two_zpow_add (p q : Int) : (2 : ℚ) ^ (p + q) = 2 ^ p * 2 ^ q := zpow_add₀ (by norm_num) p q

/-- A power with an integer exponent, as a quotient of powers with natural ones. -/
theorem zpow_eq_div (b : ℚ) (q : Int) : b ^ q = b ^ q.toNat / b ^ (-q).toNat := by
  rcases Int.le_total 0 q with h | h
  · obtain ⟨n, rfl⟩ := Int.eq_ofNat_of_zero_le h
    simp
  · obtain ⟨n, hn⟩ := Int.eq_ofNat_of_zero_le (Int.neg_nonneg_of_nonpos h)
    obtain rfl : q = -(n : Int) := by omega
    simp

/-! ### The nearest natural number -/

variable {num den : Nat}

/-- The quotient, split into the natural number below it and a remainder less than one. -/
theorem div_eq_add_rem (hden : 0 < den) :
    (num / den : ℚ) = (num / den : Nat) + (num % den : Nat) / (den : ℚ) := by
  have hd : (den : ℚ) ≠ 0 := by positivity
  have hsplit : (num : ℚ) = den * (num / den : Nat) + (num % den : Nat) := by
    exact_mod_cast (Nat.div_add_mod num den).symm
  field_simp
  linarith

/-- The rounded quotient is within a half of the quotient, and even if it is half way. -/
theorem roundQuotient_dist (num : Nat) (hden : 0 < den) :
    |(roundQuotient num den : ℚ) - num / den| ≤ 1 / 2 ∧
      (|(roundQuotient num den : ℚ) - num / den| = 1 / 2 → roundQuotient num den % 2 = 0) := by
  have hd : (0 : ℚ) < den := by exact_mod_cast hden
  rw [div_eq_add_rem hden]
  have hrem : ((num % den : Nat) / den : ℚ) * den = (num % den : Nat) := div_mul_cancel₀ _ hd.ne'
  have h0 : (0 : ℚ) ≤ (num % den : Nat) / den := by positivity
  -- `t` is the part behind the point
  generalize ((num % den : Nat) / den : ℚ) = t at hrem h0
  unfold roundQuotient
  dsimp only
  split
  · next hlt =>
    have hlt : (2 : ℚ) * (num % den : Nat) < den := by exact_mod_cast hlt
    have ht : t < 1 / 2 := by nlinarith
    rw [sub_add_cancel_left, abs_neg, abs_of_nonneg h0]
    exact ⟨ht.le, fun h => absurd h ht.ne⟩
  · split
    · next hlt =>
      have hlt : (den : ℚ) < 2 * (num % den : Nat) := by exact_mod_cast hlt
      have hlt' : ((num % den : Nat) : ℚ) < den := by exact_mod_cast Nat.mod_lt num hden
      have ht : 1 / 2 < t := by nlinarith
      have ht' : t < 1 := by nlinarith
      have hdist : |((num / den + 1 : Nat) : ℚ) - ((num / den : Nat) + t)| = 1 - t := by
        rw [Nat.cast_add, Nat.cast_one, add_sub_add_left_eq_sub, abs_of_pos (by linarith)]
      rw [hdist]
      exact ⟨by linarith, fun h => absurd h (by linarith)⟩
    · next hle hge =>
      have heq : (2 : ℚ) * (num % den : Nat) = den := by
        exact_mod_cast Nat.le_antisymm (Nat.le_of_not_lt hge) (Nat.le_of_not_lt hle)
      have ht : t = 1 / 2 := by nlinarith
      -- exactly half way: one of the two neighbours is even
      rcases Nat.mod_two_eq_zero_or_one (num / den) with h | h
      · rw [h, ht, Nat.add_zero, sub_add_cancel_left]
        norm_num [h]
      · rw [h, ht]
        have hdist : |((num / den + 1 : Nat) : ℚ) - ((num / den : Nat) + 1 / 2)| = 1 / 2 := by
          rw [Nat.cast_add, Nat.cast_one, add_sub_add_left_eq_sub]
          norm_num
        rw [hdist]
        exact ⟨le_refl _, fun _ => by omega⟩

/-- An integer within a half is nearest. -/
theorem dist_le_of_half {m : Int} {x : ℚ} (h : |m - x| ≤ 1 / 2) (k : Int) :
    |(m : ℚ) - x| ≤ |k - x| ∧ (k ≠ m → |(m : ℚ) - x| = |k - x| → |(m : ℚ) - x| = 1 / 2) := by
  by_cases hk : k = m
  · subst hk
    exact ⟨le_refl _, fun hne => absurd rfl hne⟩
  · have hone : (1 : ℚ) ≤ |(k : ℚ) - m| := by
      exact_mod_cast Int.one_le_abs (sub_ne_zero.mpr hk)
    have htriangle : |(k : ℚ) - m| ≤ |k - x| + |(m : ℚ) - x| := by
      rw [abs_sub_comm (m : ℚ) x]
      exact abs_sub_le _ _ _
    exact ⟨by linarith, fun _ heq => by linarith⟩

/-! ### The exponent -/

namespace FloatFormat

theorem scaled_pos (num : Nat) (hden : 0 < den) (q : Int) : 0 < (scaled num den q).2 :=
  Nat.mul_pos hden (Nat.pow_pos (by omega))

theorem scaled_div (hden : 0 < den) (q : Int) :
    ((scaled num den q).1 / (scaled num den q).2 : ℚ) = num / den / 2 ^ q := by
  have hd : (den : ℚ) ≠ 0 := by positivity
  rw [zpow_eq_div]
  simp only [scaled, Nat.cast_mul, cast_twoPow]
  field_simp

/-- The logarithms of a quotient's terms leave a choice of two powers of two below it. -/
theorem log2_bounds (hnum : num ≠ 0) (hden : den ≠ 0) :
    (2 : ℚ) ^ ((num.log2 : Int) - den.log2 - 1) < num / den ∧
      (num / den : ℚ) < 2 ^ ((num.log2 : Int) - den.log2 + 1) := by
  have hd : (0 : ℚ) < den := by positivity
  have hnum₁ : (2 : ℚ) ^ (num.log2 : Int) ≤ num := by
    exact_mod_cast Nat.log2_self_le hnum
  have hnum₂ : (num : ℚ) < 2 ^ ((num.log2 : Int) + 1) := by
    exact_mod_cast Nat.lt_log2_self
  have hden₁ : (2 : ℚ) ^ (den.log2 : Int) ≤ den := by
    exact_mod_cast Nat.log2_self_le hden
  have hden₂ : (den : ℚ) < 2 ^ ((den.log2 : Int) + 1) := by
    exact_mod_cast Nat.lt_log2_self
  constructor
  · rw [lt_div_iff₀ hd]
    calc (2 : ℚ) ^ ((num.log2 : Int) - den.log2 - 1) * den
        < 2 ^ ((num.log2 : Int) - den.log2 - 1) * 2 ^ ((den.log2 : Int) + 1) :=
          mul_lt_mul_of_pos_left hden₂ (two_zpow_pos _)
      _ = 2 ^ (num.log2 : Int) := by rw [← two_zpow_add]; congr 1; ring
      _ ≤ num := hnum₁
  · rw [div_lt_iff₀ hd]
    calc (num : ℚ) < 2 ^ ((num.log2 : Int) + 1) := hnum₂
      _ = 2 ^ ((num.log2 : Int) - den.log2 + 1) * 2 ^ (den.log2 : Int) := by
          rw [← two_zpow_add]; congr 1; ring
      _ ≤ 2 ^ ((num.log2 : Int) - den.log2 + 1) * den :=
          mul_le_mul_of_nonneg_left hden₁ (two_zpow_pos _).le

/-- The comparison of natural numbers that the exponent depends on, as one of the quotient with a
power of two. -/
theorem scaled_le_iff (num n : Nat) (hden : 0 < den) (q : Int) :
    (scaled num den q).2 * twoPow n ≤ (scaled num den q).1 ↔ (2 : ℚ) ^ (q + n) ≤ num / den := by
  have hs : (0 : ℚ) < (scaled num den q).2 := by exact_mod_cast scaled_pos num hden q
  -- divide by the denominator on both sides
  rw [two_zpow_add, ← le_div_iff₀' (two_zpow_pos q), ← scaled_div hden, le_div_iff₀' hs,
    zpow_natCast, ← cast_twoPow]
  exact_mod_cast Iff.rfl

/-- Apart from the least exponent, the exponent is the one at which the quotient has the bits of the
format. -/
theorem exists_fitting (f : FloatFormat) (hnum : num ≠ 0) (hden : den ≠ 0) :
    ∃ q : Int, f.exponentOf num den = (if q < f.minExponent then f.minExponent else q) ∧
      (num / den : ℚ) < 2 ^ (q + f.precision) ∧
      (2 : ℚ) ^ (q + f.precision - 1) ≤ num / den := by
  obtain ⟨hlow, hhigh⟩ := log2_bounds hnum hden
  have hcompare := scaled_le_iff num f.precision (Nat.pos_of_ne_zero hden)
    ((num.log2 : Int) - den.log2 - f.precision)
  refine ⟨_, rfl, ?_⟩
  -- the comparison decides between the two exponents that the logarithms leave
  split
  · next h =>
    refine ⟨lt_of_lt_of_le hhigh (two_zpow_le (by omega)), ?_⟩
    apply le_trans _ (hcompare.mp h)
    exact two_zpow_le (by omega)
  · next h =>
    refine ⟨lt_of_not_ge fun hle => h (hcompare.mpr hle), ?_⟩
    apply le_trans _ hlow.le
    exact two_zpow_le (by omega)

/-- The exponent leaves the quotient no more bits than the format has, and makes use of all of them
unless it is the least one. -/
theorem exponentOf_spec (f : FloatFormat) (hnum : num ≠ 0) (hden : den ≠ 0) :
    f.minExponent ≤ f.exponentOf num den ∧
    (num / den : ℚ) < 2 ^ (f.exponentOf num den + f.precision) ∧
    (f.exponentOf num den = f.minExponent ∨
      (2 : ℚ) ^ (f.exponentOf num den + f.precision - 1) ≤ num / den) := by
  obtain ⟨q, hq, hlt, hge⟩ := f.exists_fitting hnum hden
  rw [hq]
  split
  · next h => exact ⟨Int.le_refl _, lt_of_lt_of_le hlt (two_zpow_le (by omega)), .inl rfl⟩
  · next h => exact ⟨by omega, hlt, .inr hge⟩

/-! ### The significand -/

/-- The natural number `m` is the quotient `r / 2 ^ q` rounded, at the exponent that the format has
for `r`. It may have one bit too many, as the next power of two. -/
structure IsSignificand (f : FloatFormat) (r : ℚ) (q : Int) (m : Nat) : Prop where
  minExponent_le : f.minExponent ≤ q
  lt : r / 2 ^ q < 2 ^ f.precision
  normal : q = f.minExponent ∨ (2 : ℚ) ^ (f.precision - 1) ≤ r / 2 ^ q
  dist : |(m : ℚ) - r / 2 ^ q| ≤ 1 / 2
  even : |(m : ℚ) - r / 2 ^ q| = 1 / 2 → m % 2 = 0

/-- At the exponent of the format, the rounded quotient is a significand. -/
theorem isSignificand_roundQuotient (f : FloatFormat) (hP : 0 < f.precision) (hnum : num ≠ 0)
    (hden : 0 < den) :
    f.IsSignificand (num / den) (f.exponentOf num den)
      (roundQuotient (scaled num den (f.exponentOf num den)).1
        (scaled num den (f.exponentOf num den)).2) := by
  obtain ⟨hmin, hlt, hnormal⟩ := f.exponentOf_spec hnum hden.ne'
  generalize f.exponentOf num den = q at hmin hlt hnormal
  have hround := roundQuotient_dist (scaled num den q).1 (scaled_pos num hden q)
  rw [scaled_div hden] at hround
  refine ⟨hmin, ?_, ?_, hround.1, hround.2⟩
  · rw [div_lt_iff₀' (two_zpow_pos q), ← zpow_natCast, ← two_zpow_add]
    exact hlt
  · refine hnormal.imp_right fun hle => ?_
    rw [le_div_iff₀' (two_zpow_pos q), ← zpow_natCast, ← two_zpow_add]
    have he : q + ((f.precision - 1 : Nat) : Int) = q + f.precision - 1 := by omega
    rw [he]
    exact hle

namespace IsSignificand

variable {f : FloatFormat} {r : ℚ} {q : Int} {m : Nat}

theorem le_twoPow (h : f.IsSignificand r q m) : m ≤ twoPow f.precision := by
  have hdist := abs_le.mp h.dist
  have hm : (m : ℚ) < (twoPow f.precision + 1 : Nat) := by
    push_cast
    rw [cast_twoPow]
    linarith [h.lt]
  exact Nat.le_of_lt_succ (by exact_mod_cast hm)

/-- It has the full length unless the exponent is the least one. -/
theorem twoPow_le (h : f.IsSignificand r q m) :
    twoPow (f.precision - 1) ≤ m ∨ q = f.minExponent := by
  refine h.normal.symm.imp_left fun hle => ?_
  have hdist := abs_le.mp h.dist
  have hm : ((twoPow (f.precision - 1) : Nat) : ℚ) < (m + 1 : Nat) := by
    push_cast
    rw [cast_twoPow]
    linarith
  exact Nat.le_of_lt_succ (by exact_mod_cast hm)

theorem abs_sub_eq (m : ℚ) (r : ℚ) (q : Int) : |m * 2 ^ q - r| = |m - r / 2 ^ q| * 2 ^ q := by
  have hq := two_zpow_pos q
  rw [← abs_of_pos hq, ← abs_mul, abs_of_pos hq, sub_mul, div_mul_cancel₀ _ hq.ne']

/-- No number with as many bits is nearer. If another one is as near, the significand is even. -/
theorem dist_le (hP : 0 < f.precision) (h : f.IsSignificand r q m) {k j : Int}
    (hk : |k| < twoPow f.precision) (hj : f.minExponent ≤ j) :
    |m * 2 ^ q - r| ≤ |k * 2 ^ j - r| ∧
      ((k : ℚ) * 2 ^ j ≠ m * 2 ^ q → |m * 2 ^ q - r| = |k * 2 ^ j - r| → m % 2 = 0) := by
  have hq := two_zpow_pos q
  have hdist : |((m : Int) : ℚ) - r / 2 ^ q| ≤ 1 / 2 := h.dist
  rcases lt_or_ge j q with hjq | hqj
  · -- below the power of two that is the least significand of full length, which is not nearer
    have hnormal : (2 : ℚ) ^ (f.precision - 1) ≤ r / 2 ^ q := h.normal.resolve_left (by omega)
    have hless : (k : ℚ) * 2 ^ j < 2 ^ (f.precision - 1) * 2 ^ q := by
      have hk' : (k : ℚ) < 2 ^ f.precision := by
        rw [← cast_twoPow]
        exact_mod_cast (le_abs_self k).trans_lt hk
      calc (k : ℚ) * 2 ^ j < 2 ^ f.precision * 2 ^ j := mul_lt_mul_of_pos_right hk' (two_zpow_pos j)
        _ = 2 ^ (f.precision - 1) * 2 ^ (j + 1) := by
            rw [← zpow_natCast, ← zpow_natCast, ← two_zpow_add, ← two_zpow_add]
            congr 1
            omega
        _ ≤ 2 ^ (f.precision - 1) * 2 ^ q :=
            mul_le_mul_of_nonneg_left (two_zpow_le (by omega)) (by positivity)
    have hbound := (dist_le_of_half hdist (2 ^ (f.precision - 1))).1
    push_cast at hbound
    rw [abs_of_nonpos (sub_nonpos.mpr hnormal)] at hbound
    have hstrict : |m * 2 ^ q - r| < |k * 2 ^ j - r| :=
      calc |(m : ℚ) * 2 ^ q - r| = |m - r / 2 ^ q| * 2 ^ q := abs_sub_eq m r q
        _ ≤ -(2 ^ (f.precision - 1) - r / 2 ^ q) * 2 ^ q := mul_le_mul_of_nonneg_right hbound hq.le
        _ = -(2 ^ (f.precision - 1) * 2 ^ q - r) := by field_simp
        _ < -(k * 2 ^ j - r) := by linarith
        _ ≤ |k * 2 ^ j - r| := neg_le_abs _
    exact ⟨hstrict.le, fun _ heq => absurd heq hstrict.ne⟩
  · -- a multiple of `2 ^ q`
    obtain ⟨n, hn⟩ := Int.eq_ofNat_of_zero_le (Int.sub_nonneg_of_le hqj)
    obtain rfl : j = n + q := by omega
    have hmultiple : (k : ℚ) * 2 ^ ((n : Int) + q) = (k * 2 ^ n : Int) * 2 ^ q := by
      rw [two_zpow_add, zpow_natCast]
      push_cast
      ring
    rw [hmultiple, abs_sub_eq, abs_sub_eq, mul_le_mul_iff_left₀ hq]
    obtain ⟨hle, htie⟩ := dist_le_of_half hdist (k * 2 ^ n)
    refine ⟨hle, fun hne heq => h.even (htie ?_ (mul_right_cancel₀ hq.ne' heq))⟩
    intro heq
    exact hne (by rw [heq]; rfl)

end IsSignificand

/-! ### Nearest values -/

/-- The values of the format: those of its canonical pairs, with either sign. -/
def Represents (f : FloatFormat) (x : ℚ) : Prop :=
  ∃ (m : Nat) (q : Int), f.IsCanonical m q ∧ |x| = m * 2 ^ q

/-- No value of the format is nearer to `r` than `x`, and if another one is as near, the significand
of `x` is even. -/
structure IsNearest (f : FloatFormat) (r x : ℚ) : Prop where
  represents : f.Represents x
  dist_le : ∀ y, f.Represents y → |x - r| ≤ |y - r|
  even : ∀ y, f.Represents y → y ≠ x → |x - r| = |y - r| →
    ∃ (m : Nat) (q : Int), f.IsCanonical m q ∧ |x| = m * 2 ^ q ∧ m % 2 = 0

/-- Half way from the greatest value of the format to the next power of two. From there on numbers
are too great for the format. -/
def overflow (f : FloatFormat) : ℚ := (2 ^ f.precision - 1 / 2) * 2 ^ f.maxExponent

/-- The significands have at least two bits, and there is an exponent for them. -/
structure IsProper (f : FloatFormat) : Prop where
  two_le_precision : 2 ≤ f.precision
  minExponent_le : f.minExponent ≤ f.maxExponent

theorem isProper_double : double.IsProper := ⟨by decide, by decide⟩

theorem isProper_single : single.IsProper := ⟨by decide, by decide⟩

variable {f : FloatFormat} {r x : ℚ}

theorem Represents.neg (h : f.Represents x) : f.Represents (-x) := by
  obtain ⟨m, q, hc, hx⟩ := h
  exact ⟨m, q, hc, (abs_neg x).trans hx⟩

/-- A value of the format is a short integer, with its sign, times a power of two. -/
theorem Represents.exists_int (h : f.Represents x) :
    ∃ k j : Int, |k| < twoPow f.precision ∧ f.minExponent ≤ j ∧ x = k * 2 ^ j := by
  obtain ⟨m, q, hc, hx⟩ := h
  have hm : |(m : Int)| < twoPow f.precision := by
    rw [abs_of_nonneg (Int.natCast_nonneg m)]
    exact_mod_cast hc.1
  -- the sign goes to the integer
  rcases abs_choice x with habs | habs
  · exact ⟨m, q, hm, hc.2.1, by rw [← habs, hx]; rfl⟩
  · refine ⟨-m, q, by rwa [abs_neg], hc.2.1, ?_⟩
    rw [← neg_neg x, ← habs, hx]
    push_cast
    ring

theorem IsNearest.neg (h : f.IsNearest r x) : f.IsNearest (-r) (-x) := by
  -- distances do not change with the signs
  have hdist (y z : ℚ) : |-y - -z| = |y - z| := by
    rw [← abs_neg]
    congr 1
    ring
  refine ⟨h.represents.neg, fun y hy => ?_, fun y hy hne heq => ?_⟩
  · have hle := h.dist_le (-y) hy.neg
    rwa [← hdist x, ← hdist (-y), neg_neg] at hle
  · rw [abs_neg]
    refine h.even (-y) hy.neg (fun heq' => hne (by rw [← heq', neg_neg])) ?_
    rwa [← hdist x, ← hdist (-y), neg_neg]

/-- A value of the format is nearest to itself, -/
theorem Represents.isNearest (h : f.Represents r) : f.IsNearest r r := by
  refine ⟨h, fun y _ => ?_, fun y _ hne heq => ?_⟩
  · rw [sub_self, abs_zero]
    exact abs_nonneg _
  · rw [sub_self, abs_zero] at heq
    exact absurd (sub_eq_zero.mp (abs_eq_zero.mp heq.symm)) hne

/-- and to itself only. -/
theorem IsNearest.eq_of_represents (h : f.IsNearest r x) (hr : f.Represents r) : x = r := by
  have hle := h.dist_le r hr
  rw [sub_self, abs_zero] at hle
  exact sub_eq_zero.mp (abs_nonpos_iff.mp hle)

theorem overflow_pos (f : FloatFormat) : 0 < f.overflow := by
  have hone : (1 : ℚ) ≤ 2 ^ f.precision := one_le_pow₀ (by norm_num)
  exact mul_pos (by linarith) (two_zpow_pos _)

theorem Represents.lt_overflow (h : f.Represents x) : |x| < f.overflow := by
  obtain ⟨m, q, hc, hx⟩ := h
  have hm : (m : ℚ) < 2 ^ f.precision - 1 / 2 := by
    have hle : (m : ℚ) + 1 ≤ 2 ^ f.precision := by
      rw [← cast_twoPow]
      exact_mod_cast hc.1
    linarith
  rw [hx, overflow]
  calc (m : ℚ) * 2 ^ q ≤ m * 2 ^ f.maxExponent :=
        mul_le_mul_of_nonneg_left (two_zpow_le hc.2.2.1) (Nat.cast_nonneg m)
    _ < (2 ^ f.precision - 1 / 2) * 2 ^ f.maxExponent :=
        mul_lt_mul_of_pos_right hm (two_zpow_pos _)

variable {q : Int} {m : Nat}

theorem twoPow_precision (hf : f.IsProper) :
    twoPow f.precision = 2 * twoPow (f.precision - 1) ∧ twoPow (f.precision - 1) % 2 = 0 := by
  have hsucc (n : Nat) : twoPow (n + 1) = 2 * twoPow n := Nat.pow_succ'
  obtain ⟨n, hn⟩ := Nat.exists_eq_add_of_le' hf.two_le_precision
  rw [hn, show n + 2 - 1 = n + 1 from rfl, hsucc, hsucc]
  exact ⟨rfl, Nat.mul_mod_right 2 _⟩

theorem two_pow_precision (hf : f.IsProper) :
    (2 : ℚ) ^ f.precision = 2 * 2 ^ (f.precision - 1) := by
  rw [← cast_twoPow, (twoPow_precision hf).1, Nat.cast_mul, cast_twoPow]
  rfl

/-- The pair `(m, q)` with the significand shortened, if it has one bit too many. -/
def shorten (f : FloatFormat) (m : Nat) (q : Int) : Nat × Int :=
  if m = twoPow f.precision then (twoPow (f.precision - 1), q + 1) else (m, q)

theorem shorten_value (hf : f.IsProper) (m : Nat) (q : Int) :
    ((f.shorten m q).1 * 2 ^ (f.shorten m q).2 : ℚ) = m * 2 ^ q := by
  unfold shorten
  split
  · next hm =>
    rw [hm, cast_twoPow, cast_twoPow, two_pow_precision hf, two_zpow_add, zpow_one]
    ring
  · rfl

theorem shorten_even (hf : f.IsProper) (q : Int) (hm : m % 2 = 0) :
    (f.shorten m q).1 % 2 = 0 := by
  unfold shorten
  split
  · exact (twoPow_precision hf).2
  · exact hm

namespace IsSignificand

/-- Shortened, a significand is canonical if its exponent is one of the format. -/
theorem isCanonical_shorten (hf : f.IsProper) (h : f.IsSignificand r q m)
    (hle : (f.shorten m q).2 ≤ f.maxExponent) :
    f.IsCanonical (f.shorten m q).1 (f.shorten m q).2 := by
  have hmin := h.minExponent_le
  have hm := h.le_twoPow
  have htwo := twoPow_precision hf
  have hpos : 0 < twoPow (f.precision - 1) := Nat.pow_pos (by omega)
  unfold shorten at hle ⊢
  split at hle
  · next heq =>
    -- the shortened significand is the least one of full length
    rw [if_pos heq]
    exact ⟨by omega, by omega, hle, .inl (Nat.le_refl _)⟩
  · next hne =>
    rw [if_neg hne]
    exact ⟨by omega, hmin, hle, h.twoPow_le⟩

/-- A significand of the right length stays half a step below the next power of two. -/
theorem lt_of_ne_twoPow (hf : f.IsProper) (h : f.IsSignificand r q m)
    (hm : m ≠ twoPow f.precision) : r / 2 ^ q < 2 ^ f.precision - 1 / 2 := by
  have hle := h.le_twoPow
  obtain ⟨heq, _⟩ := twoPow_precision hf
  have hdist := abs_le.mp h.dist
  by_cases hodd : m + 1 = twoPow f.precision
  · -- the greatest significand is odd, so this is not half way
    have hcast : (m : ℚ) + 1 = 2 ^ f.precision := by
      rw [← cast_twoPow]
      exact_mod_cast hodd
    have hlt : |(m : ℚ) - r / 2 ^ q| < 1 / 2 :=
      lt_of_le_of_ne h.dist fun htie => by have := h.even htie; omega
    linarith [abs_lt.mp hlt]
  · have hcast : (m : ℚ) + 2 ≤ 2 ^ f.precision := by
      rw [← cast_twoPow]
      exact_mod_cast (by omega : m + 2 ≤ twoPow f.precision)
    linarith

/-- The number is too great for the format if the exponent is. -/
theorem lt_overflow_iff (hf : f.IsProper) (h : f.IsSignificand r q m) :
    r < f.overflow ↔ (f.shorten m q).2 ≤ f.maxExponent := by
  have hr : r = r / 2 ^ q * 2 ^ q := (div_mul_cancel₀ r (two_zpow_pos q).ne').symm
  have hone : (1 : ℚ) ≤ 2 ^ f.precision := one_le_pow₀ (by norm_num)
  have hsucc (n : Int) : (2 : ℚ) ^ (n + 1) = 2 * 2 ^ n := by
    rw [two_zpow_add, zpow_one, mul_comm]
  have hdist := abs_le.mp h.dist
  unfold overflow shorten
  split
  · next hm =>
    -- one bit too many, so the quotient is within a half of the next power of two
    rw [hm, cast_twoPow] at hdist
    constructor
    · intro hlt
      by_contra hgt
      have hle := mul_le_mul (by linarith : (2 : ℚ) ^ f.precision - 1 / 2 ≤ r / 2 ^ q)
        (two_zpow_le (show f.maxExponent ≤ q by omega)) (two_zpow_pos _).le (by linarith)
      linarith
    · intro hle
      calc r = r / 2 ^ q * 2 ^ q := hr
        _ < 2 ^ f.precision * 2 ^ q := mul_lt_mul_of_pos_right h.lt (two_zpow_pos q)
        _ ≤ (2 ^ f.precision - 1 / 2) * 2 ^ (q + 1) := by
            rw [hsucc]
            nlinarith [two_zpow_pos q]
        _ ≤ (2 ^ f.precision - 1 / 2) * 2 ^ f.maxExponent :=
            mul_le_mul_of_nonneg_left (two_zpow_le hle) (by linarith)
  · next hm =>
    constructor
    · intro hlt
      by_contra hgt
      have hmin := hf.minExponent_le
      have hnormal := h.normal.resolve_left (by omega)
      have hle := mul_le_mul hnormal (two_zpow_le (show f.maxExponent + 1 ≤ q by omega))
        (two_zpow_pos _).le (by linarith [two_pow_precision hf])
      rw [hsucc, ← hr, ← mul_assoc, mul_comm _ (2 : ℚ), ← two_pow_precision hf] at hle
      nlinarith [two_zpow_pos f.maxExponent]
    · intro hle
      calc r = r / 2 ^ q * 2 ^ q := hr
        _ < (2 ^ f.precision - 1 / 2) * 2 ^ q :=
            mul_lt_mul_of_pos_right (lt_of_ne_twoPow hf h hm) (two_zpow_pos q)
        _ ≤ (2 ^ f.precision - 1 / 2) * 2 ^ f.maxExponent :=
            mul_le_mul_of_nonneg_left (two_zpow_le hle) (by linarith)

/-- Shortened, a significand makes the nearest value. -/
theorem isNearest_shorten (hf : f.IsProper) (h : f.IsSignificand r q m)
    (hle : (f.shorten m q).2 ≤ f.maxExponent) :
    f.IsNearest r ((f.shorten m q).1 * 2 ^ (f.shorten m q).2) := by
  have hP : 0 < f.precision := by have := hf.two_le_precision; omega
  have hcanonical := h.isCanonical_shorten hf hle
  have habs : |(m : ℚ) * 2 ^ q| = (f.shorten m q).1 * 2 ^ (f.shorten m q).2 := by
    rw [shorten_value hf, abs_of_nonneg]
    exact mul_nonneg (Nat.cast_nonneg m) (two_zpow_pos q).le
  rw [shorten_value hf]
  refine ⟨⟨_, _, hcanonical, habs⟩, fun y hy => ?_, fun y hy hne heq => ?_⟩
  · -- any value of the format has no more bits than the significand
    obtain ⟨k, j, hk, hj, rfl⟩ := hy.exists_int
    exact (h.dist_le hP hk hj).1
  · obtain ⟨k, j, hk, hj, rfl⟩ := hy.exists_int
    exact ⟨_, _, hcanonical, habs, shorten_even hf q ((h.dist_le hP hk hj).2 hne heq)⟩

end IsSignificand

/-- What rounding a quotient gives is its significand, shortened if need be. -/
theorem exists_significand (hf : f.IsProper) (hnum : num ≠ 0) (hden : 0 < den) :
    ∃ q m, f.IsSignificand (num / den) q m ∧ f.round num den = f.shorten m q := by
  have hP : 0 < f.precision := by have := hf.two_le_precision; omega
  refine ⟨_, _, f.isSignificand_roundQuotient hP hnum hden, ?_⟩
  rw [round, if_neg hnum]
  rfl

theorem isCanonical_zero (hf : f.IsProper) : f.IsCanonical 0 f.minExponent :=
  ⟨Nat.pow_pos (by omega), Int.le_refl _, hf.minExponent_le, .inr rfl⟩

/-- Zero is nearest to what is less than half of the least value above it. -/
theorem isNearest_zero (hf : f.IsProper) (h : 2 * |r| < 2 ^ f.minExponent) : f.IsNearest r 0 := by
  have hless (y : ℚ) (hy : f.Represents y) (hne : y ≠ 0) : |0 - r| < |y - r| := by
    obtain ⟨m, q, hc, hm⟩ := hy
    have hone : (1 : ℚ) ≤ m := by
      have : m ≠ 0 := by
        rintro rfl
        exact hne (abs_eq_zero.mp (by simpa using hm))
      exact_mod_cast Nat.one_le_iff_ne_zero.mpr this
    have hleast : (2 : ℚ) ^ f.minExponent ≤ |y| :=
      calc (2 : ℚ) ^ f.minExponent ≤ 2 ^ q := two_zpow_le hc.2.1
        _ ≤ m * 2 ^ q := le_mul_of_one_le_left (two_zpow_pos q).le hone
        _ = |y| := hm.symm
    rw [zero_sub, abs_neg]
    linarith [abs_sub_abs_le_abs_sub y r]
  refine ⟨⟨0, _, isCanonical_zero hf, by simp⟩, fun y hy => ?_, fun y hy hne heq => ?_⟩
  · by_cases hne : y = 0
    · rw [hne]
    · exact (hless y hy hne).le
  · exact absurd heq (hless y hy hne).ne

/-- **Rounding is to the nearest value.** The quotient is less than what is too great for the format
exactly if the exponent of the result is one of the format. Then the result is canonical and the
nearest value. -/
theorem round_isNearest (hf : f.IsProper) (num : Nat) (hden : 0 < den) :
    ((num / den : ℚ) < f.overflow ↔ (f.round num den).2 ≤ f.maxExponent) ∧
    ((f.round num den).2 ≤ f.maxExponent →
      f.IsCanonical (f.round num den).1 (f.round num den).2 ∧
      f.IsNearest (num / den) ((f.round num den).1 * 2 ^ (f.round num den).2)) := by
  by_cases hnum : num = 0
  · subst hnum
    have hzero : f.round 0 den = (0, f.minExponent) := if_pos rfl
    rw [hzero]
    simp only [Nat.cast_zero, zero_div, zero_mul]
    refine ⟨iff_of_true f.overflow_pos hf.minExponent_le, fun _ => ⟨isCanonical_zero hf, ?_⟩⟩
    exact isNearest_zero hf (by simpa using two_zpow_pos _)
  · obtain ⟨q, m, h, hround⟩ := exists_significand hf hnum hden
    rw [hround]
    exact ⟨h.lt_overflow_iff hf,
      fun hle => ⟨h.isCanonical_shorten hf hle, h.isNearest_shorten hf hle⟩⟩

end FloatFormat
end JsonPointer
