import JsonPointer.Proofs.Rounding

/-!
# Exact values of numbers

Integers, fractions, doubles and decimals all stand for an exact number, or for none: `Exact` is
what they have in common. `Exact.IsRounded` says what a format keeps of it, and this file shows that
every conversion to a double keeps exactly that.
-/

namespace JsonPointer

open FloatFormat

/-- What a number stands for, however it is written. -/
inductive Exact
  | finite (r : ℚ)
  | infinite (negative : Bool)
  | undefined

def signed (negative : Bool) (r : ℚ) : ℚ := if negative then -r else r

@[simp] theorem abs_signed (negative : Bool) (r : ℚ) : |signed negative r| = |r| := by
  cases negative
  · rfl
  · exact abs_neg r

/-- The sign shows, except at zero. -/
theorem sign_iff (negative : Bool) {r : ℚ} (hr : 0 < r) :
    negative = true ↔ signed negative r < 0 := by
  cases negative <;> simp [signed, hr, hr.le]

/-- What a double stands for. -/
def Double.exact (x : Double) : Exact :=
  match x, x.toRat? with
  | .infinite negative, _ => .infinite negative
  | _, some r => .finite r
  | _, none => .undefined

/-- What a decimal stands for. -/
def Decimal.exact : Decimal → Exact
  | .finite negative coefficient exponent => .finite (signed negative (coefficient * 10 ^ exponent))
  | .infinite negative => .infinite negative
  | .nan _ _ _ => .undefined

/-- What a format keeps of an exact number: the nearest value, or an infinite one if the number is
too great. -/
inductive Exact.IsRounded (f : FloatFormat) : Exact → Double → Prop
  | nearest {r v : ℚ} {x : Double} (lt : |r| < f.overflow) (value : x.exact = .finite v)
      (nearest : f.IsNearest r v) : IsRounded f (.finite r) x
  | tooGreat {r : ℚ} {negative : Bool} (le : f.overflow ≤ |r|) (sign : negative = true ↔ r < 0) :
      IsRounded f (.finite r) (.infinite negative)
  | infinite (negative : Bool) : IsRounded f (.infinite negative) (.infinite negative)
  | undefined : IsRounded f .undefined .nan

/-- What a format has is kept as it is. -/
theorem Exact.IsRounded.exact_eq {f : FloatFormat} {r : ℚ} {x : Double}
    (h : (Exact.finite r).IsRounded f x) (hr : f.Represents r) : x.exact = .finite r := by
  cases h with
  | nearest _ hx hnearest => rw [hx, hnearest.eq_of_represents hr]
  | tooGreat hle _ => exact absurd hr.lt_overflow (not_lt.mpr hle)

/-- A number is rounded to an infinite double exactly if it is too great for the format. -/
theorem Exact.IsRounded.isInfinite_iff {r : ℚ} {x : Double}
    (h : (Exact.finite r).IsRounded .double x) :
    x.isInfinite = true ↔ double.overflow ≤ |r| := by
  cases h with
  | nearest hlt hvalue _ =>
      apply iff_of_false _ (not_le.mpr hlt)
      intro hx
      cases x with
      | infinite negative => cases hvalue
      | _ => cases hx
  | tooGreat hle _ => exact iff_of_true rfl hle

/-! ### Quotients -/

namespace Double

variable {negative : Bool} {num den m : Nat} {q : Int}

theorem quotient_pos (m : Nat) (q : Int) : 0 < (quotient m q).2 := Nat.pow_pos (by omega)

/-- The quotient of `quotient m q` is the value of a double with that significand and exponent. -/
theorem quotient_div (m : Nat) (q : Int) :
    ((quotient m q).1 / (quotient m q).2 : ℚ) = m * 2 ^ q := by
  rw [zpow_eq_div]
  simp only [quotient, Nat.cast_mul, cast_twoPow]
  ring

@[simp] theorem exact_finite (h : double.IsCanonical m q) :
    (Double.finite negative m q h).exact = .finite (signed negative (m * 2 ^ q)) := by
  have hvalue : mkRat (if negative then -((quotient m q).1 : Int) else (quotient m q).1)
      (quotient m q).2 = signed negative (m * 2 ^ q) := by
    rw [Rat.mkRat_eq_div, ← quotient_div]
    cases negative <;> simp [signed, neg_div]
  rw [← hvalue]
  rfl

/-- Every double is what it keeps of itself. -/
theorem exact_isRounded (x : Double) : x.exact.IsRounded double x := by
  cases x with
  | nan => exact .undefined
  | infinite negative => exact .infinite negative
  | finite negative m q h =>
      have hrepresents : double.Represents (signed negative (m * 2 ^ q)) := by
        refine ⟨m, q, h, ?_⟩
        rw [abs_signed]
        exact abs_of_nonneg (mul_nonneg (Nat.cast_nonneg m) (two_zpow_pos q).le)
      rw [exact_finite h]
      exact .nearest hrepresents.lt_overflow (exact_finite h) hrepresents.isNearest

/-- Rounding to the nearest treats both signs alike. -/
theorem isNearest_signed {f : FloatFormat} {r x : ℚ} (h : f.IsNearest r x) (negative : Bool) :
    f.IsNearest (signed negative r) (signed negative x) := by
  cases negative
  · exact h
  · exact h.neg

/-- A quotient is rounded as the format rounds its value. -/
theorem ofQuotient_isRounded (negative : Bool) (num : Nat) (hden : 0 < den) :
    (Exact.finite (signed negative (num / den))).IsRounded double
      (ofQuotient negative num den) := by
  have habs : |(num / den : ℚ)| = num / den := abs_of_nonneg (by positivity)
  obtain ⟨hlt, hround⟩ := round_isNearest isProper_double num hden
  show Exact.IsRounded _ _ (ofParts negative (double.round num den).1 (double.round num den).2)
  unfold ofParts
  -- whether the parts are those of a double decides whether the number overflows
  split
  · next hcanonical =>
    have hexponent := hcanonical.2.2.1
    refine .nearest ?_ (exact_finite hcanonical) (isNearest_signed (hround hexponent).2 negative)
    rw [abs_signed, habs]
    exact hlt.mpr hexponent
  · next hcanonical =>
    have hle : double.overflow ≤ (num / den : ℚ) :=
      le_of_not_gt fun h => hcanonical (hround (hlt.mp h)).1
    have hpos := lt_of_lt_of_le double.overflow_pos hle
    exact .tooGreat (by rwa [abs_signed, habs]) (sign_iff negative hpos)

theorem signed_div (negative : Bool) (a b : ℚ) :
    signed negative (a / b) = signed negative a / b := by
  cases negative
  · rfl
  · exact (neg_div b a).symm

theorem signed_natAbs (n : Int) : signed (n < 0) (n.natAbs : ℚ) = n := by
  unfold signed
  rw [Nat.cast_natAbs]
  rcases lt_or_ge n 0 with h | h
  · simp [h, abs_of_neg h]
  · simp [not_lt.mpr h, abs_of_nonneg h]

theorem ofInt_isRounded (n : Int) : (Exact.finite n).IsRounded double (ofInt n) := by
  have h := ofQuotient_isRounded (n < 0) n.natAbs Nat.one_pos
  rwa [Nat.cast_one, div_one, signed_natAbs] at h

theorem ofRat_isRounded (r : ℚ) : (Exact.finite r).IsRounded double (ofRat r) := by
  have h := ofQuotient_isRounded (r.num < 0) r.num.natAbs r.den_pos
  rwa [signed_div, signed_natAbs, Rat.num_div_den] at h

/-! ### Decimal numerals -/

@[simp] theorem cast_tenPow (n : Nat) : (tenPow n : ℚ) = 10 ^ n := Nat.cast_pow 10 n

theorem ten_zpow_le {p q : Int} (h : p ≤ q) : (10 : ℚ) ^ p ≤ 10 ^ q :=
  zpow_le_zpow_right₀ (by norm_num) h

theorem ten_zpow_pos (q : Int) : (0 : ℚ) < 10 ^ q := zpow_pos (by norm_num) q

/-- The number of digits of a natural number bounds it from both sides. -/
theorem digits_bounds {n : Nat} (hn : n ≠ 0) :
    (10 : ℚ) ^ ((Digits.digitsOfNat n).length - 1 : Int) ≤ n ∧
      (n : ℚ) < 10 ^ ((Digits.digitsOfNat n).length : Int) := by
  have hlength : (Digits.digitsOfNat n).length = n.repr.length := String.length_toList
  rw [hlength]
  have hpos : 0 < n.repr.length := Nat.length_repr_pos
  obtain ⟨k, hk⟩ := Nat.exists_eq_add_of_lt hpos
  rw [Nat.zero_add] at hk
  rw [hk]
  constructor
  · rw [show ((k + 1 : Nat) : Int) - 1 = k by omega]
    -- with a power of ten above it the number would have fewer digits
    have hle : 10 ^ k ≤ n := by
      by_contra hlt
      cases k with
      | zero => simp at hlt; omega
      | succ k =>
          have := (Nat.length_repr_le_iff (by omega)).mpr (Nat.lt_of_not_le hlt)
          omega
    exact_mod_cast hle
  · have hlt : n < 10 ^ (k + 1) := (Nat.length_repr_le_iff (by omega)).mp hk.le
    exact_mod_cast hlt

/-- Zero keeps the sign that it is written with. -/
theorem ofQuotient_zero (negative : Bool) :
    (ofQuotient negative 0 1).exact = .finite (signed negative 0) := by
  have hzero := isCanonical_zero isProper_double
  have hfinite : ofQuotient negative 0 1 = .finite negative 0 _ hzero := by
    show ofParts negative 0 _ = _
    rw [ofParts, dif_pos hzero]
  rw [hfinite, exact_finite, Nat.cast_zero, zero_mul]

/-- The cutoffs of `ofScientific` are below half the least double and above the greatest one. -/
theorem cutoffs :
    2 * (10 : ℚ) ^ (-401 : Int) < 2 ^ double.minExponent ∧ 1 < double.overflow ∧
      double.overflow ≤ 10 ^ (400 : Int) := by
  have hlow : 2 ^ 1074 * 2 < 10 ^ 401 := by decide +kernel
  have hhigh : 2 ^ 53 * 2 ^ 971 ≤ 10 ^ 400 := by decide +kernel
  refine ⟨?_, ?_, ?_⟩
  · show 2 * ((10 : ℚ) ^ 401)⁻¹ < (2 ^ 1074)⁻¹
    rw [mul_inv_lt_iff₀ (by positivity), lt_inv_mul_iff₀ (by positivity)]
    exact_mod_cast hlow
  · show (1 : ℚ) < (2 ^ 53 - 1 / 2) * 2 ^ 971
    have hone : (1 : ℚ) ≤ 2 ^ 971 := one_le_pow₀ (by norm_num)
    have hfactor : (1 : ℚ) < 2 ^ 53 - 1 / 2 := by norm_num
    exact hfactor.trans_le (le_mul_of_one_le_right (by norm_num) hone)
  · show ((2 : ℚ) ^ 53 - 1 / 2) * 2 ^ 971 ≤ 10 ^ 400
    have hle : (2 : ℚ) ^ 53 * 2 ^ 971 ≤ 10 ^ 400 := by exact_mod_cast hhigh
    exact (mul_le_mul_of_nonneg_right (by norm_num) (by positivity)).trans hle

/-- A decimal numeral becomes the nearest double, also where the exponent and the number of digits
decide alone. -/
theorem ofScientific_isRounded (negative : Bool) (coefficient : Nat) (exponent : Int) :
    (Decimal.finite negative coefficient exponent).exact.IsRounded double
      (ofScientific negative coefficient exponent) := by
  unfold ofScientific Decimal.exact
  dsimp only
  by_cases hzero : coefficient = 0
  · rw [if_pos (.inl hzero), hzero]
    have h := ofQuotient_isRounded negative 0 Nat.one_pos
    rwa [Nat.cast_zero, zero_div, ← zero_mul ((10 : ℚ) ^ exponent), ← Nat.cast_zero] at h
  · obtain ⟨hlow, hhigh⟩ := digits_bounds hzero
    generalize ((Digits.digitsOfNat coefficient).length : Int) = length at hlow hhigh ⊢
    have hten := ten_zpow_pos exponent
    have hnonneg : (0 : ℚ) ≤ coefficient * 10 ^ exponent := by positivity
    split
    · next hsmall =>
      have hsmall := hsmall.resolve_left hzero
      -- too small by its digits alone, so zero is nearest
      have hlt : (coefficient : ℚ) * 10 ^ exponent < 10 ^ (-401 : Int) :=
        calc (coefficient : ℚ) * 10 ^ exponent < 10 ^ length * 10 ^ exponent :=
              mul_lt_mul_of_pos_right hhigh hten
          _ = 10 ^ (length + exponent) := (zpow_add₀ (by norm_num) _ _).symm
          _ ≤ 10 ^ (-401 : Int) := ten_zpow_le (by omega)
      have hnearest : double.IsNearest (coefficient * 10 ^ exponent) 0 :=
        isNearest_zero isProper_double (by rw [abs_of_nonneg hnonneg]; linarith [cutoffs.1])
      refine .nearest ?_ (ofQuotient_zero negative) (isNearest_signed hnearest negative)
      rw [abs_signed, abs_of_nonneg hnonneg]
      have hone : (10 : ℚ) ^ (-401 : Int) ≤ 10 ^ (0 : Int) := ten_zpow_le (by omega)
      rw [zpow_zero] at hone
      linarith [cutoffs.2.1]
    · split
      · next hgreat =>
        -- too great by its digits alone
        have hge : (10 : ℚ) ^ (400 : Int) ≤ coefficient * 10 ^ exponent :=
          calc (10 : ℚ) ^ (400 : Int) ≤ 10 ^ (length - 1 + exponent) := ten_zpow_le (by omega)
            _ = 10 ^ (length - 1) * 10 ^ exponent := zpow_add₀ (by norm_num) _ _
            _ ≤ coefficient * 10 ^ exponent := mul_le_mul_of_nonneg_right hlow hten.le
        have hover := cutoffs.2.2.trans hge
        refine .tooGreat (by rwa [abs_signed, abs_of_nonneg hnonneg]) ?_
        have hpos := lt_of_lt_of_le double.overflow_pos hover
        exact sign_iff negative hpos
      · have hden : 0 < tenPow (-exponent).toNat := Nat.pow_pos (by omega)
        have h := ofQuotient_isRounded negative (coefficient * tenPow exponent.toNat) hden
        rwa [Nat.cast_mul, cast_tenPow, cast_tenPow, mul_div_assoc, ← zpow_eq_div] at h

/-! ### Single precision -/

/-- What has a significand of few enough bits and is not too great is a value of the format. -/
theorem represents_of_lt {f : FloatFormat} (hf : f.IsProper) (hm : m < twoPow f.precision)
    (hq : f.minExponent ≤ q) (hlt : m * 2 ^ q < f.overflow) : f.Represents (m * 2 ^ q) := by
  have hr := quotient_div m q
  by_cases hzero : (quotient m q).1 = 0
  · rw [← hr, hzero, Nat.cast_zero, zero_div]
    exact (isNearest_zero (r := 0) hf (by simpa using two_zpow_pos _)).represents
  · obtain ⟨q', m', h, _⟩ := exists_significand hf hzero (quotient_pos m q)
    rw [hr] at h
    have hP : 0 < f.precision := by have := hf.two_le_precision; omega
    have hk : |(m : Int)| < twoPow f.precision := by
      rw [abs_of_nonneg (Int.natCast_nonneg m)]
      exact_mod_cast hm
    -- its significand is at no distance
    have hdist := (h.dist_le hP hk hq).1
    rw [Int.cast_natCast, sub_self, abs_zero] at hdist
    have heq := sub_eq_zero.mp (abs_nonpos_iff.mp hdist)
    have hcanonical := h.isCanonical_shorten hf ((h.lt_overflow_iff hf).mp hlt)
    refine ⟨_, _, hcanonical, ?_⟩
    rw [shorten_value hf, heq]
    exact abs_of_nonneg (mul_nonneg (Nat.cast_nonneg m) (two_zpow_pos q).le)

/-- A format that has a power of two over itself has zero and one. -/
theorem represents_bit {f : FloatFormat} {k : Nat} (hf : f.IsProper)
    (h : f.IsCanonical (twoPow k) (-k)) (b : Bool) : f.Represents (if b then 1 else 0) := by
  cases b with
  | false => exact ⟨0, f.minExponent, isCanonical_zero hf, by simp⟩
  | true => exact ⟨twoPow k, -k, h, by simp⟩

/-- Every number in single precision is a double. -/
theorem represents_of_isCanonical (h : single.IsCanonical m q) :
    double.Represents (m * 2 ^ q) := by
  have hmin : -149 ≤ q := h.2.1
  have hmax : q ≤ 104 := h.2.2.1
  have hm : (m : ℚ) ≤ 2 ^ 24 := by
    rw [← cast_twoPow]
    exact_mod_cast h.1.le
  refine represents_of_lt isProper_double (Nat.lt_trans h.1 (by decide)) ?_ ?_
  · show -1074 ≤ q
    omega
  · calc (m : ℚ) * 2 ^ q ≤ 2 ^ 24 * 2 ^ (971 : Int) :=
          mul_le_mul hm (two_zpow_le (by omega)) (two_zpow_pos q).le (by norm_num)
      _ < (2 ^ 53 - 1 / 2) * 2 ^ (971 : Int) :=
          mul_lt_mul_of_pos_right (by norm_num) (two_zpow_pos _)

/-- What is a double already stays as it is. -/
theorem exact_ofQuotient (negative : Bool) (hden : 0 < den) (h : double.Represents (num / den)) :
    (ofQuotient negative num den).exact = .finite (signed negative (num / den)) := by
  have hsigned : double.Represents (signed negative (num / den)) := by
    cases negative
    · exact h
    · exact h.neg
  exact (ofQuotient_isRounded negative num hden).exact_eq hsigned

/-- A double that is stored with single precision becomes the nearest single. -/
theorem toSingle_isRounded (x : Double) : x.exact.IsRounded single x.toSingle := by
  cases x with
  | nan => exact .undefined
  | infinite negative => exact .infinite negative
  | finite negative m q h =>
      have habs : |(m * 2 ^ q : ℚ)| = m * 2 ^ q :=
        abs_of_nonneg (mul_nonneg (Nat.cast_nonneg m) (two_zpow_pos q).le)
      have hround := round_isNearest isProper_single (quotient m q).1 (quotient_pos m q)
      rw [quotient_div] at hround
      obtain ⟨hlt, hround⟩ := hround
      rw [exact_finite, toSingle]
      dsimp only
      -- an exponent that is too great for a single means overflow
      split
      · next hle =>
        obtain ⟨hcanonical, hnearest⟩ := hround hle
        refine .nearest ?_ ?_ (isNearest_signed hnearest negative)
        · rw [abs_signed, habs]
          exact hlt.mpr hle
        · -- the single is a double, so the second rounding changes nothing
          rw [exact_ofQuotient negative (quotient_pos _ _)] <;> rw [quotient_div]
          exact represents_of_isCanonical hcanonical
      · next hgt =>
        have hover : single.overflow ≤ m * 2 ^ q := le_of_not_gt fun h => hgt (hlt.mp h)
        have hpos := lt_of_lt_of_le single.overflow_pos hover
        exact .tooGreat (by rwa [abs_signed, habs]) (sign_iff negative hpos)

end Double
end JsonPointer
