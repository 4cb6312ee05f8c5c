import JsonPointer.Number.Numeral

/-!
# Double-precision numbers

Floating-point numbers are kept as exact values `±m · 2 ^ q`, so that everything said about them is
arithmetic on integers. A format allows the significand a number of bits and the exponent a range;
each of its finite values has one canonical pair `(m, q)`, and `Double` holds only those.

`FloatFormat.round` takes a quotient of naturals to the nearest value of a format, ties to the even
significand. Conversions from integers, fractions and decimal numerals are all that function.
-/

namespace JsonPointer

/-- A binary floating-point format. -/
structure FloatFormat where
  /-- The number of bits of a significand. -/
  precision : Nat
  /-- The least power of two that a significand can be scaled by. -/
  minExponent : Int
  /-- The greatest one. -/
  maxExponent : Int
  deriving DecidableEq, Repr

namespace FloatFormat

def double : FloatFormat := ⟨53, -1074, 971⟩

def single : FloatFormat := ⟨24, -149, 104⟩

/-- `(m, q)` is the one way to write its value in the format: the significand is as long as the
precision allows, or the exponent is the least one. -/
def IsCanonical (f : FloatFormat) (m : Nat) (q : Int) : Prop :=
  m < twoPow f.precision ∧ f.minExponent ≤ q ∧ q ≤ f.maxExponent ∧
    (twoPow (f.precision - 1) ≤ m ∨ q = f.minExponent)

instance (f : FloatFormat) (m : Nat) (q : Int) : Decidable (f.IsCanonical m q) :=
  inferInstanceAs (Decidable (_ ∧ _ ∧ _ ∧ (_ ∨ _)))

end FloatFormat

/-- The natural number nearest to `num / den`, the even one of two. -/
def roundQuotient (num den : Nat) : Nat :=
  let quot := num / den
  let twice := 2 * (num % den)
  if twice < den then quot else if den < twice then quot + 1 else quot + quot % 2

namespace FloatFormat

/-- The quotient `(num / den) / 2 ^ q` as a numerator and a denominator. -/
def scaled (num den : Nat) (q : Int) : Nat × Nat :=
  (num * twoPow (-q).toNat, den * twoPow q.toNat)

/-- The exponent at which the significand of `num / den` has the bits of the format, or the least
exponent if that is greater. The logarithms leave a choice of two, which the comparison makes. -/
def exponentOf (f : FloatFormat) (num den : Nat) : Int :=
  let q : Int := (num.log2 : Int) - (den.log2 : Int) - (f.precision : Int)
  let (n, d) := scaled num den q
  let fitting := if d * twoPow f.precision ≤ n then q + 1 else q
  if fitting < f.minExponent then f.minExponent else fitting

/-- The value `m · 2 ^ q` nearest to `num / den`, ties to the even significand. The exponent may
be past the greatest one of the format; then the quotient is too great for it. -/
def round (f : FloatFormat) (num den : Nat) : Nat × Int :=
  if num = 0 then (0, f.minExponent)
  else
    let q := f.exponentOf num den
    let (n, d) := scaled num den q
    let m := roundQuotient n d
    if m = twoPow f.precision then (twoPow (f.precision - 1), q + 1) else (m, q)

end FloatFormat

/-- A double-precision number. All undefined results are one `nan`. -/
inductive Double
  | finite (negative : Bool) (m : Nat) (q : Int) (canonical : FloatFormat.double.IsCanonical m q)
  | infinite (negative : Bool)
  | nan
  deriving DecidableEq, Repr

namespace Double

/-- The number `±m · 2 ^ q`; what has no canonical form is past the greatest finite number. -/
def ofParts (negative : Bool) (m : Nat) (q : Int) : Double :=
  if h : FloatFormat.double.IsCanonical m q then .finite negative m q h else .infinite negative

/-- The number nearest to `± num / den`, infinite if that is too great. -/
def ofQuotient (negative : Bool) (num den : Nat) : Double :=
  let (m, q) := FloatFormat.double.round num den
  ofParts negative m q

def ofInt (n : Int) : Double := ofQuotient (n < 0) n.natAbs 1

def ofRat (r : Rat) : Double := ofQuotient (r.num < 0) r.num.natAbs r.den

/-- The number nearest to `±coefficient · 10 ^ exponent`. What is too great or too small by its
number of digits alone is not multiplied out. -/
def ofScientific (negative : Bool) (coefficient : Nat) (exponent : Int) : Double :=
  let magnitude := (Digits.digitsOfNat coefficient).length + exponent
  if coefficient = 0 ∨ magnitude < -400 then ofQuotient negative 0 1
  else if 400 < magnitude then .infinite negative
  else
    ofQuotient negative (coefficient * tenPow exponent.toNat) (tenPow (-exponent).toNat)

/-- Is the number past the greatest finite one? -/
def isInfinite : Double → Bool
  | .infinite _ => true
  | _ => false

def isZero : Double → Bool
  | .finite _ m _ _ => m = 0
  | _ => false

/-- The number `m · 2 ^ q` as a numerator and a denominator. -/
def quotient (m : Nat) (q : Int) : Nat × Nat := (m * twoPow q.toNat, twoPow (-q).toNat)

/-- The exact value of a finite number. -/
def toRat? : Double → Option Rat
  | .finite negative m q _ =>
    let (num, den) := quotient m q
    some (mkRat (if negative then -num else num) den)
  | _ => none

/-- The number as the 32-bit format keeps it. -/
def toSingle : Double → Double
  | .finite negative m q _ =>
    let (num, den) := quotient m q
    let (m', q') := FloatFormat.single.round num den
    if q' ≤ FloatFormat.single.maxExponent then
      let (num', den') := quotient m' q'
      ofQuotient negative num' den'
    else .infinite negative
  | x => x

end Double
end JsonPointer
