import JsonPointer.Number.Double
import JsonPointer.Number.Numeral

/-!
# The shortest text of a number

The numbers that round to a finite double fill an interval around it, whose ends belong to it if
the significand is even. Its text has the fewest digits that name a point of that interval, and of
those the ones nearest to the exact value. The search goes over decimal grids from coarse to fine:
on each grid only the two neighbours of the exact value need to be looked at, since any other point
of the interval has one of them between it and the value.
-/

namespace JsonPointer
namespace Shortest

/-- The interval of reals that round to a positive number `m · 2 ^ q`, as multiples of a quarter of
`2 ^ q`. Below a power of two the numbers lie twice as close. -/
structure Interval where
  /-- The lower end, in quarters. -/
  low : Nat
  /-- The number itself, in quarters. -/
  centre : Nat
  /-- The upper end, in quarters. -/
  high : Nat
  /-- Do the ends round to the number too? -/
  closed : Bool
  deriving DecidableEq, Repr

/-- The interval around `m · 2 ^ q` among the doubles. -/
def Interval.around (m : Nat) (q : Int) : Interval where
  low := if m = twoPow (FloatFormat.double.precision - 1) ∧ FloatFormat.double.minExponent < q
    then 4 * m - 1 else 4 * m - 2
  centre := 4 * m
  high := 4 * m + 2
  closed := m % 2 = 0

/-- Numbers `up` and `down` such that a count of quarters of `2 ^ q` is `up / down` times as great
when counted in steps of `10 ^ k`. -/
def gridScale (q k : Int) : Nat × Nat :=
  (twoPow (q - 2).toNat * tenPow (-k).toNat, twoPow (2 - q).toNat * tenPow k.toNat)

/-- The count of steps of `10 ^ k` that names a point of the interval and is nearest to its centre,
the even one of two that are as near. -/
def onGrid? (i : Interval) (q k : Int) : Option Nat :=
  let (up, down) := gridScale q k
  let inside (d : Nat) : Bool :=
    if i.closed then i.low * up ≤ d * down && d * down ≤ i.high * up
    else i.low * up < d * down && d * down < i.high * up
  let below := i.centre * up / down
  let above := below + 1
  if inside below && inside above then
    let twice := 2 * (i.centre * up)
    let middle := (below + above) * down
    some (if twice < middle then below else if middle < twice then above
      else if below % 2 = 0 then below else above)
  else if inside below then some below
  else if inside above then some above
  else none

/-- The digits and the power of ten of the shortest text of `m · 2 ^ q`. Seventeen digits always
suffice, and the coarsest grid tried has steps greater than the number. -/
def digits (m : Nat) (q : Int) : List Char × Int :=
  let length (n : Nat) : Int := (Digits.digitsOfNat n).length
  let (num, den) := Double.quotient m q
  let top := length num - length den + 2
  let i := Interval.around m q
  let found := (List.range 24).findSome? fun (step : Nat) =>
    let k := top - step
    (onGrid? i q k).map fun d => (Digits.digitsOfNat d, k)
  found.getD (Digits.digitsOfNat m, 0)

/-- The text of the positive number `digits · 10 ^ exponent`: positional from `0.0001` up to sixteen
digits before the point, always with a point; otherwise with an exponent of at least two digits. -/
def layout (digits : List Char) (exponent : Int) : List Char :=
  let e := Notation.leading digits exponent
  if -4 ≤ e ∧ e < 16 then
    let whole := Notation.positional digits exponent
    if exponent ≥ 0 then whole ++ ['.', '0'] else whole
  else Notation.mantissa digits ++ 'e' :: Notation.signedExponent 2 e

/-- The text of a finite number without its sign. -/
def magnitude (m : Nat) (q : Int) : List Char :=
  if m = 0 then ['0', '.', '0']
  else
    let (ds, k) := digits m q
    layout ds k

end Shortest

/-- The shortest text that reads back as the number. -/
def Double.text : Double → String
  | .finite negative m q _ =>
    String.ofList ((if negative then ['-'] else []) ++ Shortest.magnitude m q)
  | .infinite negative => if negative then "-inf" else "inf"
  | .nan => "nan"

end JsonPointer
