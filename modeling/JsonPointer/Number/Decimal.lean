import JsonPointer.Number.Double
import JsonPointer.Number.Numeral

/-!
# Decimal numbers

A decimal number keeps the digits it was written with: `1.50` and `1.5` are different numbers here,
with the same value. Besides the finite ones there are the two infinities and the undefined results,
which may carry a payload and may be signaling. `Decimal.text` writes a number so that
`Decimal.ofText?` reads the same number back.
-/

namespace JsonPointer

/-- A decimal number. -/
inductive Decimal
  | finite (negative : Bool) (coefficient : Nat) (exponent : Int)
  | infinite (negative : Bool)
  | nan (negative signaling : Bool) (payload : Nat)
  deriving DecidableEq, Repr

namespace Decimal

/-- Is the number `0`, with whatever sign and exponent? -/
def isZero : Decimal → Bool
  | .finite _ coefficient _ => coefficient = 0
  | _ => false

/-- The nearest double. A signaling result has none. -/
def toDouble? : Decimal → Option Double
  | .finite negative coefficient exponent =>
    some (Double.ofScientific negative coefficient exponent)
  | .infinite negative => some (.infinite negative)
  | .nan _ signaling _ => if signaling then none else some .nan

def sign (negative : Bool) : List Char := if negative then ['-'] else []

/-- The text of a number: positional if the exponent is not positive and at most five zeros stand
between the point and the first digit, in scientific notation otherwise. -/
def text : Decimal → String
  | .finite negative coefficient exponent =>
    let digits := Digits.digitsOfNat coefficient
    let e := Notation.leading digits exponent
    String.ofList <| sign negative ++
      if exponent ≤ 0 ∧ -6 ≤ e then Notation.positional digits exponent
      else Notation.mantissa digits ++
        if e = 0 then [] else 'E' :: Notation.signedExponent 1 e
  | .infinite negative => String.ofList (sign negative ++ "Infinity".toList)
  | .nan negative signaling payload =>
    String.ofList <| sign negative ++ (if signaling then "sNaN" else "NaN").toList ++
      if payload = 0 then [] else Digits.digitsOfNat payload

/-! ### Reading -/

/-- Split off the sign in front of a numeral: is it a minus? -/
def splitSign : List Char → Bool × List Char
  | '-' :: rest => (true, rest)
  | '+' :: rest => (false, rest)
  | cs => (false, cs)

/-- The exponent behind the digits: nothing, or `e` and an integer. -/
def exponentOf? : List Char → Option Int
  | [] => some 0
  | 'e' :: rest =>
    let (negative, digits) := splitSign rest
    if Digits.isNumeral digits then
      let n : Int := Digits.natOfDigits digits
      some (if negative then -n else n)
    else none
  | _ => none

/-- Read the digits and the exponent of a number without sign, in lower case. -/
def finiteOf? (negative : Bool) (cs : List Char) : Option Decimal :=
  let whole := cs.takeWhile Char.isDigit
  let (fraction, rest) := match cs.dropWhile Char.isDigit with
    | '.' :: rest => (rest.takeWhile Char.isDigit, rest.dropWhile Char.isDigit)
    | rest => ([], rest)
  if (whole ++ fraction).isEmpty then none
  else (exponentOf? rest).map fun e =>
    .finite negative (Digits.natOfDigits (whole ++ fraction)) (e - fraction.length)

/-- The payload of an undefined result: digits, or nothing for `0`. -/
def payloadOf? (cs : List Char) : Option Nat :=
  if cs.all Char.isDigit then some (Digits.natOfDigits cs) else none

/-- Read a number without sign, in lower case. -/
def unsignedOf? (negative : Bool) : List Char → Option Decimal
  | ['i', 'n', 'f'] => some (.infinite negative)
  | ['i', 'n', 'f', 'i', 'n', 'i', 't', 'y'] => some (.infinite negative)
  | 'n' :: 'a' :: 'n' :: rest => (payloadOf? rest).map (.nan negative false)
  | 's' :: 'n' :: 'a' :: 'n' :: rest => (payloadOf? rest).map (.nan negative true)
  | cs => finiteOf? negative cs

/-- Read a number. Letters may have either case. -/
def ofText? (s : String) : Option Decimal :=
  let (negative, cs) := splitSign (s.toList.map Char.toLower)
  unsignedOf? negative cs

end Decimal

/-- The double nearest to a decimal numeral. -/
def Double.ofText? (s : String) : Option Double := (Decimal.ofText? s).bind Decimal.toDouble?

end JsonPointer
