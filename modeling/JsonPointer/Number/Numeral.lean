/-!
# Numerals

What the texts of numbers are made of. Powers of two and ten, with natural exponents, measure the
formats of numbers. Decimal digits are the ten ASCII ones: `natOfDigits` reads a string of them,
leading zeros allowed, and `digitsOfNat` writes the one without leading zeros.

A decimal number is given by its digits, most significant first, and the power of ten that the last
of them counts. `positional` writes such a number with a point at its place, and `mantissa` is the
part of scientific notation before the exponent: one digit, and the others behind a point.
-/

namespace JsonPointer

/-! ### Powers -/

def twoPow (n : Nat) : Nat := Nat.pow 2 n

def tenPow (n : Nat) : Nat := Nat.pow 10 n

/-! ### Digit strings -/

namespace Digits

def digitValue (c : Char) : Nat := c.toNat - '0'.toNat

/-- At least one character, and decimal digits only. -/
def isNumeral (cs : List Char) : Bool := !cs.isEmpty && cs.all Char.isDigit

/-- The greatest number of digits of an integer in a text. -/
def maxDigits : Nat := 4300

/-- Can the integer be written? One of too many digits cannot. -/
def isPrintable (n : Int) : Bool := n.natAbs < tenPow maxDigits

/-- The number that a digit string denotes; `0` for the empty one. -/
def natOfDigits (cs : List Char) : Nat := cs.foldl (fun n c => 10 * n + digitValue c) 0

def digitsOfNat (n : Nat) : List Char := n.repr.toList

def digitsOfInt (n : Int) : List Char :=
  if n < 0 then '-' :: digitsOfNat n.natAbs else digitsOfNat n.natAbs

/-- The value of a hexadecimal digit, upper or lower case. -/
def hexValue? (c : Char) : Option Nat :=
  if c.isDigit then some (digitValue c)
  else if 'a' ≤ c ∧ c ≤ 'f' then some (c.toNat - 'a'.toNat + 10)
  else if 'A' ≤ c ∧ c ≤ 'F' then some (c.toNat - 'A'.toNat + 10)
  else none

/-- The last `width` hexadecimal digits of `n` in lower case, most significant first. -/
def hexDigits : Nat → Nat → List Char
  | 0, _ => []
  | width + 1, n => hexDigits width (n / 16) ++ [Nat.digitChar (n % 16)]

end Digits

/-! ### Notations -/

namespace Notation

/-- The number `digits · 10 ^ exponent` without an exponent, filled up with zeros where the digits
do not reach the point. There is a point only if digits follow it. -/
def positional (digits : List Char) (exponent : Int) : List Char :=
  let places := (-exponent).toNat
  if exponent ≥ 0 then digits ++ List.replicate exponent.toNat '0'
  else if places < digits.length then
    digits.take (digits.length - places) ++ '.' :: digits.drop (digits.length - places)
  else '0' :: '.' :: (List.replicate (places - digits.length) '0' ++ digits)

/-- The digits with a point behind the first, if others follow. -/
def mantissa : List Char → List Char
  | [] => []
  | [d] => [d]
  | d :: ds => d :: '.' :: ds

/-- The power of ten that the first digit counts. -/
def leading (digits : List Char) (exponent : Int) : Int := exponent + digits.length - 1

/-- An exponent with its sign and at least `width` digits. -/
def signedExponent (width : Nat) (e : Int) : List Char :=
  let digits := Digits.digitsOfNat e.natAbs
  (if e < 0 then '-' else '+') :: (List.replicate (width - digits.length) '0' ++ digits)

end Notation

end JsonPointer
