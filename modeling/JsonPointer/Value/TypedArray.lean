import JsonPointer.Number.Double

/-!
# Typed arrays

A typed array holds elements of one type only: integers of a fixed width, floating-point numbers,
or single characters. It can grow and its elements can be replaced, like those of any array, but
only by values that its type can hold.
-/

namespace JsonPointer

/-- The width of an integer element. -/
inductive IntWidth
  | byte
  | short
  | int
  | long
  | longLong
  deriving DecidableEq, Repr

namespace IntWidth

/-- The number of bits. -/
def bits : IntWidth → Nat
  | .byte => 8
  | .short => 16
  | .int => 32
  | .long => 64
  | .longLong => 64

/-- The letter of the signed type of that width. -/
def letter : IntWidth → Char
  | .byte => 'b'
  | .short => 'h'
  | .int => 'i'
  | .long => 'l'
  | .longLong => 'q'

def all : List IntWidth := [.byte, .short, .int, .long, .longLong]

end IntWidth

/-- The type of an integer element. -/
structure IntFormat where
  width : IntWidth
  signed : Bool
  deriving DecidableEq, Repr

namespace IntFormat

def low (f : IntFormat) : Int := if f.signed then -(twoPow (f.width.bits - 1) : Int) else 0

def high (f : IntFormat) : Int :=
  (twoPow (if f.signed then f.width.bits - 1 else f.width.bits) : Int) - 1

def Holds (f : IntFormat) (n : Int) : Prop := f.low ≤ n ∧ n ≤ f.high

instance (f : IntFormat) (n : Int) : Decidable (f.Holds n) :=
  inferInstanceAs (Decidable (_ ∧ _))

/-- The letter of the type: lower case for signed elements, upper case for unsigned ones. -/
def letter (f : IntFormat) : Char := if f.signed then f.width.letter else f.width.letter.toUpper

def ofLetter? (c : Char) : Option IntFormat :=
  (IntWidth.all.flatMap fun w => [IntFormat.mk w true, IntFormat.mk w false]).find? (·.letter = c)

end IntFormat

/-- An array whose elements have one type. -/
inductive TypedArray
  | ints (format : IntFormat) (items : List Int)
  | floats (single : Bool) (items : List Double)
  | chars (items : List Char)
  deriving DecidableEq, Repr

namespace TypedArray

/-- The letter of the element type. -/
def letter : TypedArray → Char
  | .ints f _ => f.letter
  | .floats single _ => if single then 'f' else 'd'
  | .chars _ => 'u'

/-- The number of elements. -/
def size : TypedArray → Nat
  | .ints _ items => items.length
  | .floats _ items => items.length
  | .chars items => items.length

def zero : Double := Double.ofInt 0

/-- Add `n` elements at the end: zeros, or NUL characters. -/
def pad (n : Nat) : TypedArray → TypedArray
  | .ints f items => .ints f (items ++ List.replicate n 0)
  | .floats single items => .floats single (items ++ List.replicate n zero)
  | .chars items => .chars (items ++ List.replicate n (Char.ofNat 0))

end TypedArray
end JsonPointer
