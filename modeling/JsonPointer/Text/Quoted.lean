import JsonPointer.Number.Numeral
import JsonPointer.Text.Printable

/-!
# Quoted literals

Messages show a text between quotation marks on one line. The mark is an apostrophe unless the text
holds an apostrophe and no double quote. The mark, the backslash and the characters that cannot be
shown are written as escapes; byte strings are written the same way behind a `b`, with everything
but printable ASCII escaped.
-/

namespace JsonPointer
namespace Quoted

def apostrophe : Char := '\x27'

def doubleQuote : Char := '\x22'

/-- The mark to put around `cs`. -/
def mark (cs : List Char) : Char :=
  if cs.contains apostrophe && !cs.contains doubleQuote then doubleQuote else apostrophe

/-- The escape of a character by its number, in two, four or eight hexadecimal digits. -/
def numericEscape (n : Nat) : List Char :=
  if n < 0x100 then '\\' :: 'x' :: Digits.hexDigits 2 n
  else if n < 0x10000 then '\\' :: 'u' :: Digits.hexDigits 4 n
  else '\\' :: 'U' :: Digits.hexDigits 8 n

def isPlain (c : Char) : Bool := 0x20 ≤ c.toNat && c.toNat < 0x7f

/-- What is left as it is in a literal. -/
structure Style where
  /-- The characters that may stand as they are. -/
  shown : Char → Bool
  /-- Is an apostrophe escaped even where it is not the mark? -/
  escapesApostrophe : Bool

/-- Text shows every printable character. -/
def textStyle : Style := ⟨Printable.isPrintable, false⟩

/-- Byte strings show printable ASCII. Those that can change escape every apostrophe. -/
def bytesStyle (mutable : Bool) : Style := ⟨isPlain, mutable⟩

/-- One character between two marks. -/
def encodeChar (style : Style) (mark c : Char) : List Char :=
  if c = mark ∨ c = '\\' ∨ (c = apostrophe ∧ style.escapesApostrophe) then ['\\', c]
  else if c = '\n' then ['\\', 'n']
  else if c = '\r' then ['\\', 'r']
  else if c = '\t' then ['\\', 't']
  else if style.shown c then [c]
  else numericEscape c.toNat

def encode (style : Style) (cs : List Char) : List Char :=
  let m := mark cs
  m :: (cs.flatMap (encodeChar style m) ++ [m])

end Quoted

def quoteText (s : String) : String := String.ofList (Quoted.encode Quoted.textStyle s.toList)

def quoteBytes (mutable : Bool) (bytes : List UInt8) : String :=
  "b" ++ String.ofList
    (Quoted.encode (Quoted.bytesStyle mutable) (bytes.map fun b => Char.ofNat b.toNat))

end JsonPointer
