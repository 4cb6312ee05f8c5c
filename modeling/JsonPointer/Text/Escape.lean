import JsonPointer.Number.Numeral
import JsonPointer.Text.Utf8

/-!
# Escapes in the texts of pointers

Inside a reference token `~` is written `~0` and `/` is written `~1`, so that a `/` in the text of
a pointer always separates two tokens. `escape` writes that form and `unescape` reads it. Reading
never fails: a `~` that starts neither escape stands for itself.

In the fragment form of a pointer a byte may be written as `%` and two hexadecimal digits. Bytes
that follow each other directly are read together as UTF-8; a character that is not escaped ends
the sequence before it. A `%` without two hexadecimal digits stands for itself, and malformed UTF-8
becomes a replacement character, so decoding never fails either.
-/

namespace JsonPointer

/-! ### Tilde escapes -/

namespace Tilde

def escapeChar (c : Char) : List Char :=
  if c = '~' then ['~', '0'] else if c = '/' then ['~', '1'] else [c]

def escape (cs : List Char) : List Char := cs.flatMap escapeChar

/-- Replace each occurrence of `a` followed by `b` by `c`, from left to right; a replaced pair is
not looked at again. -/
def replacePair (a b c : Char) : List Char → List Char
  | x :: y :: rest =>
    if x = a ∧ y = b then c :: replacePair a b c rest else x :: replacePair a b c (y :: rest)
  | [x] => [x]
  | [] => []

/-- Undo `escape`. The order of the two passes matters: `~01` stands for `~1`, and it would become
`/` if `~0` went first. -/
def unescape (cs : List Char) : List Char :=
  replacePair '~' '0' '~' (replacePair '~' '1' '/' cs)

end Tilde

def escapeToken (token : String) : String := String.ofList (Tilde.escape token.toList)

def unescapeToken (token : String) : String := String.ofList (Tilde.unescape token.toList)

/-! ### Percent-decoding -/

namespace Percent

/-- What percent-encoded text is made of: escaped bytes and characters written as they are. -/
inductive Piece
  | byte (value : Nat)
  | literal (c : Char)
  deriving DecidableEq, Repr

/-- The byte that two hexadecimal digits spell. -/
def escapedByte? (high low : Char) : Option Nat :=
  match Digits.hexValue? high, Digits.hexValue? low with
  | some h, some l => some (16 * h + l)
  | _, _ => none

/-- Split text into its pieces. -/
def pieces : List Char → List Piece
  | '%' :: h :: l :: rest =>
    match escapedByte? h l with
    | some b => .byte b :: pieces rest
    | none => .literal '%' :: pieces (h :: l :: rest)
  | c :: rest => .literal c :: pieces rest
  | [] => []

/-- The text that pieces stand for, when the UTF-8 decoder is in `state` before the first. -/
def assemble (state : Utf8.State) : List Piece → List Char
  | [] => Utf8.lossy (Utf8.finish state)
  | .byte b :: rest =>
    let (output, next) := Utf8.step state b
    Utf8.lossy output ++ assemble next rest
  | .literal c :: rest => Utf8.lossy (Utf8.finish state) ++ c :: assemble none rest

def decode (cs : List Char) : List Char := assemble none (pieces cs)

end Percent

end JsonPointer
