import JsonPointer.Pointer.Basic
import JsonPointer.Text.Escape

/-!
# Reading pointers

The text of a pointer is empty, or a slash before each of its segments. A segment of digits is a
position, a backslash before digits makes a name of them, and any other segment is an escaped name.
The last segment may end in `::` and the tag of a kind. Text that starts with `#` is
percent-encoded behind it.

Positions are counted from one. With the option `shift` they are counted from zero.
-/

namespace JsonPointer

/-- How to read a pointer. -/
structure ParseOptions where
  /-- Are positions counted from zero? -/
  shift : Bool := false
  deriving DecidableEq, Repr

namespace Pointer

/-! ### Segments -/

/-- The text up to the first slash, and the texts between the slashes behind it. -/
def segments : List Char → List Char × List (List Char)
  | [] => ([], [])
  | c :: cs =>
    let (first, others) := segments cs
    if c = '/' then ([], first :: others) else (c :: first, others)

/-- What stands before and behind the last `::`. -/
def splitTag : List Char → Option (List Char × List Char)
  | [] => none
  | c :: cs =>
    match splitTag cs with
    | some (before, tag) => some (c :: before, tag)
    | none =>
      match c, cs with
      | ':', ':' :: tag => some ([], tag)
      | _, _ => none

/-- Split the tag, if there is one, off a segment. -/
def constraint (segment : List Char) : Except PointerError (List Char × Kind) :=
  match splitTag segment with
  | none => .ok (segment, .any)
  | some (before, tag) =>
    match Kind.ofTag? (String.ofList tag) with
    | some kind => .ok (before, kind)
    | none => .error (.unknownTag (String.ofList tag))

/-- Split the tag off the last of the segments, the first of which is given apart. -/
def constrained : List Char → List (List Char) → Except PointerError (List (List Char) × Kind)
  | segment, [] => (constraint segment).map fun (before, kind) => ([before], kind)
  | segment, next :: others =>
    (constrained next others).map fun (rest, kind) => (segment :: rest, kind)

/-- The position that digits denote. -/
def position (shift : Bool) (digits : List Char) : Except PointerError Token :=
  if Digits.maxDigits < digits.length then .error (.tooManyDigits digits.length)
  else
    match shift, Digits.natOfDigits digits with
    | true, n => .ok (.index n)
    | false, n + 1 => .ok (.index n)
    | false, 0 => .error .positionZero

/-- The token that a segment stands for. -/
def token (shift : Bool) (segment : List Char) : Except PointerError Token :=
  if Digits.isNumeral segment then position shift segment
  else
    match segment with
    | '\\' :: digits =>
      if Digits.isNumeral digits then .ok (.key (String.ofList digits))
      else .ok (.key (String.ofList (Tilde.unescape segment)))
    | _ => .ok (.key (String.ofList (Tilde.unescape segment)))

/-! ### Texts -/

/-- Read the text behind the first slash. The tag is looked at first, then the segments in order. -/
def ofSegments (shift : Bool) (cs : List Char) : Except PointerError Pointer := do
  let (first, others) := segments cs
  let (parts, kind) ← constrained first others
  let tokens ← parts.mapM (token shift)
  ofTokens tokens kind

/-- The characters that a text stands for: those behind a `#` are percent-decoded. -/
def decoded : List Char → List Char
  | '#' :: rest => Percent.decode rest
  | cs => cs

/-- Read a pointer from characters that are not percent-encoded. -/
def ofChars (shift : Bool) : List Char → Except PointerError Pointer
  | [] => .ok root
  | '/' :: rest => ofSegments shift rest
  | cs => .error (.noLeadingSlash (String.ofList cs))

/-- Read a pointer. A given `shift` goes before that of the options. -/
def parse (text : String) (shift : Option Bool) (options : ParseOptions) :
    Except PointerError Pointer :=
  ofChars (shift.getD options.shift) (decoded text.toList)

/-- Read a pointer, with positions counted from one. -/
def ofText (text : String) : Except PointerError Pointer := parse text none {}

end Pointer
end JsonPointer
