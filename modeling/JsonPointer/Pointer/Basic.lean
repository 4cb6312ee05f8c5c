import JsonPointer.Number.Numeral
import JsonPointer.Text.Escape
import JsonPointer.Value.Preview

/-!
# Pointers

A pointer is a list of tokens, each a member name or the position of an array element, and a
constraint on the kind of the value it leads to. Positions are counted from one in texts and
messages; a token holds the offset, counted from zero, so that every token is a valid one.

Two pointers lead to the same place if they have the same tokens. The constraint plays no part in
that. The root pointer has no tokens and no constraint.
-/

namespace JsonPointer

/-- A step from a container to what it holds. -/
inductive Token
  /-- To the member of that name. -/
  | key (name : String)
  /-- To the element with `offset` elements before it. -/
  | index (offset : Nat)
  deriving DecidableEq, Repr

/-- Why something is no pointer. -/
inductive PointerError
  /-- The text neither is empty nor starts with a slash. -/
  | noLeadingSlash (text : String)
  /-- The text ends in a tag that names no JSON type. -/
  | unknownTag (tag : String)
  /-- A position of zero, where positions are counted from one. -/
  | positionZero
  /-- A position of too many digits. -/
  | tooManyDigits (count : Nat)
  /-- The value is neither a name nor a position. -/
  | notAToken (v : Value)
  /-- The integer is less than one. -/
  | positionBelowOne (n : Int)
  /-- A constraint without tokens. -/
  | constrainedRoot

namespace PointerError

/-- The text of the error. -/
def message : PointerError → String
  | .noLeadingSlash text =>
    "JSON Pointer must start with '/' or be empty, got: " ++ quoteText text
  | .unknownTag tag =>
    "You specified a type that JSON doesn't recognize! Instead of '::" ++ tag ++
      "', use one of '::string', '::number', '::object', '::array', '::boolean', or '::null'."
  | .positionZero =>
    "Array indices start at 1, use '1' instead of '0' (or parse with shift_index=True)"
  | .tooManyDigits count =>
    "Exceeds the limit (4300 digits) for integer string conversion: value has " ++
      toString count ++ " digits; use sys.set_int_max_str_digits() to increase the limit"
  | .notAToken v => "Pointer tokens must be str keys or int indices, got " ++ v.shown
  | .positionBelowOne n => "Array indices start at 1, got " ++ showInt n
  | .constrainedRoot => "The root pointer cannot carry a type constraint"

end PointerError

/-! ### Tokens -/

namespace Token

/-- The token that a value stands for: text is a name, an integer from one on a position. -/
def ofValue : Value → Except PointerError Token
  | .text s => .ok (.key s)
  | .int n => if n < 1 then .error (.positionBelowOne n) else .ok (.index (n - 1).toNat)
  | v => .error (.notAToken v)

def toValue : Token → Value
  | .key name => .text name
  | .index offset => .int (offset + 1)

/-- Can the token be written? A position of too many digits cannot. -/
def IsPrintable : Token → Prop
  | .key _ => True
  | .index offset => offset + 1 < tenPow Digits.maxDigits

instance : DecidablePred IsPrintable
  | .key _ => inferInstanceAs (Decidable True)
  | .index offset => inferInstanceAs (Decidable (offset + 1 < tenPow Digits.maxDigits))

/-- The token in the text of a pointer. A name that consists of digits has a backslash before it, so
that it does not read as a position; in other names the characters with a meaning are escaped. -/
def chars : Token → List Char
  | .key name =>
    if Digits.isNumeral name.toList then '\\' :: name.toList else Tilde.escape name.toList
  | .index offset => Digits.digitsOfNat (offset + 1)

end Token

/-! ### Pointers -/

/-- The way to a place in a tree, and what kind of value may be stored there. -/
structure Pointer where
  tokens : List Token := []
  kind : Kind := .any
  /-- The root carries no constraint. -/
  root_unconstrained : tokens = [] → kind = .any := by simp
  deriving DecidableEq, Repr

namespace Pointer

def root : Pointer := {}

def ofTokens (tokens : List Token) (kind : Kind) : Except PointerError Pointer :=
  if h : tokens = [] → kind = .any then .ok ⟨tokens, kind, h⟩ else .error .constrainedRoot

/-- The pointer with the tokens that values stand for. The tokens are looked at first, in order. -/
def ofValues (values : List Value) (kind : Kind) : Except PointerError Pointer := do
  ofTokens (← values.mapM Token.ofValue) kind

def depth (p : Pointer) : Nat := p.tokens.length

def isRoot (p : Pointer) : Bool := p.tokens.isEmpty

/-- The pointer to the container of the place, without a constraint. The root is its own parent. -/
def parent (p : Pointer) : Pointer := { tokens := p.tokens.dropLast }

/-- The pointer to what a container at the place holds, without a constraint. -/
def child (p : Pointer) (t : Token) : Pointer := { tokens := p.tokens ++ [t] }

/-- Go on from the place by several steps, which values stand for. -/
def descend : Pointer → List Value → Except PointerError Pointer
  | p, [] => .ok p
  | p, v :: values => do descend (p.child (← Token.ofValue v)) values

/-- The pointer and its parent, the parent of that, and so on, `n` times. -/
def ancestors : Nat → Pointer → List Pointer
  | 0, p => [p]
  | n + 1, p => p :: ancestors n p.parent

def SamePlace (p q : Pointer) : Prop := p.tokens = q.tokens

instance (p q : Pointer) : Decidable (p.SamePlace q) :=
  inferInstanceAs (Decidable (p.tokens = q.tokens))

def IsPrintable (p : Pointer) : Prop := ∀ t ∈ p.tokens, t.IsPrintable

instance : DecidablePred IsPrintable := fun p =>
  inferInstanceAs (Decidable (∀ t ∈ p.tokens, t.IsPrintable))

/-- The tag at the end of the text of a pointer, behind its separator. -/
def tagChars (kind : Kind) : List Char :=
  if kind = .any then [] else ':' :: ':' :: kind.name.toList

/-- The characters of the text of a pointer: a slash before each token, and the tag. -/
def chars (p : Pointer) : List Char :=
  (p.tokens.flatMap fun t => '/' :: t.chars) ++ tagChars p.kind

def text (p : Pointer) : String := String.ofList p.chars

/-- The text of a pointer in a message about pointers. -/
def shown (p : Pointer) : String := "Pointer(" ++ quoteText p.text ++ ")"

end Pointer
end JsonPointer
