import JsonPointer.Json.Basic

/-!
# Reading JSON

Besides the standard's documents the reader takes the numbers `NaN`, `Infinity` and `-Infinity`. A
text that is no document is refused with the reason and the place, which is given by what had not
yet been read.
-/

namespace JsonPointer
namespace Json

/-- Why a text is no document. -/
inductive Reason
  | endInValue
  | endInList
  | endInObject
  | endInString
  | expectedColon
  | expectedListEnd
  | expectedObjectEnd
  | expectedIdent
  | expectedValue
  | invalidEscape
  | invalidNumber
  | numberTooLong
  | controlCharacter
  | keyNotString
  | loneSurrogate
  | unfinishedPair
  | trailingComma
  | trailingCharacters
  deriving DecidableEq, Repr

/-- The text of a reason. -/
def Reason.text : Reason → String
  | .endInValue => "EOF while parsing a value"
  | .endInList => "EOF while parsing a list"
  | .endInObject => "EOF while parsing an object"
  | .endInString => "EOF while parsing a string"
  | .expectedColon => "expected \x60:\x60"
  | .expectedListEnd => "expected \x60,\x60 or \x60]\x60"
  | .expectedObjectEnd => "expected \x60,\x60 or \x60\x7d\x60"
  | .expectedIdent => "expected ident"
  | .expectedValue => "expected value"
  | .invalidEscape => "invalid escape"
  | .invalidNumber => "invalid number"
  | .numberTooLong => "number out of range"
  | .controlCharacter =>
    "control character (\\u0000-\\u001F) found while parsing a string"
  | .keyNotString => "key must be a string"
  | .loneSurrogate => "lone leading surrogate in hex escape"
  | .unfinishedPair => "unexpected end of hex escape"
  | .trailingComma => "trailing comma"
  | .trailingCharacters => "trailing characters"

/-- A refusal: the reason, and what had not yet been read. -/
structure Refusal where
  reason : Reason
  rest : List Char
  deriving DecidableEq, Repr

def refuse {α : Type} (reason : Reason) (rest : List Char) : Except Refusal α :=
  .error ⟨reason, rest⟩

def isBlank (c : Char) : Bool := c = ' ' || c = '\t' || c = '\n' || c = '\r'

def skipBlanks (cs : List Char) : List Char := cs.dropWhile isBlank

/-! ### Strings -/

/-- The number of four hexadecimal digits. -/
def hexNumber? (a b c d : Char) : Option Nat :=
  match Digits.hexValue? a, Digits.hexValue? b, Digits.hexValue? c, Digits.hexValue? d with
  | some a, some b, some c, some d => some (((a * 16 + b) * 16 + c) * 16 + d)
  | _, _, _, _ => none

def byteCount (cs : List Char) : Nat := cs.foldl (fun n c => n + c.utf8Size) 0

/-- Refuse a text that should start with four hexadecimal digits and does not. -/
def refuseHex {α : Type} (cs : List Char) : Except Refusal α :=
  if byteCount (cs.take 4) < 4 then refuse .endInString []
  else refuse .invalidEscape (cs.dropWhile fun c => (Digits.hexValue? c).isSome)

/-- The character that a backslash and `c` stand for. -/
def escaped? (c : Char) : Option Char :=
  if c = '\x22' ∨ c = '\\' ∨ c = '/' then some c
  else if c = 'b' then some '\x08'
  else if c = 'f' then some '\x0c'
  else if c = 'n' then some '\n'
  else if c = 'r' then some '\r'
  else if c = 't' then some '\t'
  else none

/-- Is the number the first half of a surrogate pair? -/
def isHighSurrogate (n : Nat) : Bool := 0xd800 ≤ n && n ≤ 0xdbff

def isLowSurrogate (n : Nat) : Bool := 0xdc00 ≤ n && n ≤ 0xdfff

/-- The character that two halves of a surrogate pair stand for. -/
def surrogatePair (high low : Nat) : Char :=
  Char.ofNat (0x10000 + (high - 0xd800) * 0x400 + (low - 0xdc00))

def push (c : Char) (r : List Char × List Char) : List Char × List Char := (c :: r.1, r.2)

/-- Refuse the text behind the first half of a surrogate pair, where no escape follows. -/
def refuseHalf {α : Type} : List Char → Except Refusal α
  | '\\' :: 'u' :: rest => refuseHex rest
  | '\\' :: c :: rest => refuse .unfinishedPair (c :: rest)
  | ['\\'] => refuse .endInString []
  | [] => refuse .endInString []
  | cs => refuse .unfinishedPair cs

/-- Read the rest of a string and the mark behind it. -/
def readString : List Char → Except Refusal (List Char × List Char)
  | [] => refuse .endInString []
  | '\\' :: 'u' :: a :: b :: c :: d :: rest =>
    match hexNumber? a b c d with
    | none => refuseHex (a :: b :: c :: d :: rest)
    | some n =>
      if isLowSurrogate n then refuse .loneSurrogate (d :: rest)
      else if isHighSurrogate n then
        match rest with
        | '\\' :: 'u' :: a' :: b' :: c' :: d' :: rest' =>
          match hexNumber? a' b' c' d' with
          | none => refuseHex (a' :: b' :: c' :: d' :: rest')
          | some n' =>
            if isLowSurrogate n' then
              (readString rest').map (push (surrogatePair n n'))
            else refuse .loneSurrogate (d' :: rest')
        | _ => refuseHalf rest
      else (readString rest).map (push (Char.ofNat n))
  | '\\' :: 'u' :: rest => refuseHex rest
  | ['\\'] => refuse .endInString []
  | '\\' :: c :: rest =>
    match escaped? c with
    | none => refuse .invalidEscape (c :: rest)
    | some e => (readString rest).map (push e)
  | c :: rest =>
    if c = '\x22' then .ok ([], rest)
    else if c.toNat < 0x20 then refuse .controlCharacter (c :: rest)
    else (readString rest).map (push c)

/-! ### Words and numbers -/

/-- Read a word whose first character has been seen. -/
def readWord (j : Json) : List Char → List Char → Except Refusal (Json × List Char)
  | [], cs => .ok (j, cs)
  | _ :: _, [] => refuse .endInValue []
  | e :: es, c :: cs => if c = e then readWord j es cs else refuse .expectedIdent (c :: cs)

/-- Skip at least one digit. -/
def skipDigits : List Char → Except Refusal (List Char)
  | [] => refuse .endInValue []
  | c :: cs =>
    if c.isDigit then .ok (cs.dropWhile Char.isDigit) else refuse .invalidNumber (c :: cs)

/-- Skip the exponent of a number, if it has one. -/
def skipExponent : List Char → Except Refusal (List Char)
  | c :: cs =>
    if c = 'e' ∨ c = 'E' then
      match cs with
      | '+' :: rest => skipDigits rest
      | '-' :: rest => skipDigits rest
      | rest => skipDigits rest
    else .ok (c :: cs)
  | [] => .ok []

/-- Skip the fraction of a number, if it has one, and the exponent. -/
def skipFraction : List Char → Except Refusal (List Char)
  | '.' :: rest => (skipDigits rest).bind skipExponent
  | cs => skipExponent cs

/-- Skip a number that starts with a digit. What stands before the point may be no longer than an
integer; a longer number is refused behind the first digit that is too much. -/
def skipDecimal (cs : List Char) : Except Refusal (List Char) :=
  if Digits.maxDigits < (cs.takeWhile Char.isDigit).length then
    refuse .numberTooLong (cs.drop (Digits.maxDigits + 1))
  else skipFraction (cs.dropWhile Char.isDigit)

/-- Skip a number without its sign. No zero stands before another digit. -/
def skipNumber : List Char → Except Refusal (List Char)
  | [] => refuse .endInValue []
  | '0' :: c :: rest =>
    if c.isDigit then refuse .invalidNumber (c :: rest) else skipFraction (c :: rest)
  | c :: rest =>
    if c.isDigit then skipDecimal (c :: rest) else refuse .invalidNumber (c :: rest)

/-- Read a number that starts here, and behind its sign goes on with `unsigned`. -/
def readNumber (cs unsigned : List Char) : Except Refusal (Json × List Char) :=
  (skipNumber unsigned).map fun rest =>
    (.number (String.ofList (cs.take (cs.length - rest.length))), rest)

/-! ### Documents -/

/-- Read the name of a member and the colon behind it. -/
def readName (cs : List Char) : Except Refusal (String × List Char) := do
  let (name, rest) ← readString cs
  match skipBlanks rest with
  | ':' :: rest => .ok (String.ofList name, rest)
  | [] => refuse .endInObject []
  | rest => refuse .expectedColon rest

mutual

/-- Read a document. The fuel bounds how many parts it may have. -/
def readValue : Nat → List Char → Except Refusal (Json × List Char)
  | 0, cs => refuse .expectedValue cs
  | fuel + 1, cs =>
    match skipBlanks cs with
    | [] => refuse .endInValue []
    | 'n' :: rest => readWord .null ['u', 'l', 'l'] rest
    | 't' :: rest => readWord (.bool true) ['r', 'u', 'e'] rest
    | 'f' :: rest => readWord (.bool false) ['a', 'l', 's', 'e'] rest
    | 'N' :: rest => readWord (.number "NaN") ['a', 'N'] rest
    | 'I' :: rest => readWord (.number "Infinity") "nfinity".toList rest
    | '-' :: 'I' :: rest => readWord (.number "-Infinity") "nfinity".toList rest
    | '-' :: rest => readNumber ('-' :: rest) rest
    | '[' :: rest =>
      match skipBlanks rest with
      | [] => refuse .endInList []
      | ']' :: rest => .ok (.array [], rest)
      | rest => do
        let (items, rest) ← readItems fuel rest
        .ok (.array items, rest)
    | '\x7b' :: rest =>
      match skipBlanks rest with
      | [] => refuse .endInObject []
      | '\x7d' :: rest => .ok (.object [], rest)
      | '\x22' :: rest => do
        let (members, rest) ← readMembers fuel rest
        .ok (.object members, rest)
      | rest => refuse .keyNotString rest
    | '\x22' :: rest => do
      let (cs, rest) ← readString rest
      .ok (.string (String.ofList cs), rest)
    | c :: rest =>
      if c.isDigit then readNumber (c :: rest) (c :: rest) else refuse .expectedValue (c :: rest)

/-- Read the elements of an array and the bracket behind them. -/
def readItems : Nat → List Char → Except Refusal (List Json × List Char)
  | 0, cs => refuse .expectedValue cs
  | fuel + 1, cs => do
    let (item, rest) ← readValue fuel cs
    match skipBlanks rest with
    | [] => refuse .endInList []
    | ']' :: rest => .ok ([item], rest)
    | ',' :: rest =>
      match skipBlanks rest with
      | [] => refuse .endInValue []
      | ']' :: rest => refuse .trailingComma (']' :: rest)
      | rest => do
        let (items, rest) ← readItems fuel rest
        .ok (item :: items, rest)
    | rest => refuse .expectedListEnd rest

/-- Read the members of an object, from behind the mark of the first name, and the brace behind
them. -/
def readMembers : Nat → List Char → Except Refusal (List (String × Json) × List Char)
  | 0, cs => refuse .expectedValue cs
  | fuel + 1, cs => do
    let (name, rest) ← readName cs
    let (v, rest) ← readValue fuel rest
    match skipBlanks rest with
    | [] => refuse .endInObject []
    | '\x7d' :: rest => .ok ([(name, v)], rest)
    | ',' :: rest =>
      match skipBlanks rest with
      | [] => refuse .endInValue []
      | '\x22' :: rest => do
        let (members, rest) ← readMembers fuel rest
        .ok ((name, v) :: members, rest)
      | '\x7d' :: rest => refuse .trailingComma ('\x7d' :: rest)
      | rest => refuse .keyNotString rest
    | rest => refuse .expectedObjectEnd rest

end

/-- Read a text that is one document. Every part of a document takes at least one character, so
twice as many parts as characters are enough. -/
def read (cs : List Char) : Except Refusal Json := do
  let (j, rest) ← readValue (2 * cs.length + 2) cs
  match skipBlanks rest with
  | [] => .ok j
  | rest => refuse .trailingCharacters rest

/-! ### Places -/

/-- The line and column of the place in `cs` where `rest` begins. Lines are counted from one, and so
are the bytes of a line; at the end of the text it is the last byte that is given. -/
def place (cs rest : List Char) : Nat × Nat :=
  let before := cs.take (cs.length - rest.length)
  let line := before.count '\n' + 1
  let column := byteCount (before.reverse.takeWhile (· ≠ '\n'))
  match rest with
  | [] => (line, column)
  | '\n' :: _ => (line + 1, 0)
  | _ => (line, column + 1)

def Refusal.text (cs : List Char) (r : Refusal) : String :=
  let (line, column) := place cs r.rest
  r.reason.text ++ " at line " ++ toString line ++ " column " ++ toString column

end Json
end JsonPointer
