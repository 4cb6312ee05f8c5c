import JsonPointer.Number.Numeral

/-!
# JSON texts

A JSON document as it stands in a text, with the members of its objects in the order of the text and
numbers as they are written. `Json.text` writes a document without blanks.
-/

namespace JsonPointer

/-- A JSON document. -/
inductive Json
  | null
  | bool (b : Bool)
  | number (literal : String)
  | string (s : String)
  | array (items : List Json)
  | object (members : List (String × Json))

namespace Json

/-- The value of the last member of that name. -/
def field? (name : String) (members : List (String × Json)) : Option Json :=
  (members.reverse.find? (·.1 = name)).map (·.2)

/-- A character inside a string: the mark, the backslash and the control characters are escaped. -/
def stringChar (c : Char) : List Char :=
  if c = '\x22' ∨ c = '\\' then ['\\', c]
  else if c = '\x08' then ['\\', 'b']
  else if c = '\t' then ['\\', 't']
  else if c = '\n' then ['\\', 'n']
  else if c = '\x0c' then ['\\', 'f']
  else if c = '\r' then ['\\', 'r']
  else if c.toNat < 0x20 then '\\' :: 'u' :: Digits.hexDigits 4 c.toNat
  else [c]

/-- A string between its marks. -/
def stringChars (cs : List Char) : List Char := '\x22' :: (cs.flatMap stringChar ++ ['\x22'])

/-- The characters of a document. -/
def chars : Json → List Char
  | .null => "null".toList
  | .bool b => (if b then "true" else "false").toList
  | .number literal => literal.toList
  | .string s => stringChars s.toList
  | .array items => '[' :: itemChars items
  | .object members => '\x7b' :: memberChars members
where
  /-- The elements of an array, and the bracket behind them. -/
  itemChars : List Json → List Char
    | [] => [']']
    | [item] => item.chars ++ [']']
    | item :: items => item.chars ++ ',' :: itemChars items
  /-- The members of an object, and the brace behind them. -/
  memberChars : List (String × Json) → List Char
    | [] => ['\x7d']
    | [(name, v)] => stringChars name.toList ++ ':' :: (v.chars ++ ['\x7d'])
    | (name, v) :: members =>
      stringChars name.toList ++ ':' :: (v.chars ++ ',' :: memberChars members)

def text (j : Json) : String := String.ofList j.chars

end Json
end JsonPointer
