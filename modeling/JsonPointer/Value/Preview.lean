import JsonPointer.Number.Shortest
import JsonPointer.Text.Quoted
import JsonPointer.Value.Basic

/-!
# Values in messages

`Value.shown` is the text of a value in a message: one line that tells every two flavours and
numeric types apart. `Value.preview` cuts it to a length. A value that holds an integer of too many
digits cannot be written, not even if its text is cut before that integer (`Value.isPrintable`).
-/

namespace JsonPointer

def bracketed (opening : String) (entries : List String) (closing : String) : String :=
  opening ++ ", ".intercalate entries ++ closing

def showInt (n : Int) : String := String.ofList (Digits.digitsOfInt n)

/-- The text of a typed array: its letter, and its elements if it has any. -/
def TypedArray.shown (a : TypedArray) : String :=
  let opening := "array(" ++ quoteText (String.singleton a.letter)
  match a with
  | .ints _ items =>
    if items.isEmpty then opening ++ ")"
    else opening ++ bracketed ", [" (items.map showInt) "])"
  | .floats _ items =>
    if items.isEmpty then opening ++ ")"
    else opening ++ bracketed ", [" (items.map Double.text) "])"
  | .chars items =>
    if items.isEmpty then opening ++ ")"
    else opening ++ ", " ++ quoteText (String.ofList items) ++ ")"

namespace Value

def braced (entries : List String) : String := bracketed "\x7b" entries "\x7d"

/-- The text of an array from the texts of its elements. A tuple of one has a comma behind it. -/
def shownArray : ArrayFlavour → List String → String
  | .list, entries => bracketed "[" entries "]"
  | .tuple, [entry] => "(" ++ entry ++ ",)"
  | .tuple, entries => bracketed "(" entries ")"
  | .deque, entries => bracketed "deque([" entries "])"

/-- The text of an object from the texts of its members. -/
def shownObject : ObjectFlavour → List (String × String) → String
  | .plain, entries => braced (entries.map fun (k, v) => k ++ ": " ++ v)
  | .view, entries =>
    "mappingproxy(" ++ braced (entries.map fun (k, v) => k ++ ": " ++ v) ++ ")"
  | .ordered, [] => "OrderedDict()"
  | .ordered, entries =>
    bracketed "OrderedDict([" (entries.map fun (k, v) => "(" ++ k ++ ", " ++ v ++ ")") "])"

/-- The text of a set from the texts of its elements. An empty pair of braces is an object. -/
def shownSet : Bool → List String → String
  | false, [] => "set()"
  | false, entries => braced entries
  | true, [] => "frozenset()"
  | true, entries => "frozenset(" ++ braced entries ++ ")"

/-- The text of a value in a message. -/
def shown : Value → String
  | .missing => "MISSING"
  | .null => "None"
  | .bool b => if b then "True" else "False"
  | .int n => showInt n
  | .float x => x.text
  | .fraction r => "Fraction(" ++ showInt r.num ++ ", " ++ showInt r.den ++ ")"
  | .decimal d => "Decimal(" ++ quoteText d.text ++ ")"
  | .text s => quoteText s
  | .bytes mutable content =>
    let literal := quoteBytes mutable content
    if mutable then "bytearray(" ++ literal ++ ")" else literal
  | .set frozen items => shownSet frozen (shownItems items)
  | .range start stop step =>
    bracketed "range(" ([start, stop] ++ (if step = 1 then [] else [step]) |>.map showInt) ")"
  | .array flavour items => shownArray flavour (shownItems items)
  | .typed content => content.shown
  | .object flavour members => shownObject flavour (shownMembers members)
where
  /-- The texts of elements. -/
  shownItems : List Value → List String
    | [] => []
    | item :: items => item.shown :: shownItems items
  /-- The texts of members. -/
  shownMembers : List (Value × Value) → List (String × String)
    | [] => []
    | (name, v) :: members => (name.shown, v.shown) :: shownMembers members

/-- Can the value be written? The elements of a typed array always can, for none is wider than 64
bits. -/
def isPrintable : Value → Bool
  | .int n => Digits.isPrintable n
  | .fraction r => Digits.isPrintable r.num && Digits.isPrintable r.den
  | .range start stop step => [start, stop, step].all Digits.isPrintable
  | .set _ items => allItems items
  | .array _ items => allItems items
  | .object _ members => allMembers members
  | _ => true
where
  /-- Can all the elements be written? -/
  allItems : List Value → Bool
    | [] => true
    | item :: items => item.isPrintable && allItems items
  /-- Can all the members be written, and their names? -/
  allMembers : List (Value × Value) → Bool
    | [] => true
    | (name, v) :: members => name.isPrintable && v.isPrintable && allMembers members

/-- The name of a value's type in a message. -/
def typeName : Value → String
  | .missing => "MISSING"
  | .null => "NoneType"
  | .bool _ => "bool"
  | .int _ => "int"
  | .float _ => "float"
  | .fraction _ => "Fraction"
  | .decimal _ => "Decimal"
  | .text _ => "str"
  | .bytes mutable _ => if mutable then "bytearray" else "bytes"
  | .set frozen _ => if frozen then "frozenset" else "set"
  | .range _ _ _ => "range"
  | .array .list _ => "list"
  | .array .tuple _ => "tuple"
  | .array .deque _ => "deque"
  | .typed _ => "array"
  | .object .plain _ => "dict"
  | .object .ordered _ => "OrderedDict"
  | .object .view _ => "mappingproxy"

end Value

/-- The first `n` characters; for a negative `n`, all but the last `-n`. -/
def firstChars (cs : List Char) (n : Int) : List Char :=
  if 0 ≤ n then cs.take n.toNat else cs.take (cs.length - n.natAbs)

/-- The text of a value, cut so that three dots end it at `limit` characters if it is longer. -/
def Value.preview (v : Value) (limit : Int) : String :=
  let cs := v.shown.toList
  if (cs.length : Int) > limit then String.ofList (firstChars cs (limit - 3) ++ ['.', '.', '.'])
  else v.shown

def previewLimit : Int := 60

end JsonPointer
