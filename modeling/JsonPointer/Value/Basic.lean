import JsonPointer.Number.Decimal
import JsonPointer.Value.TypedArray

/-!
# Values

The trees that pointers lead into are made of values. Besides the JSON types they may hold exact
fractions and decimals, byte strings, sets and ranges, and their objects and arrays come in several
flavours, only some of which can be written to. A slot that nothing has been stored in yet holds
`missing`, which is not JSON's `null`.

An object is the list of its members in their order. Nearly always a name is text; a pointer reaches
no other. Sets, byte strings and text are neither objects nor arrays.

The kind of a value is one of the six JSON types, or `any`, which constrains nothing. Each of the
six has a tag that the text of a pointer may end in.
-/

namespace JsonPointer

/-! ### Kinds -/

/-- A type constraint. -/
inductive Kind
  | string
  | number
  | object
  | array
  | boolean
  | null
  | any
  deriving DecidableEq, Repr, Inhabited

namespace Kind

/-- The name of a kind. -/
def name : Kind → String
  | .string => "string"
  | .number => "number"
  | .object => "object"
  | .array => "array"
  | .boolean => "boolean"
  | .null => "null"
  | .any => "any"

/-- The kinds that constrain a value. -/
def constraints : List Kind := [.string, .number, .object, .array, .boolean, .null]

def all : List Kind := constraints ++ [.any]

/-- The kind that a tag stands for. Having no constraint is not written, so `any` is no tag. -/
def ofTag? (tag : String) : Option Kind := constraints.find? (·.name = tag)

def ofName? (name : String) : Option Kind := all.find? (·.name = name)

end Kind

/-! ### Nodes -/

/-- The flavours of objects. -/
inductive ObjectFlavour
  /-- The common object. -/
  | plain
  /-- An object that keeps an order of its own. -/
  | ordered
  /-- A view of an object, which cannot be written through. -/
  | view
  deriving DecidableEq, Repr

/-- The flavours of arrays of arbitrary values. -/
inductive ArrayFlavour
  /-- The common array. -/
  | list
  /-- An array of a fixed length and content. -/
  | tuple
  /-- An array that is a queue at both ends. It has no greatest length. -/
  | deque
  deriving DecidableEq, Repr

/-- A node of a tree. -/
inductive Value
  | missing
  | null
  | bool (b : Bool)
  | int (n : Int)
  | float (x : Double)
  | fraction (r : Rat)
  | decimal (d : Decimal)
  | text (s : String)
  | bytes (mutable : Bool) (content : List UInt8)
  | set (frozen : Bool) (items : List Value)
  | range (start stop step : Int)
  | array (flavour : ArrayFlavour) (items : List Value)
  | typed (content : TypedArray)
  | object (flavour : ObjectFlavour) (members : List (Value × Value))
  deriving Inhabited

/-- Can members be added and replaced? -/
def ObjectFlavour.isWritable : ObjectFlavour → Bool
  | .plain => true
  | .ordered => true
  | .view => false

/-- Can elements be added and replaced? -/
def ArrayFlavour.isWritable : ArrayFlavour → Bool
  | .list => true
  | .tuple => false
  | .deque => true

/-! ### Members -/

abbrev Members := List (Value × Value)

def Value.isText (s : String) : Value → Bool
  | .text t => t = s
  | _ => false

namespace Members

def find? (name : String) (members : Members) : Option Value :=
  (List.find? (·.1.isText name) members).map (·.2)

/-- Give the member of that name the value `v`, where it stands; a new member goes to the end. -/
def put (name : String) (v : Value) : Members → Members
  | [] => [(.text name, v)]
  | member :: rest =>
    if member.1.isText name then (member.1, v) :: rest else member :: put name v rest

end Members

/-! ### Ranges -/

/-- The number of elements of the range from `start` towards `stop`, which is not in it. -/
def rangeSize (start stop step : Int) : Nat :=
  if 0 < step then ((stop - start + step - 1) / step).toNat
  else if step < 0 then ((start - stop - step - 1) / -step).toNat
  else 0

def rangeItem (start step : Int) (offset : Nat) : Int := start + offset * step

namespace TypedArray

/-- The elements as values. -/
def values : TypedArray → List Value
  | .ints _ items => items.map .int
  | .floats _ items => items.map .float
  | .chars items => items.map fun c => .text (String.singleton c)

end TypedArray

/-! ### Objects and arrays -/

namespace Value

def isObject : Value → Bool
  | .object _ _ => true
  | _ => false

/-- The number of elements, if the value is an array. -/
def length? : Value → Option Nat
  | .array _ items => some items.length
  | .typed content => some content.size
  | .range start stop step => some (rangeSize start stop step)
  | _ => none

def isArray (v : Value) : Bool := v.length?.isSome

def isWritableObject : Value → Bool
  | .object flavour _ => flavour.isWritable
  | _ => false

/-- Is the value an array that can be written to? -/
def isWritableArray : Value → Bool
  | .array flavour _ => flavour.isWritable
  | .typed _ => true
  | _ => false

def isWritable (v : Value) : Bool := v.isWritableObject || v.isWritableArray

def member? (name : String) : Value → Option Value
  | .object _ members => Members.find? name members
  | _ => none

/-- The element at an offset, if the value is an array that is long enough. -/
def item? (offset : Nat) : Value → Option Value
  | .array _ items => items[offset]?
  | .typed content => content.values[offset]?
  | .range start stop step =>
    if offset < rangeSize start stop step then some (.int (rangeItem start step offset)) else none
  | _ => none

/-- The elements of an array, in order. -/
def items? : Value → Option (List Value)
  | .array _ items => some items
  | .typed content => some content.values
  | .range start stop step =>
    some ((List.range (rangeSize start stop step)).map fun i => .int (rangeItem start step i))
  | _ => none

/-- Does the value count as true? Empty containers, zeros and what is no value do not. -/
def isTruthy : Value → Bool
  | .missing => false
  | .null => false
  | .bool b => b
  | .int n => n ≠ 0
  | .float x => !x.isZero
  | .fraction r => r ≠ 0
  | .decimal d => !d.isZero
  | .text s => !s.isEmpty
  | .bytes _ content => !content.isEmpty
  | .set _ items => !items.isEmpty
  | .range start stop step => rangeSize start stop step ≠ 0
  | .array _ items => !items.isEmpty
  | .typed content => content.size ≠ 0
  | .object _ members => !members.isEmpty

/-- Is the value of the kind? Sets and byte strings are of none, and neither are arrays that cannot
be written to; a truth value is no number, and neither is a decimal. -/
def hasKind : Kind → Value → Bool
  | .any, _ => true
  | .string, .text _ => true
  | .number, .int _ => true
  | .number, .float _ => true
  | .number, .fraction _ => true
  | .object, .object _ _ => true
  | .array, .array .list _ => true
  | .array, .typed _ => true
  | .boolean, .bool _ => true
  | .null, .null => true
  | _, _ => false

end Value
end JsonPointer
