import JsonPointer.Coerce
import JsonPointer.Tree.Read

/-!
# Writing into a tree

A write follows the tokens of a pointer like a read, but makes what it needs on the way. A member
that an object does not have is added, an array grows until it has the position, and where nothing
is stored yet a new container is put: a list if the next token is a position, otherwise an object.
Inside an object the new object has the flavour of that one.

A write that fails leaves what it made until then, so the outcome of every step is an `Attempt`: the
container as it is afterwards, together with the fault, if there was one.
-/

namespace JsonPointer

/-- Why nothing could be written. -/
inductive WriteFault
  /-- The pointer is that to the whole tree. -/
  | atRoot (tree : Value)
  /-- The whole tree is no container that can be written to. -/
  | rootNotWritable (tree : Value) (token : Token)
  /-- The container does not take the token. -/
  | mismatch (container : Value) (token : Token)
  /-- The container takes the token, but has elements of another type than the value. -/
  | cannotStore (container : Value) (token : Token) (v : Value)
  /-- The value cannot be converted to the kind of the pointer. -/
  | unconvertible (v : Value)
  /-- The pointer has more tokens than allowed. -/
  | tooDeep (limit : Int)
  /-- An array would be longer than allowed. -/
  | tooLong (size : Nat) (limit : Int)
  /-- An array would have to grow by more elements than an array can have. -/
  | growthTooGreat
  /-- The number is out of the range of the elements. -/
  | numberOutOfRange
  /-- The number is a signaling one, which cannot be an element. -/
  | numberSignals

/-- Limits of a write; `none` is no limit. -/
structure Policy where
  /-- The greatest number of tokens. -/
  maxDepth : Option Int := none
  /-- The greatest length that an array may grow to. -/
  maxLength : Option Int := none
  deriving DecidableEq, Repr

/-- A tree after something was tried on it, and the fault if that failed. -/
structure Attempt where
  tree : Value
  fault? : Option WriteFault

/-! ### Elements of typed arrays -/

/-- Why a typed array cannot hold a value. -/
inductive StoreFault
  | wrongType
  | outOfRange
  | signaling
  deriving DecidableEq, Repr

/-- The double that a floating-point element becomes. -/
def elementDouble : Value → Except StoreFault Double
  | .bool b => .ok (Double.ofInt (if b then 1 else 0))
  | .int n => finite (Double.ofInt n)
  | .float x => .ok x
  | .fraction r => finite (Double.ofRat r)
  | .decimal d =>
    match d.toDouble? with
    | some x => .ok x
    | none => .error .signaling
  | _ => .error .wrongType
where
  /-- A number that was finite has to stay so. -/
  finite (x : Double) : Except StoreFault Double :=
    if x.isInfinite then .error .outOfRange else .ok x

/-- The integer that an integer element becomes. -/
def elementInt (f : IntFormat) : Value → Except StoreFault Int
  | .bool b => .ok (if b then 1 else 0)
  | .int n => if f.Holds n then .ok n else .error .outOfRange
  | _ => .error .wrongType

/-- The character that a text of one character is. -/
def elementChar : Value → Except StoreFault Char
  | .text s =>
    match s.toList with
    | [c] => .ok c
    | _ => .error .wrongType
  | _ => .error .wrongType

namespace TypedArray

/-- Replace the element at an offset. -/
def store (offset : Nat) (v : Value) : TypedArray → Except StoreFault TypedArray
  | .ints f items => (elementInt f v).map fun n => .ints f (items.set offset n)
  | .floats single items =>
    (elementDouble v).map fun x =>
      .floats single (items.set offset (if single then x.toSingle else x))
  | .chars items => (elementChar v).map fun c => .chars (items.set offset c)

end TypedArray

namespace Value

/-! ### One container -/

/-- Check that an array may grow from `length` to `size`, and give the number of new elements. -/
def growth (limit : Option Int) (length size : Nat) : Except WriteFault Nat :=
  let missing := size - length
  if missing = 0 then .ok 0
  else
    match limit with
    | some limit => if (size : Int) > limit then .error (.tooLong size limit) else bounded missing
    | none => bounded missing
where
  /-- More new elements than an array can have are refused. -/
  bounded (missing : Nat) : Except WriteFault Nat :=
    if lengthLimit ≤ missing then .error .growthTooGreat else .ok missing

/-- Make room for a token: check that the container takes it, and let an array grow until it has
the position. New elements are `missing`, or zeros in a typed array. -/
def reserve (limit : Option Int) : Value → Token → Except WriteFault Value
  | .object flavour members, .key name =>
    if flavour.isWritable then .ok (.object flavour members)
    else .error (.mismatch (.object flavour members) (.key name))
  | .array flavour items, .index offset =>
    if flavour.isWritable then
      (growth limit items.length (offset + 1)).map fun n =>
        .array flavour (items ++ List.replicate n .missing)
    else .error (.mismatch (.array flavour items) (.index offset))
  | .typed content, .index offset =>
    (growth limit content.size (offset + 1)).map fun n => .typed (content.pad n)
  | container, token => .error (.mismatch container token)

def slot (container : Value) : Token → Value
  | .key name => (container.member? name).getD .missing
  | .index offset => (container.item? offset).getD .missing

/-- The container that is put where nothing is stored and `next` leads on. -/
def fresh (parent : Value) (next : Token) : Value :=
  match next, parent with
  | .index _, _ => .array .list []
  | .key _, .object flavour _ => .object flavour []
  | .key _, _ => .object .plain []

/-- What the next step of a write goes into: the value in the slot, or a new container. -/
def slotOrFresh (container : Value) (t next : Token) : Value :=
  let v := container.slot t
  if v.isMissing then container.fresh next else v

/-- Put a value into a slot that there is room for. A typed array holds nothing that a write goes
on into, so it stays as it is. -/
def put (v : Value) : Value → Token → Value
  | .object flavour members, .key name => .object flavour (Members.put name v members)
  | .array flavour items, .index offset => .array flavour (items.set offset v)
  | container, _ => container

/-- Store a value in a slot that there is room for. -/
def assign (v : Value) : Value → Token → Attempt
  | .typed content, .index offset =>
    match content.store offset v with
    | .ok stored => ⟨.typed stored, none⟩
    | .error .wrongType => ⟨.typed content, some (.cannotStore (.typed content) (.index offset) v)⟩
    | .error .outOfRange => ⟨.typed content, some .numberOutOfRange⟩
    | .error .signaling => ⟨.typed content, some .numberSignals⟩
  | container, t => ⟨put v container t, none⟩

/-! ### The way down -/

/-- Write a value at the tokens `t :: ts` below a container. -/
def writeBelow (limit : Option Int) (v : Value) : Value → Token → List Token → Attempt
  | container, t, [] =>
    match container.reserve limit t with
    | .ok grown => assign v grown t
    | .error fault => ⟨container, some fault⟩
  | container, t, next :: ts =>
    match container.reserve limit t with
    | .ok grown =>
      let below := writeBelow limit v (grown.slotOrFresh t next) next ts
      ⟨put below.tree grown t, below.fault?⟩
    | .error fault => ⟨container, some fault⟩

def depthAllowed (policy : Policy) (depth : Nat) : Option WriteFault :=
  policy.maxDepth.bind fun limit => if (depth : Int) > limit then some (.tooDeep limit) else none

/-- Write a value into a tree. The pointer, the root of the tree, the depth and the value are
checked in this order before anything changes. -/
def attempt (tree : Value) (p : Pointer) (v : Value) (policy : Policy) : Attempt :=
  match p.tokens with
  | [] => ⟨tree, some (.atRoot tree)⟩
  | t :: ts =>
    if !tree.isWritable then ⟨tree, some (.rootNotWritable tree t)⟩
    else
      match depthAllowed policy p.depth with
      | some fault => ⟨tree, some fault⟩
      | none =>
        match coerce? p.kind v with
        | none => ⟨tree, some (.unconvertible v)⟩
        | some converted => writeBelow policy.maxLength converted tree t ts

end Value
end JsonPointer
