import JsonPointer.Error
import JsonPointer.Pointer.Parse

/-!
# Working on a tree

The operations that callers use: `has`, `read`, `readD`, `coerce` and `write` take a value and a
pointer and answer a value or an error. A session is a list of such operations on one tree. An
operation that fails does not end it, and what a failed write has made stays. `build` makes a new
tree by writes, and there the first failure ends it.
-/

namespace JsonPointer

namespace Value

/-- Does the pointer lead anywhere? -/
def has (tree : Value) (p : Pointer) : Except Error Bool :=
  match tree.follow p.tokens with
  | .ok _ => .ok true
  | .error (.rangeTooLong container) => .error ((ReadFault.rangeTooLong container).at p)
  | .error _ => .ok false

def read (tree : Value) (p : Pointer) : Except Error Value :=
  (tree.follow p.tokens).mapError (·.at p)

/-- The value that the pointer leads to, or `default` if it leads nowhere. -/
def readD (tree : Value) (p : Pointer) (default : Value) : Except Error Value :=
  match tree.read p with
  | .error (.read (.mismatch _ _) _) => .ok default
  | .error (.read (.outOfBounds _ _) _) => .ok default
  | answer => answer

/-- What is stored for a value at the pointer. -/
def coerce (v : Value) (p : Pointer) : Except Error Value :=
  match coerce? p.kind v with
  | some converted => .ok converted
  | none => .error ((WriteFault.unconvertible v).at p)

def write (tree : Value) (p : Pointer) (v : Value) (policy : Policy) : Value × Option Error :=
  let a := tree.attempt p v policy
  (a.tree, a.fault?.map (·.at p))

end Value

/-! ### Pointers in arguments -/

/-- A pointer, or a text to be read as one when it is needed. -/
inductive PointerArgument
  | text (s : String)
  | pointer (p : Pointer)
  deriving DecidableEq, Repr

namespace PointerArgument

def resolve : PointerArgument → Except Error Pointer
  | .text s => (Pointer.ofText s).mapError .malformed
  | .pointer p => .ok p

/-- Are the arguments one key? Two texts have to be equal, two pointers lead to the same place, and
a text is never the same key as a pointer. -/
def IsSameKey : PointerArgument → PointerArgument → Prop
  | .text s, .text t => s = t
  | .pointer p, .pointer q => p.SamePlace q
  | _, _ => False

instance : ∀ a b : PointerArgument, Decidable (a.IsSameKey b)
  | .text s, .text t => inferInstanceAs (Decidable (s = t))
  | .pointer p, .pointer q => inferInstanceAs (Decidable (p.SamePlace q))
  | .text _, .pointer _ => inferInstanceAs (Decidable False)
  | .pointer _, .text _ => inferInstanceAs (Decidable False)

end PointerArgument

/-! ### Sessions -/

/-- An operation on a tree. -/
inductive Operation
  | has
  | read
  | readD (default : Value)
  | write (v : Value) (policy : Policy)

structure Step where
  target : PointerArgument
  operation : Operation

/-- What an operation answers if it succeeds. -/
inductive Reply
  | flag (b : Bool)
  | value (v : Value)
  | done

namespace Operation

/-- Carry out an operation at a pointer: the answer, and the tree afterwards. -/
def run (p : Pointer) (tree : Value) : Operation → Except Error Reply × Value
  | .has => ((tree.has p).map .flag, tree)
  | .read => ((tree.read p).map .value, tree)
  | .readD default => ((tree.readD p default).map .value, tree)
  | .write v policy =>
    match tree.write p v policy with
    | (after, none) => (.ok .done, after)
    | (after, some e) => (.error e, after)

end Operation

/-- Carry out a step. -/
def Step.run (tree : Value) (s : Step) : Except Error Reply × Value :=
  match s.target.resolve with
  | .ok p => s.operation.run p tree
  | .error e => (.error e, tree)

/-- Carry out steps in order: for each the answer, and the tree afterwards. -/
def session (tree : Value) : List Step → List (Except Error Reply × Value)
  | [] => []
  | s :: steps =>
    let outcome := s.run tree
    outcome :: session outcome.2 steps

/-! ### New trees -/

/-- Write values one after the other until one fails. -/
def build (tree : Value) (policy : Policy) : List (PointerArgument × Value) → Except Error Value
  | [] => .ok tree
  | (target, v) :: rest => do
    match tree.write (← target.resolve) v policy with
    | (after, none) => build after policy rest
    | (_, some e) => .error e

/-- Put a value under a key: a key that is there keeps its place and takes the value. -/
def putKey (key : PointerArgument) (v : Value) :
    List (PointerArgument × Value) → List (PointerArgument × Value)
  | [] => [(key, v)]
  | entry :: rest =>
    if entry.1.IsSameKey key then (entry.1, v) :: rest else entry :: putKey key v rest

/-- Entries with every key once, at its first place and with its last value. -/
def mergeKeys (entries : List (PointerArgument × Value)) : List (PointerArgument × Value) :=
  entries.foldl (fun merged entry => putKey entry.1 entry.2 merged) []

end JsonPointer
