import JsonPointer.Pointer.Basic

/-!
# Reading a tree

The tokens of a pointer are followed one after the other from the root of a tree. A name leads to a
member of an object and a position to an element of an array, of whatever flavour; nothing else can
be stepped into. The fault says at which value the way ends and what the next token was.
-/

namespace JsonPointer

/-- Why a token leads nowhere. -/
inductive ReadFault
  /-- The container has no such member, or takes no such token. -/
  | mismatch (container : Value) (token : Token)
  /-- The container is an array with no more than `offset` elements. -/
  | outOfBounds (container : Value) (offset : Nat)
  /-- The container is a range with more elements than can be counted. -/
  | rangeTooLong (container : Value)

/-- More elements than an array can have, or a range can be asked for. -/
def lengthLimit : Nat := twoPow 63

namespace Value

def isLongRange : Value → Bool
  | .range start stop step => lengthLimit ≤ rangeSize start stop step
  | _ => false

/-- The value that one token leads to. -/
def step (container : Value) : Token → Except ReadFault Value
  | .key name =>
    match container.member? name with
    | some v => .ok v
    | none => .error (.mismatch container (.key name))
  | .index offset =>
    if container.isLongRange then .error (.rangeTooLong container)
    else
      match container.item? offset with
      | some v => .ok v
      | none =>
        if container.isArray then .error (.outOfBounds container offset)
        else .error (.mismatch container (.index offset))

/-- The value that tokens lead to. -/
def follow : Value → List Token → Except ReadFault Value
  | v, [] => .ok v
  | v, t :: ts =>
    match v.step t with
    | .ok child => follow child ts
    | .error fault => .error fault

end Value
end JsonPointer
