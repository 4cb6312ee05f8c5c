import JsonPointer.Text.Utf8
import JsonPointer.Value.Basic

/-!
# Conversion to a kind

What is stored under a constrained pointer is first converted to the kind. `missing` becomes the
kind's null value. A value of the kind stays as it is. Any other value is converted only where
nothing of it is lost or guessed: numbers of other types become doubles, read-only arrays, queues
and sets become lists, and objects become plain ones; no text is read as a number.
-/

namespace JsonPointer

/-- What `missing` becomes under a constraint. Under `null`, and under no constraint, it stays. -/
def Kind.nullValue : Kind → Value
  | .string => .text ""
  | .number => .int 0
  | .object => .object .plain []
  | .array => .array .list []
  | .boolean => .bool false
  | .null => .missing
  | .any => .missing

namespace Value

/-- The text of a value that may stand where text is expected: byte strings may, if they hold
UTF-8, and so may `missing`, by its name. -/
def asText? : Value → Option String
  | .text s => some s
  | .bytes _ content => (Utf8.decode? content).map String.ofList
  | .missing => some "MISSING"
  | _ => none

/-- Members with their names as text, if all of them can be. Of two members with one name the later
value stands at the earlier place. -/
def textMembers? (acc : Members) : Members → Option Members
  | [] => some acc
  | (name, v) :: rest =>
    match name.asText? with
    | some s => textMembers? (Members.put s v acc) rest
    | none => none

/-- A number as an integer or a double. What is too great for a double, or signals, is none. -/
def asNumber? : Value → Option Value
  | .int n => some (.int n)
  | .float x => some (.float x)
  | .fraction r =>
    let x := Double.ofRat r
    if x.isInfinite then none else some (.float x)
  | .decimal d => d.toDouble?.map .float
  | _ => none

def asObject? : Value → Option Value
  | .object _ members => (textMembers? [] members).map (.object .plain)
  | _ => none

/-- An array or a set as a list. -/
def asList? : Value → Option Value
  | .set _ items => some (.array .list items)
  | v => v.items?.map (.array .list)

def asString? : Value → Option Value
  | .text s => some (.text s)
  | _ => none

/-- A truth value as it is; no number counts as one. -/
def asBoolean? : Value → Option Value
  | .bool b => some (.bool b)
  | _ => none

def asNull? : Value → Option Value
  | .null => some .null
  | _ => none

end Value

namespace Kind

/-- The conversion to a kind, whether or not the value has it already. There is none to `any`. -/
def adapter? : Kind → Option (Value → Option Value)
  | .string => some Value.asString?
  | .number => some Value.asNumber?
  | .object => some Value.asObject?
  | .array => some Value.asList?
  | .boolean => some Value.asBoolean?
  | .null => some Value.asNull?
  | .any => none

end Kind

namespace Value

def isMissing : Value → Bool
  | .missing => true
  | _ => false

/-- What is stored for a value under a constraint, if it can be converted. -/
def coerce? (kind : Kind) (v : Value) : Option Value :=
  if v.isMissing then some kind.nullValue
  else if v.hasKind kind then some v
  else kind.adapter?.bind (· v)

/-- Does the value stay the very one it is? Else another stands for it, or none can. -/
def isKept (kind : Kind) (v : Value) : Bool :=
  if v.isMissing then kind.nullValue.isMissing else v.hasKind kind

end Value
end JsonPointer
