import JsonPointer.Coerce
import JsonPointer.Json.Reader
import JsonPointer.Tree.Session

/-!
# Pointers as fields

A binding is a record with a pointer in it, its path, and a label that may be left out. It is made
from values, where the path may be a pointer or its text, or from a JSON text, where it is a string.
Everything that is wrong is listed, each with its place: a path given as a value is tried as a
pointer and as a text, so it fails twice.
-/

namespace JsonPointer

/-- A record with a pointer in it. -/
structure Binding where
  path : Pointer
  label : String := ""
  deriving DecidableEq, Repr

/-- What is wrong with a field, or with a whole input. -/
inductive Complaint
  | notAPointer
  | notText
  | notUtf8
  | malformed (cause : PointerError)
  | absent
  | notAnObject
  | notJson (reason : String)

namespace Complaint

/-- The short name of a complaint. -/
def code : Complaint → String
  | .notAPointer => "is_instance_of"
  | .notText => "string_type"
  | .notUtf8 => "string_unicode"
  | .malformed _ => "value_error"
  | .absent => "missing"
  | .notAnObject => "model_type"
  | .notJson _ => "json_invalid"

/-- The text of a complaint. -/
def message : Complaint → String
  | .notAPointer => "Input should be an instance of Pointer"
  | .notText => "Input should be a valid string"
  | .notUtf8 => "Input should be a valid string, unable to parse raw data as a unicode string"
  | .malformed cause => "Value error, " ++ cause.message
  | .absent => "Field required"
  | .notAnObject => "Input should be an object"
  | .notJson reason => "Invalid JSON: " ++ reason

end Complaint

/-- A complaint and its place: a field, and in it the form that was tried. -/
structure Detail where
  place : List String
  complaint : Complaint

namespace Binding

def pathField : String := "path"

def labelField : String := "label"

/-- Both fields, or all that is wrong with them, the path first. -/
def combine (path : Except (List Detail) Pointer) (label : Except (List Detail) String) :
    Except (List Detail) Binding :=
  match path, label with
  | .ok p, .ok s => .ok ⟨p, s⟩
  | .error ds, .ok _ => .error ds
  | .ok _, .error ds => .error ds
  | .error ds, .error es => .error (ds ++ es)

/-- The pointer that a text stands for. -/
def pathOfText (s : String) : Except Complaint Pointer := (Pointer.ofText s).mapError .malformed

/-! ### From values -/

/-- A path given as a value. -/
inductive PathArgument
  | pointer (p : Pointer)
  | value (v : Value)

/-- The text of a value, where text is expected. -/
def textOfValue (v : Value) : Except Complaint String :=
  match v.asText? with
  | some s => .ok s
  | none =>
    match v with
    | .bytes _ _ => .error .notUtf8
    | _ => .error .notText

/-- The path that an argument stands for. -/
def pathOfArgument : PathArgument → Except (List Detail) Pointer
  | .pointer p => .ok p
  | .value v =>
    ((textOfValue v).bind pathOfText).mapError fun complaint =>
      [⟨[pathField, "is-instance[Pointer]"], .notAPointer⟩,
        ⟨[pathField, "function-after[parse(), str]"], complaint⟩]

/-- The binding of a path and a label, given as values. -/
def ofValues (path : PathArgument) (label : Option Value) : Except (List Detail) Binding :=
  combine (pathOfArgument path)
    (match label with
    | none => .ok ""
    | some v => (textOfValue v).mapError fun complaint => [⟨[labelField], complaint⟩])

/-! ### From and to JSON -/

def textOfJson : Json → Except Complaint String
  | .string s => .ok s
  | _ => .error .notText

/-- The binding of the members of an object. -/
def ofMembers (members : List (String × Json)) : Except (List Detail) Binding :=
  combine
    (match Json.field? pathField members with
    | none => .error [⟨[pathField], .absent⟩]
    | some j => ((textOfJson j).bind pathOfText).mapError fun complaint =>
        [⟨[pathField], complaint⟩])
    (match Json.field? labelField members with
    | none => .ok ""
    | some j => (textOfJson j).mapError fun complaint => [⟨[labelField], complaint⟩])

/-- The binding that a JSON text describes. -/
def ofJson (s : String) : Except (List Detail) Binding :=
  match Json.read s.toList with
  | .error refusal => .error [⟨[], .notJson (refusal.text s.toList)⟩]
  | .ok (.object members) => ofMembers members
  | .ok _ => .error [⟨[], .notAnObject⟩]

def fields (b : Binding) : List (String × String) :=
  [(pathField, b.path.text), (labelField, b.label)]

def toJson (b : Binding) : String :=
  (Json.object (b.fields.map fun (name, s) => (name, .string s))).text

end Binding
end JsonPointer
