import JsonPointer.Tree.Write

/-!
# Errors

An error is a fault together with the pointer that was followed. Its text names the pointer, and
most texts show a value: the container where the way ended, what was to be stored, or a limit. So no
error can be made if one of them cannot be written: asking for it then fails in its own way. The
faults that come from the limits of numbers and lengths have no text.

Errors are sorted into classes, which form a hierarchy: an error of a class is also one of all the
classes in its lineage.
-/

namespace JsonPointer

/-- What can go wrong. -/
inductive Error
  /-- Something is no pointer. -/
  | malformed (cause : PointerError)
  /-- A pointer leads nowhere. -/
  | read (fault : ReadFault) (pointer : Pointer)
  /-- Nothing could be written at a pointer. -/
  | write (fault : WriteFault) (pointer : Pointer)
  /-- A text was to be written with an integer of too many digits in it. -/
  | unprintable

/-! ### Classes -/

/-- The classes of errors. -/
inductive ErrorClass
  | pointer
  | malformedPointer
  | unsupportedType
  | policyViolation
  | pointerMismatch
  | pointerBounds
  | structuralMismatch
  | typeConstraintViolation
  | value
  | type
  | index
  | lookup
  | overflow
  | exception
  | baseException
  | object
  deriving DecidableEq, Repr

namespace ErrorClass

/-- The name of a class. -/
def name : ErrorClass → String
  | .pointer => "PointerError"
  | .malformedPointer => "MalformedPointerError"
  | .unsupportedType => "UnsupportedTypeError"
  | .policyViolation => "PolicyViolationError"
  | .pointerMismatch => "PointerMismatchError"
  | .pointerBounds => "PointerBoundsError"
  | .structuralMismatch => "StructuralMismatchError"
  | .typeConstraintViolation => "TypeConstraintViolationError"
  | .value => "ValueError"
  | .type => "TypeError"
  | .index => "IndexError"
  | .lookup => "LookupError"
  | .overflow => "OverflowError"
  | .exception => "Exception"
  | .baseException => "BaseException"
  | .object => "object"

/-- The classes that errors about pointers and trees have of their own. -/
def own : List ErrorClass :=
  [.pointer, .malformedPointer, .unsupportedType, .policyViolation, .pointerMismatch,
    .pointerBounds, .structuralMismatch, .typeConstraintViolation]

/-- The classes that all errors belong to, the most special first. -/
def common : List ErrorClass := [.exception, .baseException, .object]

/-- A class and all classes above it, each before the ones above it. -/
def lineage : ErrorClass → List ErrorClass
  | .pointer => .pointer :: common
  | .malformedPointer => .malformedPointer :: .pointer :: .value :: common
  | .unsupportedType => .unsupportedType :: .malformedPointer :: .pointer :: .value :: common
  | .policyViolation => .policyViolation :: .pointer :: common
  | .pointerMismatch => .pointerMismatch :: .pointer :: .lookup :: common
  | .pointerBounds =>
    .pointerBounds :: .pointerMismatch :: .pointer :: .index :: .lookup :: common
  | .structuralMismatch => .structuralMismatch :: .pointer :: .type :: common
  | .typeConstraintViolation => .typeConstraintViolation :: .pointer :: .type :: common
  | .value => .value :: common
  | .type => .type :: common
  | .index => .index :: .lookup :: common
  | .lookup => .lookup :: common
  | .overflow => .overflow :: common
  | .exception => common
  | .baseException => [.baseException, .object]
  | .object => [.object]

def ofName? (name : String) : Option ErrorClass := own.find? (·.name = name)

end ErrorClass

/-- The class of the error. -/
def PointerError.errorClass : PointerError → ErrorClass
  | .unknownTag _ => .unsupportedType
  | .tooManyDigits _ => .value
  | _ => .malformedPointer

/-- The class of the error that the fault leads to. -/
def ReadFault.errorClass : ReadFault → ErrorClass
  | .mismatch _ _ => .pointerMismatch
  | .outOfBounds _ _ => .pointerBounds
  | .rangeTooLong _ => .overflow

/-- The class of the error that the fault leads to. -/
def WriteFault.errorClass : WriteFault → ErrorClass
  | .atRoot _ => .structuralMismatch
  | .rootNotWritable _ _ => .structuralMismatch
  | .mismatch _ _ => .structuralMismatch
  | .cannotStore _ _ _ => .structuralMismatch
  | .unconvertible _ => .typeConstraintViolation
  | .tooDeep _ => .policyViolation
  | .tooLong _ _ => .policyViolation
  | .growthTooGreat => .overflow
  | .numberOutOfRange => .overflow
  | .numberSignals => .value

/-! ### Faults at a pointer -/

/-- The classes whose errors have no text. -/
def ErrorClass.isSilent (c : ErrorClass) : Bool := c = .value || c = .overflow

/-- The values that the text for the fault shows, apart from what it says of the pointer. That an
array is too short is told by its length alone. -/
def ReadFault.shownValues : ReadFault → List Value
  | .mismatch container _ => [container]
  | .outOfBounds _ _ => []
  | .rangeTooLong _ => []

/-- The values that the text for the fault shows, apart from what it says of the pointer. -/
def WriteFault.shownValues : WriteFault → List Value
  | .rootNotWritable tree _ => [tree]
  | .mismatch container _ => [container]
  | .cannotStore container _ v => [v, container]
  | .unconvertible v => [v]
  | .tooDeep limit => [.int limit]
  | .tooLong _ limit => [.int limit]
  | .atRoot _ => []
  | .growthTooGreat => []
  | .numberOutOfRange => []
  | .numberSignals => []

/-- Can all that the text for the fault shows be written? -/
def ReadFault.isPrintable (fault : ReadFault) : Bool := fault.shownValues.all Value.isPrintable

def WriteFault.isPrintable (fault : WriteFault) : Bool := fault.shownValues.all Value.isPrintable

/-- The error that a fault leads to. If it has a text, that has to show the pointer and the values
of the fault. -/
def ReadFault.at (fault : ReadFault) (p : Pointer) : Error :=
  if fault.errorClass.isSilent ∨ p.IsPrintable ∧ fault.isPrintable then .read fault p
  else .unprintable

/-- The error that a fault leads to. If it has a text, that has to show the pointer and the values
of the fault. -/
def WriteFault.at (fault : WriteFault) (p : Pointer) : Error :=
  if fault.errorClass.isSilent ∨ p.IsPrintable ∧ fault.isPrintable then .write fault p
  else .unprintable

/-- The error for something that is no pointer. If it is about a value, its text has to show it. -/
def PointerError.told : PointerError → Error
  | .notAToken v => if v.isPrintable then .malformed (.notAToken v) else .unprintable
  | .positionBelowOne n =>
    if Digits.isPrintable n then .malformed (.positionBelowOne n) else .unprintable
  | cause => .malformed cause

/-- The start of the text of a value, if that can be written. -/
def Value.preview? (v : Value) (limit : Int) : Except Error String :=
  if v.isPrintable then .ok (v.preview limit) else .error .unprintable

def Pointer.text? (p : Pointer) : Except Error String :=
  if p.IsPrintable then .ok p.text else .error .unprintable

/-- The text of a pointer in a message about pointers, if it can be written. -/
def Pointer.shown? (p : Pointer) : Except Error String := p.text?.map fun _ => p.shown

/-! ### Texts -/

def Token.shown (t : Token) : String := t.toValue.shown

def Token.sort : Token → String
  | .key _ => "key"
  | .index _ => "index"

def Value.inMessage (v : Value) : String := v.preview previewLimit

/-- The text for a fault at a pointer. -/
def ReadFault.message? (p : Pointer) : ReadFault → Option String
  | .mismatch container token =>
    some ("Pointer does not match the data: cannot index " ++ container.inMessage ++ " with " ++
      token.shown ++ " while resolving " ++ quoteText p.text)
  | .outOfBounds container offset =>
    some ("Index " ++ showInt (offset + 1) ++ " out of bounds for array of length " ++
      showInt (container.length?.getD 0) ++ " while resolving " ++ quoteText p.text)
  | .rangeTooLong _ => none

/-- The text for a fault at a pointer. -/
def WriteFault.message? (p : Pointer) : WriteFault → Option String
  | .atRoot _ => structural "cannot write at the root pointer; replace the tree instead"
  | .rootNotWritable tree _ =>
    structural
      ("cannot write into " ++ tree.inMessage ++ "; the root must be an object or array")
  | .mismatch container token =>
    structural
      ("cannot use " ++ token.sort ++ " " ++ token.shown ++ " on " ++ container.inMessage)
  | .cannotStore container _ v =>
    structural ("cannot store " ++ v.inMessage ++ " in " ++ container.inMessage)
  | .unconvertible v =>
    some (v.inMessage ++ " (" ++ v.typeName ++ ") is not a valid " ++ p.kind.name ++ " for " ++
      quoteText p.text ++
      ". Remove the type constraint from the pointer if you don't need a static type.")
  | .tooDeep limit =>
    some ("Path " ++ quoteText p.text ++ " has depth " ++ showInt p.depth ++
      ", exceeding policy max_path_depth=" ++ showInt limit)
  | .tooLong size limit =>
    some ("Writing " ++ quoteText p.text ++ " would grow an array to " ++ showInt size ++
      " items, but policy allows at most " ++ showInt limit)
  | _ => none
where
  /-- The reason of a mismatch, and where it happened. -/
  structural (reason : String) : Option String :=
    some (reason ++ " (pointer " ++ quoteText p.text ++ ")")

/-! ### What an error tells -/

namespace Error

/-- The class of an error. -/
def errorClass : Error → ErrorClass
  | .malformed cause => cause.errorClass
  | .read fault _ => fault.errorClass
  | .write fault _ => fault.errorClass
  | .unprintable => .value

/-- The text of an error. -/
def message? : Error → Option String
  | .malformed cause => if cause.errorClass.isSilent then none else some cause.message
  | .read fault p => fault.message? p
  | .write fault p => fault.message? p
  | .unprintable => none

/-- The place where a way ended. -/
structure Place where
  /-- The value that had been reached. -/
  container : Value
  /-- The token that it does not take; there is none at the root. -/
  token? : Option Token
  /-- The pointer that was followed. -/
  pointer : Pointer

/-- Where the way ended, if the error is about that. -/
def place? : Error → Option Place
  | .read (.mismatch container token) p => some ⟨container, some token, p⟩
  | .read (.outOfBounds container offset) p => some ⟨container, some (.index offset), p⟩
  | .write (.atRoot tree) p => some ⟨tree, none, p⟩
  | .write (.rootNotWritable tree token) p => some ⟨tree, some token, p⟩
  | .write (.mismatch container token) p => some ⟨container, some token, p⟩
  | .write (.cannotStore container token _) p => some ⟨container, some token, p⟩
  | _ => none

/-- The value that could not be converted and the pointer it was for, if the error is about that. -/
def refused? : Error → Option (Value × Pointer)
  | .write (.unconvertible v) p => some (v, p)
  | _ => none

/-- The class of the refusal behind the error: that of a conversion, or that of an array. -/
def causeName? : Error → Option String
  | .write (.unconvertible _) _ => some "ValidationError"
  | .write (.cannotStore _ _ _) _ => some ErrorClass.type.name
  | _ => none

end Error
end JsonPointer
