import JsonPointer.Proofs.Exact
import JsonPointer.Proofs.Descent
import JsonPointer.Proofs.Telling

/-!
# How a write can fail

The faults of a write are of three classes, all of them errors about pointers: a structural
mismatch, a constraint that the value does not meet, or a limit of the policy (`ErrorClass.ofWrite`).
There are two ways around them. A typed array that a number is stored in may refuse it for its size,
or because it is a signaling one, and this is told as it is (`TypedArray.Escapes`). And a fault of
the three classes is not told at all if one of the values that its text shows cannot be written.

* `escapes_of_store` — one array, which stores the value, or is of another type, or lets it escape;
* `accounted_writeBelow` — the way down, with the array at its end;
* `errorClass_of_write_fails` — the whole write, for positions that an array can have.
-/

namespace JsonPointer

/-- The classes of errors that a write is meant to fail with. -/
def ErrorClass.ofWrite : List ErrorClass :=
  [.structuralMismatch, .typeConstraintViolation, .policyViolation]

/-- They are the classes of the faults that have a text. -/
theorem WriteFault.errorClass_mem_iff {fault : WriteFault} :
    fault.errorClass ∈ ErrorClass.ofWrite ↔ fault.errorClass.isSilent = false := by
  cases fault <;> simp [errorClass, ErrorClass.ofWrite, ErrorClass.isSilent]

/-- They are the classes that a write has of those about pointers. -/
theorem ErrorClass.pointer_mem_lineage {c : ErrorClass} (h : c ∈ ofWrite) :
    .pointer ∈ c.lineage := by
  revert c
  decide

/-! ### Numbers that are no elements -/

namespace TypedArray

/-- The array does not store the number, and says so by an error of a class that is not one about
pointers: an integer is out of range, a number is too great for a double, or it is signaling. -/
inductive Escapes : TypedArray → Value → ErrorClass → Prop
  | outOfRange {format : IntFormat} {items : List Int} {n : Int} : ¬ format.Holds n →
      Escapes (.ints format items) (.int n) .overflow
  | intTooGreat {single : Bool} {items : List Double} {n : Int} :
      FloatFormat.double.overflow ≤ |(n : ℚ)| → Escapes (.floats single items) (.int n) .overflow
  | fractionTooGreat {single : Bool} {items : List Double} {r : ℚ} :
      FloatFormat.double.overflow ≤ |r| → Escapes (.floats single items) (.fraction r) .overflow
  | signaling {single negative : Bool} {items : List Double} {payload : Nat} :
      Escapes (.floats single items) (.decimal (.nan negative true payload)) .value

variable {content : TypedArray} {v : Value} {i : Nat} {c : ErrorClass}

/-- What escapes is told by an error that is not one about pointers. -/
theorem Escapes.pointer_notMem_lineage (h : content.Escapes v c) : .pointer ∉ c.lineage := by
  cases h <;> decide

theorem Escapes.isSilent (h : content.Escapes v c) : c.isSilent = true := by
  cases h <;> rfl

theorem finite_eq_error_iff {x : Double} {cause : StoreFault} :
    elementDouble.finite x = .error cause ↔ cause = .outOfRange ∧ x.isInfinite = true := by
  unfold elementDouble.finite
  cases x.isInfinite <;> simp [eq_comm]

/-- What an integer element cannot be is out of range, or no number. -/
theorem escapes_of_elementInt {format : IntFormat} {items : List Int} {cause : StoreFault}
    (h : elementInt format v = .error cause) :
    cause = .wrongType ∨ cause = .outOfRange ∧ Escapes (.ints format items) v .overflow := by
  cases v with
  | bool b => cases h
  | int n =>
      rw [elementInt] at h
      split at h
      · cases h
      · next hrange =>
          cases h
          exact .inr ⟨rfl, .outOfRange hrange⟩
  | _ =>
      cases h
      exact .inl rfl

/-- What a floating-point element cannot be is too great, signaling, or no number. -/
theorem escapes_of_elementDouble {single : Bool} {items : List Double} {cause : StoreFault}
    (h : elementDouble v = .error cause) :
    cause = .wrongType ∨ cause = .outOfRange ∧ Escapes (.floats single items) v .overflow ∨
      cause = .signaling ∧ Escapes (.floats single items) v .value := by
  cases v with
  | bool b => cases h
  | float x => cases h
  | int n =>
      obtain ⟨rfl, hx⟩ := finite_eq_error_iff.mp h
      exact .inr (.inl ⟨rfl, .intTooGreat ((Double.ofInt_isRounded n).isInfinite_iff.mp hx)⟩)
  | fraction r =>
      obtain ⟨rfl, hx⟩ := finite_eq_error_iff.mp h
      exact .inr (.inl ⟨rfl, .fractionTooGreat ((Double.ofRat_isRounded r).isInfinite_iff.mp hx)⟩)
  | decimal d =>
      cases d with
      | nan negative signaling payload =>
          cases signaling with
          | false => cases h
          | true =>
              cases h
              exact .inr (.inr ⟨rfl, .signaling⟩)
      | _ => cases h
  | _ =>
      cases h
      exact .inl rfl

/-- What a character cannot be is no text of one character. -/
theorem eq_wrongType_of_elementChar {cause : StoreFault} (h : elementChar v = .error cause) :
    cause = .wrongType := by
  -- every way of not being a character is of the wrong type
  unfold elementChar at h
  split at h
  · split at h <;> cases h
    rfl
  · cases h
    rfl

theorem eq_error_of_map {α β : Type} {f : α → β} {x : Except StoreFault α} {cause : StoreFault}
    (h : x.map f = .error cause) : x = .error cause := by
  cases x with
  | ok a => cases h
  | error cause' =>
      cases h
      rfl

/-- An array does not store a value of the wrong type, or the value escapes. -/
theorem escapes_of_store {cause : StoreFault} (h : content.store i v = .error cause) :
    cause = .wrongType ∨ cause = .outOfRange ∧ content.Escapes v .overflow ∨
      cause = .signaling ∧ content.Escapes v .value := by
  cases content with
  | ints format items =>
      rw [store] at h
      exact (escapes_of_elementInt (eq_error_of_map h)).imp_right .inl
  | floats single items =>
      rw [store] at h
      exact escapes_of_elementDouble (eq_error_of_map h)
  | chars items =>
      rw [store] at h
      exact .inl (eq_wrongType_of_elementChar (eq_error_of_map h))

end TypedArray

namespace Value

variable {limit : Option Int} {v container grown : Value} {t : Token} {ts : List Token}
  {fault : WriteFault}

/-! ### The way down -/

/-- A fault that is not of the three classes comes from the typed array that the way ends in. -/
inductive Accounted (v after : Value) (ts : List Token) (fault : WriteFault) : Prop
  | ofWrite : fault.errorClass ∈ ErrorClass.ofWrite → Accounted v after ts fault
  | escapes {content : TypedArray} : after.follow ts.dropLast = .ok (.typed content) →
      content.Escapes v fault.errorClass → Accounted v after ts fault

/-- A container refuses a token for a reason of the three classes. -/
theorem Refused.errorClass_mem (h : Refused limit container t fault)
    (ht : ∀ i, t = .index i → i + 1 < lengthLimit) : fault.errorClass ∈ ErrorClass.ofWrite := by
  cases h with
  | mismatch _ => exact WriteFault.errorClass_mem_iff.mpr rfl
  | @growth offset _ _ hcause =>
      cases hcause with
      | tooLong _ _ _ => exact WriteFault.errorClass_mem_iff.mpr rfl
      | growthTooGreat hle =>
          have := ht offset rfl
          omega

/-- The store at the end of the way: a typed array stays as it is, and the fault says why. -/
theorem accounted_assign {content : TypedArray} {i : Nat}
    (hf : (assign v (.typed content) (.index i)).fault? = some fault) :
    Accounted v (assign v (.typed content) (.index i)).tree [.index i] fault := by
  cases hs : content.store i v with
  | ok stored =>
      simp only [assign, hs] at hf
      cases hf
  | error cause =>
      rcases TypedArray.escapes_of_store hs with rfl | ⟨rfl, hescapes⟩ | ⟨rfl, hescapes⟩ <;>
        simp only [assign, hs] at hf ⊢ <;> cases hf
      · exact .ofWrite (WriteFault.errorClass_mem_iff.mpr rfl)
      · exact .escapes rfl hescapes
      · exact .escapes rfl hescapes

/-- Below a container, every fault is of the three classes, or the value escapes. -/
theorem accounted_writeBelow (hts : ∀ i, .index i ∈ t :: ts → i + 1 < lengthLimit)
    (hf : (writeBelow limit v container t ts).fault? = some fault) :
    Accounted v (writeBelow limit v container t ts).tree (t :: ts) fault := by
  -- along the tokens: the array in which the value escapes is at the end of the way
  induction ts generalizing container t with
  | nil =>
      rcases reserve_spec limit container t with ⟨grown, _, hr⟩ | ⟨fault', h, hrefused⟩
      · rcases untyped_or_typed container with hu | ⟨content, rfl⟩
        · rw [writeBelow_untyped hr hu] at hf
          cases hf
        · rw [writeBelow_last hr] at hf ⊢
          cases hr with
          | typed _ => exact accounted_assign hf
      · rw [writeBelow_refused h] at hf
        cases hf
        exact .ofWrite (hrefused.errorClass_mem fun i hi => hts i (hi ▸ List.mem_cons_self))
  | cons next ts ih =>
      rcases reserve_spec limit container t with ⟨grown, _, hr⟩ | ⟨fault', h, hrefused⟩
      · rcases untyped_or_typed container with hu | ⟨content, rfl⟩
        · have hstep := step_writeBelow v (next :: ts) hr hu
          rw [writeBelow_untyped hr hu] at hf
          rcases ih (fun i hi => hts i (List.mem_cons_of_mem t hi)) hf with
            hmem | ⟨hholder, hescapes⟩
          · exact .ofWrite hmem
          · exact .escapes ((follow_cons_of_step hstep _).trans hholder) hescapes
        · -- an element of the array takes no token, and the value is never stored
          obtain ⟨e, h⟩ := writeBelow_typed_next v next ts hr
          rw [h] at hf
          cases hf
          exact .ofWrite (WriteFault.errorClass_mem_iff.mpr rfl)
      · rw [writeBelow_refused h] at hf
        cases hf
        exact .ofWrite (hrefused.errorClass_mem fun i hi => hts i (hi ▸ List.mem_cons_self))

/-! ### The whole write -/

theorem EarlyFault.errorClass_mem {tree : Value} (h : EarlyFault tree v fault) :
    fault.errorClass ∈ ErrorClass.ofWrite := by
  cases h with
  | atRoot => exact WriteFault.errorClass_mem_iff.mpr rfl
  | rootNotWritable _ => exact WriteFault.errorClass_mem_iff.mpr rfl
  | tooDeep _ => exact WriteFault.errorClass_mem_iff.mpr rfl
  | unconvertible => exact WriteFault.errorClass_mem_iff.mpr rfl

/-- The same for a whole attempt, and it is the converted value that escapes. -/
theorem attempt_fault_cases {tree : Value} {p : Pointer} {policy : Policy} (hp : p.IsAddressable)
    (hf : (tree.attempt p v policy).fault? = some fault) :
    fault.errorClass ∈ ErrorClass.ofWrite ∨
    ∃ content c, (tree.attempt p v policy).tree.follow p.tokens.dropLast = .ok (.typed content) ∧
      coerce? p.kind v = some c ∧ content.Escapes c fault.errorClass := by
  rcases attempt_spec tree p v policy with ⟨fault', h, hearly⟩ | ⟨t, ts, c, hadmitted⟩
  · rw [h] at hf
    cases hf
    exact .inl hearly.errorClass_mem
  · rw [attempt_of_admitted hadmitted] at hf ⊢
    rw [hadmitted.tokens]
    rcases accounted_writeBelow (fun i hi => hp i (hadmitted.tokens ▸ hi)) hf with
      hmem | ⟨hholder, hescapes⟩
    · exact .inl hmem
    · exact .inr ⟨_, c, hholder, hadmitted.coerced, hescapes⟩

/-- **How a write can fail**, for positions that an array can have: with a structural mismatch, a
value that does not meet the constraint, or a limit of the policy, and these are the only errors
about pointers that it has. Any other error comes from the typed array that the pointer leads into,
which does not store the converted value for its size, or because it is signaling; or it stands for
one of the three, whose text would show a value that cannot be written. -/
theorem errorClass_of_write_fails {tree : Value} {p : Pointer} {policy : Policy} {e : Error}
    (hp : p.IsAddressable) (h : (tree.write p v policy).2 = some e) :
    (e.errorClass ∈ ErrorClass.ofWrite ↔ .pointer ∈ e.errorClass.lineage) ∧
    (e.errorClass ∉ ErrorClass.ofWrite ↔
      (∃ content c, (tree.write p v policy).1.read p.parent = .ok (.typed content) ∧
        v.coerce p = .ok c ∧ content.Escapes c e.errorClass) ∨
      (e = .unprintable ∧ ∃ fault, (tree.attempt p v policy).fault? = some fault ∧
        fault.errorClass ∈ ErrorClass.ofWrite ∧ fault.isPrintable = false)) := by
  obtain ⟨fault, hf, rfl⟩ := Option.map_eq_some_iff.mp h
  rw [write_tree]
  rcases attempt_fault_cases hp hf with hmem | ⟨content, c, hholder, hcoerce, hescapes⟩
  · have hloud := WriteFault.errorClass_mem_iff.mp hmem
    -- a fault of the three classes is told, or its text cannot be made
    cases hprint : fault.isPrintable with
    | true =>
        rw [WriteFault.at_of_isPrintable hp.isPrintable hprint]
        have hpointer := ErrorClass.pointer_mem_lineage hmem
        refine ⟨iff_of_true hmem hpointer, iff_of_false (not_not_intro hmem) ?_⟩
        rintro (⟨content, c, _, _, hescapes⟩ | ⟨hsame, _⟩)
        · exact hescapes.pointer_notMem_lineage hpointer
        · cases hsame
    | false =>
        rw [WriteFault.at_of_not_isPrintable hloud (by simp [hprint])]
        have hvalue : ErrorClass.value ∉ ErrorClass.ofWrite := by decide
        exact ⟨iff_of_false hvalue (by decide),
          iff_of_true hvalue (.inr ⟨rfl, fault, hf, hmem, hprint⟩)⟩
  · have hpointer := hescapes.pointer_notMem_lineage
    have hmem := mt ErrorClass.pointer_mem_lineage hpointer
    rw [WriteFault.at_of_isSilent (hescapes.isSilent)]
    exact ⟨iff_of_false hmem hpointer, iff_of_true hmem (.inl ⟨content, c,
      read_eq_ok_iff.mpr hholder, coerce_eq_ok_iff.mpr hcoerce, hescapes⟩)⟩

/-- A signaling number is no element of an array of doubles, which has grown for it. -/
theorem errorClass_of_signaling_element :
    let tree := Value.object .plain [(.text "a", .typed (.floats false []))]
    let p : Pointer := { tokens := [.key "a", .index 1], kind := .any }
    let v := Value.decimal (.nan false true 0)
    p.IsAddressable ∧ ∃ e, (tree.write p v {}).2 = some e ∧ e.errorClass = .value ∧
    (e.errorClass ∈ ErrorClass.ofWrite ↔ .pointer ∈ e.errorClass.lineage) ∧
    (e.errorClass ∉ ErrorClass.ofWrite ↔
      (∃ content c, (tree.write p v {}).1.read p.parent = .ok (.typed content) ∧
        v.coerce p = .ok c ∧ content.Escapes c e.errorClass) ∨
      (e = .unprintable ∧ ∃ fault, (tree.attempt p v {}).fault? = some fault ∧
        fault.errorClass ∈ ErrorClass.ofWrite ∧ fault.isPrintable = false)) := by
  intro tree p v
  have hp : p.IsAddressable := by
    intro offset h
    obtain rfl : offset = 1 := by simpa [p] using h
    decide
  exact ⟨hp, _, rfl, rfl, errorClass_of_write_fails hp rfl⟩

/-- An integer that is out of the range of the elements is told as an overflow. -/
theorem overflow_of_wide_element :
    let tree := Value.typed (.ints ⟨.byte, true⟩ [])
    let p : Pointer := { tokens := [.index 1] }
    p.IsAddressable ∧ ∃ e, (tree.write p (.int 300) {}).2 = some e ∧
      e.errorClass ∉ ErrorClass.ofWrite ∧ .pointer ∉ e.errorClass.lineage := by
  intro tree p
  refine ⟨?_, _, rfl, ?_, ?_⟩
  · intro offset h
    obtain rfl : offset = 1 := by simpa [p] using h
    decide
  · decide
  · decide

end Value
end JsonPointer
