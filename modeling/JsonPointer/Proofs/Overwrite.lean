import JsonPointer.Proofs.Descent
import JsonPointer.Proofs.Telling

/-!
# The last write wins

A write to the place of an earlier one, or above it, ends as if the earlier one had not been made
(`writeBelow_writeBelow`). It meets the containers that the first write has created and grown, but
these are the ones that it would have made itself, and what it puts there replaces all that the
first one has put.

After a failure the trees can differ: a typed array that refuses the second value keeps the first
one, or without it the padding that stands there. So the outcomes are compared by `EndAlike`.
-/

namespace JsonPointer

/-! ### Attempts that end alike -/

/-- Two attempts end alike if both fail, for faults of one class of which both can be told or
neither, or both succeed with the same tree. -/
structure Attempt.EndAlike (a b : Attempt) : Prop where
  errorClass_eq : a.fault?.map WriteFault.errorClass = b.fault?.map WriteFault.errorClass
  isPrintable_eq : a.fault?.map WriteFault.isPrintable = b.fault?.map WriteFault.isPrintable
  eq_of_success : b.fault? = none → a = b

namespace Attempt.EndAlike

variable {a b : Attempt}

theorem refl (a : Attempt) : a.EndAlike a := ⟨rfl, rfl, fun _ => rfl⟩

/-- Faults of one class end alike if both can be told, or neither. -/
theorem of_errorClass_eq {f g : WriteFault} (ha : a.fault? = some f) (hb : b.fault? = some g)
    (hclass : f.errorClass = g.errorClass) (hprint : f.isPrintable = g.isPrintable) :
    a.EndAlike b := by
  refine ⟨?_, ?_, ?_⟩
  · rw [ha, hb, Option.map_some, Option.map_some, hclass]
  · rw [ha, hb, Option.map_some, Option.map_some, hprint]
  · intro hnone
    rw [hb] at hnone
    cases hnone

/-- What ends alike below a container ends alike in it. -/
theorem put (h : a.EndAlike b) (container : Value) (t : Token) :
    Attempt.EndAlike ⟨Value.put a.tree container t, a.fault?⟩
      ⟨Value.put b.tree container t, b.fault?⟩ := by
  refine ⟨h.errorClass_eq, h.isPrintable_eq, ?_⟩
  intro hb
  rw [h.eq_of_success hb]

end Attempt.EndAlike

/-- At one pointer, faults of one class lead to errors of one class. -/
theorem Attempt.EndAlike.errorClass_at_eq {a b : Attempt} (h : a.EndAlike b) (p : Pointer) :
    (a.fault?.map (·.at p)).map Error.errorClass =
      (b.fault?.map (·.at p)).map Error.errorClass := by
  have hclass := h.errorClass_eq
  have hprint := h.isPrintable_eq
  cases ha : a.fault? with
  | none =>
      cases hb : b.fault? with
      | none => rfl
      | some g =>
          rw [ha, hb] at hclass
          cases hclass
  | some f =>
      cases hb : b.fault? with
      | none =>
          rw [ha, hb] at hclass
          cases hclass
      | some g =>
          rw [ha, hb] at hclass hprint
          have hfg : f.errorClass = g.errorClass := Option.some.inj hclass
          have hpg : f.isPrintable = g.isPrintable := Option.some.inj hprint
          simp only [Option.map_some, WriteFault.errorClass_at, hfg, hpg]

/-! ### Typed arrays -/

namespace TypedArray.Stored

variable {content stored : TypedArray} {i : Nat} {v : Value}

/-- What stood at the offset makes no difference to what is stored there. -/
theorem store_eq (h : Stored i v content stored) (w : Value) :
    stored.store i w = content.store i w := by
  cases h with
  | int _ => simp only [store, List.set_set]
  | float _ => simp only [store, List.set_set]
  | char _ => simp only [store, List.set_set]

/-- Storing once more ends as storing once. -/
theorem endAlike (h : Stored i v content stored) (w : Value) :
    (Value.assign w (.typed stored) (.index i)).EndAlike
      (Value.assign w (.typed content) (.index i)) := by
  unfold Value.assign
  simp only [h.store_eq]
  cases content.store i w with
  | ok again => exact .refl _
  | error cause => cases cause <;> exact .of_errorClass_eq rfl rfl rfl rfl

/-- An array in which an element was stored has the room for it. -/
theorem reserved {limit : Option Int} (h : Stored i v (content.pad (i + 1 - content.size)) stored) :
    Value.Reserved limit (.typed stored) (.index i) (.typed stored) := by
  have hi : i < stored.values.length := by
    rw [length_values, h.size_eq, size_pad]
    omega
  exact .of_child? rfl (List.getElem?_eq_getElem hi)

end TypedArray.Stored

namespace Value

variable {limit : Option Int} {v w container container' : Value} {t : Token} {ts us : List Token}

/-! ### The way down -/

/-- Below a container, a write to a place on the way of an earlier one ends as it would have
without that. -/
theorem writeBelow_writeBelow (hus : us <+: ts)
    (h : writeBelow limit v container t ts = ⟨container', none⟩) :
    (writeBelow limit w container' t us).EndAlike (writeBelow limit w container t us) := by
  -- along the second write, which is the shorter one
  induction us generalizing container container' t ts with
  | nil =>
      rcases untyped_or_typed container with hu | ⟨content, rfl⟩
      · obtain ⟨grown, hr⟩ := exists_reserved_of_writeBelow h
        obtain ⟨m, _, rfl⟩ := (writeBelow_untyped_eq_iff hr hu).mp h
        have hu' : (put m grown t).isTyped = false := (hr.isTyped_put m).trans hu
        rw [writeBelow_untyped (hr.put_self hu m) hu', writeBelow_untyped hr hu]
        show Attempt.EndAlike ⟨put w (put m grown t) t, none⟩ ⟨put w grown t, none⟩
        rw [put_put]
        exact .refl _
      · obtain ⟨i, stored, rfl, rfl, rfl, hg, hs⟩ := exists_stored_of_writeBelow h
        rw [writeBelow_last hs.reserved, writeBelow_last (.typed hg)]
        exact hs.endAlike w
  | cons next us ih =>
      obtain ⟨ts, rfl⟩ := hus
      rcases untyped_or_typed container with hu | ⟨content, rfl⟩
      · obtain ⟨grown, hr⟩ := exists_reserved_of_writeBelow h
        -- `m` is what the first write has made of the child, and the second one finds it there
        obtain ⟨m, hm, rfl⟩ := (writeBelow_untyped_eq_iff hr hu).mp h
        have hu' : (put m grown t).isTyped = false := (hr.isTyped_put m).trans hu
        have hchild := child?_put_self hr hu m
        rw [writeBelow_untyped (hr.put_self hu m) hu', writeBelow_untyped hr hu, writeSlot,
          writeSlot, slotOrFresh_of_child? hchild (isMissing_eq_false_of_writeBelow hm), put_put]
        exact (ih (List.prefix_append us ts) hm).put grown t
      · obtain ⟨i, stored, _, hnil, _⟩ := exists_stored_of_writeBelow h
        cases hnil

/-! ### The whole write -/

/-- A whole attempt at a place on the way of an earlier write ends as it would have without that. -/
theorem endAlike_attempt {tree tree' : Value} {p q : Pointer} {policy : Policy}
    (hq : q.tokens ≠ []) (hqp : q.tokens <+: p.tokens)
    (h : tree.write p v policy = (tree', none)) :
    (tree'.attempt q w policy).EndAlike (tree.attempt q w policy) := by
  obtain ⟨t, ts, converted, hadmitted, hbelow⟩ := exists_admitted_of_write h
  obtain ⟨s, us, hs⟩ := List.exists_cons_of_ne_nil hq
  rw [hs, hadmitted.tokens, List.cons_prefix_cons] at hqp
  obtain ⟨rfl, hus⟩ := hqp
  -- the first write has not made the root another container
  have hw' : tree'.isWritable = true := by
    rw [← isWritable_blank, blank_eq_of_writeBelow hbelow, isWritable_blank]
    exact hadmitted.writable
  rw [attempt_of_isWritable hs hw', attempt_of_isWritable hs hadmitted.writable]
  cases depthAllowed policy q.depth with
  | some fault => exact .of_errorClass_eq rfl rfl rfl rfl
  | none =>
      cases coerce? q.kind w with
      | none => exact .of_errorClass_eq rfl rfl rfl rfl
      | some converted' => exact writeBelow_writeBelow hus hbelow

/-- **The last write wins.** After a write that has succeeded, a write to the same place or above it
has the outcome that it would have had without the first: an error of the same class, or the very
same tree. A write that is repeated changes nothing. -/
theorem write_write_of_prefix {tree tree' : Value} {p q : Pointer} {policy : Policy}
    (hq : q.tokens ≠ []) (hqp : q.tokens <+: p.tokens)
    (h : tree.write p v policy = (tree', none)) :
    (tree'.write q w policy).2.map Error.errorClass =
      (tree.write q w policy).2.map Error.errorClass ∧
    ((tree.write q w policy).2 = none → tree'.write q w policy = tree.write q w policy) ∧
    tree'.write p v policy = (tree', none) := by
  have hend := endAlike_attempt (w := w) hq hqp h
  refine ⟨hend.errorClass_at_eq q, ?_, ?_⟩
  · intro hsuccess
    have hnone : (tree.attempt q w policy).fault? = none := Option.map_eq_none_iff.mp hsuccess
    rw [write, write, hend.eq_of_success hnone]
  · have hp : p.tokens ≠ [] := fun hnil => hq (List.prefix_nil.mp (hnil ▸ hqp))
    -- the first write is on its own way as well
    have hagain := endAlike_attempt (w := v) hp List.prefix_rfl h
    rw [write_succeeds_iff] at h ⊢
    rw [h] at hagain
    exact hagain.eq_of_success rfl

/-- In `{}`, what a write to `/a/2/x/3` makes is gone after one to `/a/2`, except for the array
around it, which that write would have made as well. -/
theorem write_write_of_prefix_at_element :
    let tree := Value.object .plain []
    let p : Pointer := { tokens := [.key "a", .index 1, .key "x", .index 2] }
    let q : Pointer := { tokens := [.key "a", .index 1] }
    let made := Value.object .plain [(.text "x", .array .list [.missing, .missing, .null])]
    let tree' := Value.object .plain [(.text "a", .array .list [.missing, made])]
    let last := Value.object .plain [(.text "a", .array .list [.missing, .int 7])]
    tree.write p .null {} = (tree', none) ∧ tree.write q (.int 7) {} = (last, none) ∧
    tree'.write q (.int 7) {} = tree.write q (.int 7) {} ∧
    tree'.write p .null {} = (tree', none) := by
  intro tree p q made tree' last
  have h : tree.write p .null {} = (tree', none) := rfl
  have hq : q.tokens ≠ [] := List.cons_ne_nil _ _
  have hqp : q.tokens <+: p.tokens := by decide
  obtain ⟨_, hsame, hagain⟩ := write_write_of_prefix (w := .int 7) hq hqp h
  exact ⟨h, rfl, hsame rfl, hagain⟩

end Value
end JsonPointer
