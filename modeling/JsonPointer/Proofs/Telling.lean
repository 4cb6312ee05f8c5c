import JsonPointer.Tree.Session

/-!
# What errors can tell

A fault becomes an error when it is told of, and for that the pointer and the values that its text
shows have to be written. This file says when they can be and what becomes of the fault otherwise,
so that later proofs are about faults and come to errors in one step.

* `Pointer.IsAddressable.isPrintable` — positions that an array can have are short enough;
* `WriteFault.at_of_isPrintable`, `WriteFault.at_of_not_isPrintable` — a fault that can be told and
  one that cannot, and the same for reads;
* `WriteFault.report_at`, `ReadFault.report_at` — what an error says apart from the pointer.
-/

namespace JsonPointer

/-! ### Numbers and positions -/

theorem twoPow_le_tenPow (n : Nat) : twoPow n ≤ tenPow n := Nat.pow_le_pow_left (by omega) n

theorem tenPow_le_tenPow {m n : Nat} (h : m ≤ n) : tenPow m ≤ tenPow n :=
  Nat.pow_le_pow_right (by omega) h

/-- The least positive integer that cannot be written. -/
theorem Digits.isPrintable_tenPow : isPrintable (tenPow maxDigits) = false := by
  rw [isPrintable, Int.natAbs_natCast]
  exact decide_eq_false (Nat.lt_irrefl _)

/-- Are all positions in the pointer below the greatest length of an array? -/
def Pointer.IsAddressable (p : Pointer) : Prop :=
  ∀ offset, Token.index offset ∈ p.tokens → offset + 1 < lengthLimit

/-- Positions that an array can have are short enough to be written. -/
theorem Pointer.IsAddressable.isPrintable {p : Pointer} (h : p.IsAddressable) : p.IsPrintable := by
  intro t ht
  cases t with
  | key name => trivial
  | index offset =>
      -- there are 19 digits in the limit and 4300 in the longest text
      have hlimit : lengthLimit ≤ tenPow Digits.maxDigits :=
        Nat.le_trans (twoPow_le_tenPow 63) (tenPow_le_tenPow (by decide))
      exact Nat.lt_of_lt_of_le (h offset ht) hlimit

/-- Behind a part that can be written, a pointer can be written exactly if its other part can. -/
theorem Pointer.IsPrintable.append_iff {p q r : Pointer} (hp : p.IsPrintable)
    (h : q.tokens = p.tokens ++ r.tokens) : q.IsPrintable ↔ r.IsPrintable := by
  unfold Pointer.IsPrintable at hp ⊢
  rw [h]
  constructor
  · exact fun hq t ht => hq t (List.mem_append_right _ ht)
  · intro hr t ht
    rcases List.mem_append.mp ht with ht | ht
    · exact hp t ht
    · exact hr t ht

/-! ### Values -/

theorem Value.isPrintable_allItems_iff {items : List Value} :
    isPrintable.allItems items = true ↔ ∀ x ∈ items, x.isPrintable = true := by
  induction items with
  | nil => simp [isPrintable.allItems]
  | cons item items ih => simp [isPrintable.allItems, ih]

/-- An array can be written exactly if all its elements can. -/
theorem Value.isPrintable_array_iff {flavour : ArrayFlavour} {items : List Value} :
    (Value.array flavour items).isPrintable = true ↔ ∀ x ∈ items, x.isPrintable = true := by
  rw [isPrintable, isPrintable_allItems_iff]

/-! ### Faults of reads -/

namespace ReadFault

variable {p q : Pointer} {fault : ReadFault} {container : Value} {t : Token}

@[simp] theorem isPrintable_mismatch (container : Value) (t : Token) :
    (mismatch container t).isPrintable = container.isPrintable := Bool.and_true _

theorem at_of_isPrintable (hp : p.IsPrintable) (hfault : fault.isPrintable = true) :
    fault.at p = .read fault p := if_pos (.inr ⟨hp, hfault⟩)

theorem at_of_not_isPrintable (hclass : fault.errorClass.isSilent = false)
    (h : ¬ (p.IsPrintable ∧ fault.isPrintable = true)) : fault.at p = .unprintable := by
  refine if_neg ?_
  rintro (hsilent | htold)
  · rw [hclass] at hsilent
    cases hsilent
  · exact h htold

/-- A mismatch is not told if the container cannot be written. -/
theorem mismatch_at (h : container.isPrintable = false) :
    (mismatch container t).at p = .unprintable := by
  refine at_of_not_isPrintable rfl ?_
  rw [isPrintable_mismatch, h]
  exact fun htold => Bool.false_ne_true htold.2

end ReadFault

/-! ### Faults of writes -/

namespace WriteFault

variable {p q : Pointer} {fault : WriteFault} {container : Value} {t : Token}

@[simp] theorem isPrintable_rootNotWritable (tree : Value) (t : Token) :
    (rootNotWritable tree t).isPrintable = tree.isPrintable := Bool.and_true _

@[simp] theorem isPrintable_mismatch (container : Value) (t : Token) :
    (mismatch container t).isPrintable = container.isPrintable := Bool.and_true _

@[simp] theorem isPrintable_tooLong (size : Nat) (limit : Int) :
    (tooLong size limit).isPrintable = Digits.isPrintable limit := by
  simp [isPrintable, shownValues, Value.isPrintable]

/-- A fault is told as it is if the pointer and all values that its text shows can be written. -/
theorem at_of_isPrintable (hp : p.IsPrintable) (hfault : fault.isPrintable = true) :
    fault.at p = .write fault p := if_pos (.inr ⟨hp, hfault⟩)

/-- A fault without a text is always told as it is. -/
theorem at_of_isSilent (h : fault.errorClass.isSilent = true) : fault.at p = .write fault p :=
  if_pos (.inl h)

/-- A fault with a text that cannot be written is not told, and the error is about that. -/
theorem at_of_not_isPrintable (hclass : fault.errorClass.isSilent = false)
    (h : ¬ (p.IsPrintable ∧ fault.isPrintable = true)) : fault.at p = .unprintable := by
  refine if_neg ?_
  rintro (hsilent | htold)
  · rw [hclass] at hsilent
    cases hsilent
  · exact h htold

theorem mismatch_at (h : container.isPrintable = false) :
    (mismatch container t).at p = .unprintable := by
  refine at_of_not_isPrintable rfl ?_
  rw [isPrintable_mismatch, h]
  exact fun htold => Bool.false_ne_true htold.2

/-- The class of an error is that of the fault, unless what the error has to tell cannot be
written. -/
theorem errorClass_at (fault : WriteFault) (p : Pointer) :
    (fault.at p).errorClass =
      if fault.errorClass.isSilent ∨ p.IsPrintable ∧ fault.isPrintable then fault.errorClass
      else .value := by
  unfold WriteFault.at
  split
  · rfl
  · rfl

end WriteFault

theorem Value.write_eq_of_attempt {tree v tree' : Value} {p : Pointer} {policy : Policy}
    {fault : WriteFault} (hp : p.IsPrintable) (hfault : fault.isPrintable = true)
    (h : tree.attempt p v policy = ⟨tree', some fault⟩) :
    tree.write p v policy = (tree', some (.write fault p)) := by
  rw [write, h, Option.map_some, WriteFault.at_of_isPrintable hp hfault]

/-! ### Reports -/

/-- What an error tells apart from the pointer: its class, and the container and the token where the
way ended. -/
def Error.report (e : Error) : ErrorClass × Option (Value × Option Token) :=
  (e.errorClass, e.place?.map fun place => (place.container, place.token?))

/-- Pointers that can both be written, or neither, report the same fault alike. -/
theorem ReadFault.report_at {p q : Pointer} (h : p.IsPrintable ↔ q.IsPrintable)
    (fault : ReadFault) : (fault.at p).report = (fault.at q).report := by
  unfold ReadFault.at
  simp only [h]
  split
  · cases fault <;> rfl
  · rfl

theorem WriteFault.report_at {p q : Pointer} (h : p.IsPrintable ↔ q.IsPrintable)
    (fault : WriteFault) : (fault.at p).report = (fault.at q).report := by
  unfold WriteFault.at
  simp only [h]
  split
  · cases fault <;> rfl
  · rfl

end JsonPointer
