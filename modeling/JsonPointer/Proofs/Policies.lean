import JsonPointer.Proofs.Descent
import JsonPointer.Proofs.Telling

/-!
# Looser policies

A policy takes no part in what a write does, it can only stop it. So of two policies, the looser one
lets a write go the same way as the stricter one, step by step, for as long as the stricter one does
not stop it: the outcome and the tree are the same, or a limit of the stricter policy was exceeded
(`Policy.Stops`).

* `reserve_of_limitLe` — one container;
* `writeBelow_of_limitLe` — the way down, where each level hands on what the next one ends with;
* `write_of_looser` — the whole write, with the checks that come before the way down.
-/

namespace JsonPointer

/-! ### Comparing policies -/

/-- Is the second limit at least the first one? No limit is greater than all others. -/
def LimitLe (strict loose : Option Int) : Prop :=
  ∀ l', loose = some l' → ∃ l, strict = some l ∧ l ≤ l'

namespace Policy

/-- Does the second policy allow at least as much as the first one? -/
structure Looser (strict loose : Policy) : Prop where
  depth : LimitLe strict.maxDepth loose.maxDepth
  length : LimitLe strict.maxLength loose.maxLength

/-- The faults with which a policy stops a write to a pointer: one of its limits is exceeded. -/
inductive Stops (policy : Policy) (p : Pointer) : WriteFault → Prop
  | depth {l : Int} : policy.maxDepth = some l → l < p.depth → Stops policy p (.tooDeep l)
  | length {offset : Nat} {l : Int} : Token.index offset ∈ p.tokens → policy.maxLength = some l →
      l < (offset + 1 : Nat) → Stops policy p (.tooLong (offset + 1) l)

variable {policy : Policy} {p : Pointer} {fault : WriteFault}

theorem Stops.errorClass_eq (h : policy.Stops p fault) : fault.errorClass = .policyViolation := by
  cases h <;> rfl

end Policy

namespace Value

variable {strict loose : Option Int} {v container : Value} {t : Token} {ts : List Token}

/-! ### One container -/

/-- An array grows alike under both limits, or past the stricter one. -/
theorem growth_of_limitLe (h : LimitLe strict loose) (length size : Nat) :
    growth strict length size = growth loose length size ∨
    ∃ l, strict = some l ∧ l < size ∧ growth strict length size = .error (.tooLong size l) := by
  unfold growth
  -- an array that need not grow is asked for no limit
  by_cases hm : size - length = 0
  · simp [hm]
  · cases strict with
    | none =>
        cases loose with
        | none => exact .inl rfl
        | some l' =>
            obtain ⟨l, hl, _⟩ := h l' rfl
            cases hl
    | some l =>
        by_cases hl : (size : Int) > l
        · exact .inr ⟨l, rfl, hl, by simp [hm, hl]⟩
        · left
          cases loose with
          | none => simp [hl]
          | some l' =>
              obtain ⟨_, ⟨⟩, hle⟩ := h l' rfl
              have hl' : ¬ (size : Int) > l' := by omega
              simp [hl, hl']

theorem reserve_of_limitLe (h : LimitLe strict loose) (container : Value) (t : Token) :
    container.reserve strict t = container.reserve loose t ∨
    ∃ offset l, t = .index offset ∧ strict = some l ∧ l < (offset + 1 : Nat) ∧
      container.reserve strict t = .error (.tooLong (offset + 1) l) := by
  cases t with
  | key name => left; cases container <;> rfl
  | index offset =>
      cases container with
      | array flavour items =>
          by_cases hf : flavour.isWritable = true
          · simp only [reserve, hf, if_true]
            rcases growth_of_limitLe h items.length (offset + 1) with heq | ⟨l, hl, hlt, herror⟩
            · exact .inl (by rw [heq])
            · exact .inr ⟨offset, l, rfl, hl, hlt, by rw [herror]; rfl⟩
          · left
            simp [reserve, hf]
      | typed content =>
          simp only [reserve]
          rcases growth_of_limitLe h content.size (offset + 1) with heq | ⟨l, hl, hlt, herror⟩
          · exact .inl (by rw [heq])
          · exact .inr ⟨offset, l, rfl, hl, hlt, by rw [herror]; rfl⟩
      | _ => exact .inl rfl

/-! ### The way down -/

/-- The two writes are in step at every level, unless the stricter one stops at an array. -/
theorem writeBelow_of_limitLe (h : LimitLe strict loose) :
    writeBelow strict v container t ts = writeBelow loose v container t ts ∨
    ∃ offset l, .index offset ∈ t :: ts ∧ strict = some l ∧ l < (offset + 1 : Nat) ∧
      (writeBelow strict v container t ts).fault? = some (.tooLong (offset + 1) l) := by
  induction ts generalizing container t with
  | nil =>
      rcases reserve_of_limitLe h container t with heq | ⟨offset, l, rfl, hl, hlt, herror⟩
      · left
        simp only [writeBelow, heq]
      · right
        rw [writeBelow_refused herror]
        exact ⟨offset, l, List.mem_cons_self, hl, hlt, rfl⟩
  | cons next ts ih =>
      rcases reserve_of_limitLe h container t with heq | ⟨offset, l, rfl, hl, hlt, herror⟩
      · simp only [writeBelow, heq]
        cases container.reserve loose t with
        | error fault => exact .inl rfl
        | ok grown =>
            -- both go on into the same value, and put what they make of it into the same container
            rcases @ih (grown.slotOrFresh t next) next with
              hbelow | ⟨offset, l, hmem, hl, hlt, hfault⟩
            · left
              simp only [hbelow]
            · right
              exact ⟨offset, l, List.mem_cons_of_mem t hmem, hl, hlt, hfault⟩
      · right
        rw [writeBelow_refused herror]
        exact ⟨offset, l, List.mem_cons_self, hl, hlt, rfl⟩

/-! ### The whole write -/

/-- The depth is allowed by both policies, or not by the stricter one. -/
theorem depthAllowed_of_looser {strict loose : Policy} (h : strict.Looser loose) (depth : Nat) :
    (depthAllowed strict depth = none ∧ depthAllowed loose depth = none) ∨
    ∃ l, strict.maxDepth = some l ∧ l < depth ∧ depthAllowed strict depth = some (.tooDeep l) := by
  have hdepth := h.depth
  unfold depthAllowed
  cases hs : strict.maxDepth with
  | none =>
      cases hl : loose.maxDepth with
      | none => exact .inl ⟨rfl, rfl⟩
      | some l' =>
          obtain ⟨l, hl, _⟩ := hdepth l' hl
          rw [hs] at hl
          cases hl
  | some l =>
      by_cases hlt : (depth : Int) > l
      · exact .inr ⟨l, rfl, hlt, if_pos hlt⟩
      · refine .inl ⟨if_neg hlt, ?_⟩
        cases hl : loose.maxDepth with
        | none => rfl
        | some l' =>
            obtain ⟨k, hk, hle⟩ := hdepth l' hl
            rw [hs] at hk
            cases hk
            exact if_neg (by omega)

theorem attempt_of_looser {strict loose : Policy} (h : strict.Looser loose) (tree v : Value)
    (p : Pointer) :
    tree.attempt p v strict = tree.attempt p v loose ∨
    ∃ fault, strict.Stops p fault ∧ (tree.attempt p v strict).fault? = some fault := by
  cases htokens : p.tokens with
  | nil =>
      left
      simp only [attempt, htokens]
  | cons t ts =>
      by_cases hw : tree.isWritable = true
      · rw [attempt_of_isWritable htokens hw, attempt_of_isWritable htokens hw]
        rcases depthAllowed_of_looser h p.depth with ⟨hs, hl⟩ | ⟨l, hl, hlt, hs⟩
        · rw [hs, hl]
          cases coerce? p.kind v with
          | none => exact .inl rfl
          | some converted =>
              rcases writeBelow_of_limitLe h.length with heq | ⟨offset, l, hmem, hl, hlt, hfault⟩
              · exact .inl heq
              · exact .inr ⟨_, .length (htokens ▸ hmem) hl hlt, hfault⟩
        · right
          rw [hs]
          exact ⟨_, .depth hl hlt, rfl⟩
      · left
        simp [attempt, htokens, hw]

/-- **A policy only rejects.** Under a looser policy a write has the same outcome and leaves the
same tree, unless a limit of the stricter one was exceeded. Then the error of the stricter one is a
policy violation that names the limit. Only for a pointer or a limit that cannot be written no such
error can be made, and it is another one. -/
theorem write_of_looser {strict loose : Policy} (h : strict.Looser loose) (tree v : Value)
    (p : Pointer) :
    tree.write p v strict = tree.write p v loose ∨
    ∃ fault e, strict.Stops p fault ∧ (tree.write p v strict).2 = some e ∧
      (p.IsPrintable ∧ fault.isPrintable = true ∧
          e = .write fault p ∧ e.errorClass = .policyViolation ∨
        ¬ (p.IsPrintable ∧ fault.isPrintable = true) ∧ e = .unprintable) := by
  rcases attempt_of_looser h tree v p with heq | ⟨fault, hstops, hfault⟩
  · left
    rw [write, write, heq]
  · right
    refine ⟨fault, fault.at p, hstops, ?_, ?_⟩
    · rw [write, hfault]
      rfl
    · have hclass := hstops.errorClass_eq
      by_cases hprint : p.IsPrintable ∧ fault.isPrintable = true
      · rw [WriteFault.at_of_isPrintable hprint.1 hprint.2]
        exact .inl ⟨hprint.1, hprint.2, rfl, hclass⟩
      · exact .inr ⟨hprint, WriteFault.at_of_not_isPrintable (by rw [hclass]; rfl) hprint⟩

/-- Under a limit of two elements, a write to `/a/1/3` of `{}` is stopped at the second array. -/
theorem write_of_looser_at_length :
    let tree := Value.object .plain []
    let p : Pointer := { tokens := [.key "a", .index 0, .index 2] }
    let strict : Policy := { maxDepth := some 3, maxLength := some 2 }
    strict.Looser { maxDepth := some 3 } ∧ p.IsPrintable ∧
    (tree.write p .null { maxDepth := some 3 }).2 = none ∧
    ∃ fault e, strict.Stops p fault ∧ (tree.write p .null strict).2 = some e ∧
      e = .write fault p ∧ e.errorClass = .policyViolation := by
  intro tree p strict
  have hlooser : strict.Looser { maxDepth := some 3 } := by
    refine ⟨?_, ?_⟩
    · rintro l ⟨⟩
      exact ⟨3, rfl, Int.le_refl 3⟩
    · intro l hl
      cases hl
  have hp : p.IsPrintable := by
    apply Pointer.IsAddressable.isPrintable
    intro offset h
    have hoffset : offset = 0 ∨ offset = 2 := by simpa [p] using h
    rcases hoffset with rfl | rfl <;> decide
  have hprint (fault : WriteFault) (hf : strict.Stops p fault) : fault.isPrintable = true := by
    cases hf with
    | depth hl _ =>
        cases hl
        decide +kernel
    | length _ hl _ =>
        cases hl
        rw [WriteFault.isPrintable_tooLong]
        decide +kernel
  refine ⟨hlooser, hp, rfl, ?_⟩
  rcases write_of_looser hlooser tree .null p with
    heq | ⟨fault, e, hstops, he, ⟨_, _, heq, hclass⟩ | ⟨hno, _⟩⟩
  · -- without the limit the write succeeds
    exact absurd (congrArg (fun outcome => outcome.2.isNone) heq) (by decide +kernel)
  · exact ⟨fault, e, hstops, he, heq, hclass⟩
  · exact absurd ⟨hp, hprint fault hstops⟩ hno

/-- An empty list cannot grow to a position past the greatest length. -/
theorem reserve_nil_of_lengthLimit_le {offset : Nat} (h : lengthLimit ≤ offset + 1) :
    (Value.array .list []).reserve none (.index offset) = .error .growthTooGreat := by
  have hgrowth : growth none 0 (offset + 1) = .error .growthTooGreat := by
    unfold growth growth.bounded
    simp [h]
  show Except.map _ (growth none 0 (offset + 1)) = _
  rw [hgrowth]
  rfl

/-- For a position of too many digits, a limit on the depth leads neither to a policy violation nor
to the error that there is without it. -/
theorem errorClass_ne_policyViolation :
    let tree := Value.array .list []
    let p : Pointer := { tokens := [.index (tenPow Digits.maxDigits - 1)] }
    let strict : Policy := { maxDepth := some 0 }
    strict.Looser {} ∧
    (tree.write p .null strict).2.map Error.errorClass = some .value ∧
    (tree.write p .null {}).2.map Error.errorClass = some .overflow := by
  intro tree p strict
  have hlooser : strict.Looser {} := ⟨fun _ hl => (by cases hl), fun _ hl => (by cases hl)⟩
  have hle : lengthLimit ≤ tenPow Digits.maxDigits :=
    Nat.le_trans (twoPow_le_tenPow 63) (tenPow_le_tenPow (by decide))
  have hposition : tenPow Digits.maxDigits - 1 + 1 = tenPow Digits.maxDigits :=
    Nat.sub_add_cancel (Nat.le_trans (by decide) hle)
  -- the position is written as the next number, which has a digit too many
  have hp : ¬ p.IsPrintable := by
    intro hp
    have hlt : tenPow Digits.maxDigits - 1 + 1 < tenPow Digits.maxDigits :=
      hp (.index _) List.mem_cons_self
    rw [hposition] at hlt
    exact Nat.lt_irrefl _ hlt
  have hlimit : lengthLimit ≤ tenPow Digits.maxDigits - 1 + 1 := by
    rw [hposition]
    exact hle
  refine ⟨hlooser, ?_, ?_⟩
  · have hstrict : tree.attempt p .null strict = ⟨tree, some (.tooDeep 0)⟩ := rfl
    rw [write, hstrict]
    simp [WriteFault.at, WriteFault.errorClass, ErrorClass.isSilent, hp, Error.errorClass]
  · have hloose : tree.attempt p .null {} = ⟨tree, some .growthTooGreat⟩ := by
      rw [attempt_of_isWritable rfl rfl]
      exact writeBelow_refused (reserve_nil_of_lengthLimit_le hlimit)
    rw [write, hloose]
    simp [WriteFault.at, WriteFault.errorClass, ErrorClass.isSilent, Error.errorClass]

end Value
end JsonPointer
