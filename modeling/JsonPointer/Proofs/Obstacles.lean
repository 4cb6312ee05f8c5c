import JsonPointer.Proofs.Atomicity
import JsonPointer.Proofs.Telling

/-!
# When a write succeeds

A write changes the tree while it goes down, but whether it will succeed can be seen in the tree
before. Without typed arrays and without a policy, and for positions that an array can have, it
fails exactly if something is stored on its way that does not take the next token (`Obstructs`), and
the error names the first such value. A container that the write makes itself is never in the way.

* `writeBelow_of_slot_missing` — a write that has left the old tree behind succeeds;
* `writeBelow_obstacle` — as long as it has not, the obstacles below a child are those below the
  container, one token further on, so the induction along the tokens finds the first of them.
-/

namespace JsonPointer
namespace Value

/-- Before the token `t`, the `k`-th of the way, a read has come to the value `x`, which stands in
the way of a write: it is stored there and does not take the token. -/
structure Obstructs (tree : Value) (ts : List Token) (k : Nat) (x : Value) (t : Token) : Prop where
  token : ts[k]? = some t
  reached : tree.follow (ts.take k) = .ok x
  stored : k = 0 ∨ x ≠ .missing
  refuses : x.takes t = false

/-- The first value that stands in the way of a write. -/
structure IsFirstObstacle (tree : Value) (ts : List Token) (k : Nat) (x : Value) (t : Token) :
    Prop extends Obstructs tree ts k x t where
  first : ∀ j < k, ∀ y s, ¬ Obstructs tree ts j y s

variable {v container x y : Value} {t s next : Token} {ts : List Token} {j k : Nat}

/-- No two values are the first in the way. -/
theorem IsFirstObstacle.unique (h : IsFirstObstacle container ts k x t)
    (h' : IsFirstObstacle container ts j y s) : k = j ∧ x = y ∧ t = s := by
  obtain rfl : k = j := by
    rcases Nat.lt_trichotomy k j with hlt | heq | hgt
    · exact absurd h.toObstructs (h'.first k hlt x t)
    · exact heq
    · exact absurd h'.toObstructs (h.first j hgt y s)
  exact ⟨rfl, Except.ok.inj (h.reached.symm.trans h'.reached),
    Option.some.inj (h.token.symm.trans h'.token)⟩

/-! ### Obstacles and children -/

theorem obstructs_zero_iff :
    Obstructs container (t :: ts) 0 x s ↔ x = container ∧ s = t ∧ container.takes t = false := by
  constructor
  · intro h
    obtain rfl : t = s := Option.some.inj h.token
    obtain rfl : container = x := Except.ok.inj h.reached
    exact ⟨rfl, rfl, h.refuses⟩
  · rintro ⟨rfl, rfl, h⟩
    exact ⟨rfl, rfl, .inl rfl, h⟩

/-- Nothing comes before the root. -/
theorem isFirstObstacle_of_not_takes (h : container.takes t = false) :
    IsFirstObstacle container (t :: ts) 0 container t := by
  refine ⟨obstructs_zero_iff.mpr ⟨rfl, rfl, h⟩, ?_⟩
  intro j hj
  cases hj

theorem not_obstructs_zero (h : container.takes t = true) :
    ¬ Obstructs container (t :: ts) 0 x s := by
  intro ho
  obtain ⟨_, _, hno⟩ := obstructs_zero_iff.mp ho
  rw [h] at hno
  cases hno

/-- What is in the way below a child is in the way below the container. -/
theorem obstructs_succ_iff (h : container.step t = .ok y) (hy : y ≠ .missing) :
    Obstructs container (t :: ts) (k + 1) x s ↔ Obstructs y ts k x s := by
  constructor
  · intro ho
    have hreached := ho.reached
    rw [List.take_succ_cons, follow_cons_of_step h] at hreached
    refine ⟨ho.token, hreached, ?_, ho.refuses⟩
    rcases ho.stored with hk | hx
    · cases hk
    · exact .inr hx
  · intro ho
    refine ⟨ho.token, ?_, ?_, ho.refuses⟩
    · rw [List.take_succ_cons, follow_cons_of_step h]
      exact ho.reached
    · right
      rcases ho.stored with rfl | hx
      · -- the child may be the obstacle itself, and it is stored below the container
        obtain rfl : y = x := Except.ok.inj ho.reached
        exact hy
      · exact hx

/-- Nothing is in the way where nothing is stored. -/
theorem not_obstructs_succ (h : ∀ y, container.child? t = some y → y = .missing) :
    ¬ Obstructs container (t :: ts) (k + 1) x s := by
  intro ho
  have hreached := ho.reached
  rw [List.take_succ_cons] at hreached
  obtain ⟨y, hstep, hx⟩ := follow_cons_eq_ok_iff.mp hreached
  obtain rfl := h y (step_eq_ok_iff.mp hstep).2
  cases htake : ts.take k with
  | nil =>
      rw [htake] at hx
      cases hx
      rcases ho.stored with hk | hmissing
      · cases hk
      · exact hmissing rfl
  | cons u us =>
      rw [htake] at hx
      refine follow_ne_ok_of_child?_eq_none ?_ (List.cons_ne_nil u us) x hx
      intro s
      cases s <;> rfl

/-- A container that takes the token is not in the way itself. -/
theorem not_obstructs_cons (ht : container.takes t = true)
    (h : ∀ k x s, ¬ Obstructs container (t :: ts) (k + 1) x s) (k : Nat) (x : Value) (s : Token) :
    ¬ Obstructs container (t :: ts) k x s := by
  cases k with
  | zero => exact not_obstructs_zero ht
  | succ k => exact h k x s

/-- The first obstacle below a child is the first below the container that it is passed from. -/
theorem IsFirstObstacle.cons (h : IsFirstObstacle y ts k x s) (ht : container.takes t = true)
    (hstep : container.step t = .ok y) (hy : y ≠ .missing) :
    IsFirstObstacle container (t :: ts) (k + 1) x s := by
  refine ⟨(obstructs_succ_iff hstep hy).mpr h.toObstructs, ?_⟩
  intro j hj z u ho
  cases j with
  | zero => exact not_obstructs_zero ht ho
  | succ j => exact h.first j (by omega) z u ((obstructs_succ_iff hstep hy).mp ho)

/-! ### Writes without a policy -/

/-- A container that takes the token has room for it or makes it. -/
theorem exists_reserved (ht : container.takes t = true)
    (hts : ∀ i, .index i ∈ t :: ts → i + 1 < lengthLimit) :
    ∃ grown, Reserved none container t grown := by
  rcases reserve_spec none container t with ⟨grown, _, hr⟩ | ⟨fault, _, hrefused⟩
  · exact ⟨grown, hr⟩
  · cases hrefused with
    | mismatch hno =>
        rw [ht] at hno
        cases hno
    | @growth offset _ _ hcause =>
        have hoffset := hts offset List.mem_cons_self
        cases hcause with
        | tooLong hlimit _ _ => cases hlimit
        | growthTooGreat hle => omega

/-- A write that has left the old tree behind succeeds. -/
theorem writeBelow_of_slot_missing (hu : container.isTyped = false)
    (ht : container.takes t = true) (hm : container.slot t = .missing)
    (hts : ∀ i, .index i ∈ t :: ts → i + 1 < lengthLimit) :
    (writeBelow none v container t ts).fault? = none := by
  -- along the tokens: each container from here on is new and takes what it was made for
  induction ts generalizing container t with
  | nil =>
      obtain ⟨grown, hr⟩ := exists_reserved ht hts
      rw [writeBelow_untyped hr hu]
      rfl
  | cons next ts ih =>
      obtain ⟨grown, hr⟩ := exists_reserved ht hts
      rw [writeBelow_untyped hr hu]
      show (writeBelow none v (container.slotOrFresh t next) next ts).fault? = none
      rw [slotOrFresh_of_slot_missing hm]
      apply ih
      · exact isTyped_fresh container next
      · exact takes_fresh ht next
      · exact slot_fresh container next next
      · intro i hi
        exact hts i (List.mem_cons_of_mem t hi)

/-- A container that does not take the token stops a write. -/
theorem exists_obstacle_of_not_takes {limit : Option Int} (ht : container.takes t = false) :
    ∃ k x s, IsFirstObstacle container (t :: ts) k x s ∧
      (writeBelow limit v container t ts).fault? = some (.mismatch x s) := by
  refine ⟨0, container, t, isFirstObstacle_of_not_takes ht, ?_⟩
  rw [writeBelow_of_not_takes ht]

/-- A write succeeds if nothing is in its way, or fails at the first thing that is. -/
theorem writeBelow_obstacle (hc : container.hasTyped = false)
    (hts : ∀ i, .index i ∈ t :: ts → i + 1 < lengthLimit) :
    ((writeBelow none v container t ts).fault? = none ∧
      ∀ k x s, ¬ Obstructs container (t :: ts) k x s) ∨
    ∃ k x s, IsFirstObstacle container (t :: ts) k x s ∧
      (writeBelow none v container t ts).fault? = some (.mismatch x s) := by
  -- along the tokens: at each of them the container refuses, or passes on to a child, or makes one
  induction ts generalizing container t with
  | nil =>
      cases ht : container.takes t with
      | false => exact .inr (exists_obstacle_of_not_takes ht)
      | true =>
          obtain ⟨grown, hr⟩ := exists_reserved ht hts
          rw [writeBelow_untyped hr (isTyped_of_hasTyped hc)]
          refine .inl ⟨rfl, not_obstructs_cons ht ?_⟩
          intro k x s ho
          cases ho.token
  | cons next ts ih =>
      cases ht : container.takes t with
      | false => exact .inr (exists_obstacle_of_not_takes ht)
      | true =>
          obtain ⟨grown, hr⟩ := exists_reserved ht hts
          have hu := isTyped_of_hasTyped hc
          have hrest (i : Nat) (hi : .index i ∈ next :: ts) : i + 1 < lengthLimit :=
            hts i (List.mem_cons_of_mem t hi)
          rw [writeBelow_untyped hr hu, writeSlot]
          rcases slotOrFresh_cases container t next with ⟨y, hy, hne, heq⟩ | ⟨hmissing, heq⟩
          · -- the way goes on through what is stored there
            rw [heq]
            have hstep := step_eq_ok_iff.mpr ⟨hr.isLongRange_eq_false, hy⟩
            rcases ih (hasTyped_of_child? hc hy) hrest with
              ⟨hnone, hclear⟩ | ⟨k, x, s, hfirst, hfault⟩
            · refine .inl ⟨hnone, not_obstructs_cons ht ?_⟩
              intro k x s ho
              exact hclear k x s ((obstructs_succ_iff hstep hne).mp ho)
            · exact .inr ⟨k + 1, x, s, hfirst.cons ht hstep hne, hfault⟩
          · -- the rest of the way is made by the write
            rw [heq]
            refine .inl ⟨?_, not_obstructs_cons ht fun k x s => not_obstructs_succ hmissing⟩
            exact writeBelow_of_slot_missing (isTyped_fresh container next)
              (takes_fresh ht next) (slot_fresh container next next) hrest

/-! ### The whole write -/

/-- The root of the tree is looked at before the write goes down, and can be in its way as well. -/
theorem attempt_obstacle {tree c : Value} {p : Pointer} (ht : tree.hasTyped = false)
    (hp : p.IsAddressable) (hroot : p.tokens ≠ []) (hv : v.coerce p = .ok c) :
    ((tree.attempt p v {}).fault? = none ∧ ∀ k x t, ¬ Obstructs tree p.tokens k x t) ∨
    ∃ k x t fault, IsFirstObstacle tree p.tokens k x t ∧
      (tree.attempt p v {}).fault? = some fault ∧
      (fault = .rootNotWritable x t ∨ fault = .mismatch x t) := by
  obtain ⟨t, ts, htokens⟩ := List.exists_cons_of_ne_nil hroot
  rw [htokens]
  cases hw : tree.isWritable with
  | false =>
      have htakes : tree.takes t = false := by
        cases h : tree.takes t with
        | false => rfl
        | true =>
            rw [isWritable_of_takes h] at hw
            cases hw
      have hattempt : tree.attempt p v {} = ⟨tree, some (.rootNotWritable tree t)⟩ := by
        unfold attempt
        rw [htokens]
        simp [hw]
      exact .inr ⟨0, tree, t, _, isFirstObstacle_of_not_takes htakes, by rw [hattempt], .inl rfl⟩
  | true =>
      have hadmitted : Admitted tree p v {} t ts c := ⟨htokens, hw, rfl, coerce_eq_ok_iff.mp hv⟩
      rw [attempt_of_admitted hadmitted]
      have hts (i : Nat) (hi : .index i ∈ t :: ts) : i + 1 < lengthLimit := hp i (htokens ▸ hi)
      rcases writeBelow_obstacle ht hts with hclear | ⟨k, x, s, hfirst, hfault⟩
      · exact .inl hclear
      · exact .inr ⟨k, x, s, _, hfirst, hfault, .inr rfl⟩

/-- **When a write succeeds**, in a tree without typed arrays, without a policy, for positions that
an array can have and a value that can be converted: exactly if nothing on the way is stored that
does not take its token. Otherwise the error is a structural mismatch that names the first such
value and its token, unless that value cannot be written: then the error is about that. -/
theorem write_succeeds_iff_unobstructed {tree c : Value} {p : Pointer}
    (ht : tree.hasTyped = false) (hp : p.IsAddressable) (hroot : p.tokens ≠ [])
    (hv : v.coerce p = .ok c) :
    ((tree.write p v {}).2 = none ↔ ∀ k x t, ¬ Obstructs tree p.tokens k x t) ∧
    ∀ e, (tree.write p v {}).2 = some e → ∃ k x t, IsFirstObstacle tree p.tokens k x t ∧
      (x.isPrintable = true →
        e.errorClass = .structuralMismatch ∧ e.place? = some ⟨x, some t, p⟩) ∧
      (x.isPrintable = false → e = .unprintable) := by
  show ((tree.attempt p v {}).fault?.map _ = none ↔ _) ∧
    ∀ e, (tree.attempt p v {}).fault?.map _ = some e → _
  rcases attempt_obstacle ht hp hroot hv with ⟨hnone, hclear⟩ | ⟨k, x, t, fault, hfirst, hsome, hf⟩
  · rw [hnone]
    refine ⟨iff_of_true rfl hclear, ?_⟩
    intro e he
    cases he
  · rw [hsome]
    refine ⟨iff_of_false (by simp) fun hclear => hclear k x t hfirst.toObstructs, ?_⟩
    intro e he
    obtain rfl : fault.at p = e := Option.some.inj he
    -- both faults are mismatches at the obstacle, and their texts show nothing else
    have hshown : fault.isPrintable = x.isPrintable := by rcases hf with rfl | rfl <;> simp
    have hclass : fault.errorClass = .structuralMismatch := by rcases hf with rfl | rfl <;> rfl
    refine ⟨k, x, t, hfirst, ?_, ?_⟩
    · intro hx
      rw [WriteFault.at_of_isPrintable hp.isPrintable (hshown.trans hx)]
      refine ⟨hclass, ?_⟩
      rcases hf with rfl | rfl <;> rfl
    · intro hx
      refine WriteFault.at_of_not_isPrintable (by rw [hclass]; rfl) ?_
      rw [hshown, hx]
      simp

/-- A write to `/a/1/x/y` of `{"a": [{"x": 1}]}` finds the number in its way. -/
theorem write_fails_at_obstacle :
    let element := Value.object .plain [(.text "x", .int 1)]
    let tree := Value.object .plain [(.text "a", .array .list [element])]
    let p : Pointer := { tokens := [.key "a", .index 0, .key "x", .key "y"] }
    tree.hasTyped = false ∧ p.IsAddressable ∧ p.tokens ≠ [] ∧ Value.null.coerce p = .ok .null ∧
    IsFirstObstacle tree p.tokens 3 (.int 1) (.key "y") ∧ (Value.int 1).isPrintable = true ∧
    ∃ e, (tree.write p .null {}).2 = some e ∧ e.errorClass = .structuralMismatch ∧
      e.place? = some ⟨.int 1, some (.key "y"), p⟩ := by
  intro element tree p
  have hp : p.IsAddressable := by
    intro offset h
    obtain rfl : offset = 0 := by simpa [p] using h
    decide
  have ht : tree.hasTyped = false := rfl
  have hroot : p.tokens ≠ [] := List.cons_ne_nil _ _
  have hv : Value.null.coerce p = .ok .null := rfl
  have hone : (Value.int 1).isPrintable = true := by decide +kernel
  have hnumber : IsFirstObstacle element [.key "x", .key "y"] 1 (.int 1) (.key "y") :=
    (isFirstObstacle_of_not_takes rfl).cons rfl rfl Value.noConfusion
  have hobstacle : IsFirstObstacle tree p.tokens 3 (.int 1) (.key "y") :=
    (hnumber.cons rfl rfl Value.noConfusion).cons rfl rfl Value.noConfusion
  obtain ⟨_, hfails⟩ := write_succeeds_iff_unobstructed ht hp hroot hv
  obtain ⟨k, x, t, hfirst, htold, _⟩ := hfails _ rfl
  obtain ⟨rfl, rfl, rfl⟩ := hfirst.unique hobstacle
  exact ⟨rfl, hp, hroot, hv, hobstacle, hone, _, rfl, htold hone⟩

/-- In `{"a": 10 ^ 4300}` the number is in the way of a write to `/a/b`, but the error is no
structural mismatch, as its text would have to show the number. -/
theorem errorClass_ne_structuralMismatch :
    let n : Int := tenPow Digits.maxDigits
    let tree := Value.object .plain [(.text "a", .int n)]
    let p : Pointer := { tokens := [.key "a", .key "b"] }
    tree.hasTyped = false ∧ p.IsAddressable ∧ p.tokens ≠ [] ∧
    (Value.int 1).coerce p = .ok (.int 1) ∧ IsFirstObstacle tree p.tokens 1 (.int n) (.key "b") ∧
    ∃ e, (tree.write p (.int 1) {}).2 = some e ∧ e.errorClass = .value := by
  intro n tree p
  have hp : p.IsAddressable := by
    intro offset h
    simp [p] at h
  have hobstacle : IsFirstObstacle tree p.tokens 1 (.int n) (.key "b") :=
    (isFirstObstacle_of_not_takes rfl).cons rfl rfl Value.noConfusion
  have hat : (WriteFault.mismatch (.int n) (.key "b")).at p = .unprintable :=
    WriteFault.mismatch_at Digits.isPrintable_tenPow
  exact ⟨rfl, hp, List.cons_ne_nil _ _, rfl, hobstacle, _, congrArg some hat, rfl⟩

end Value
end JsonPointer
