import JsonPointer.Proofs.Descent

/-!
# What a write leaves alone

Two pointers are apart if neither leads on from the place of the other. A write, whether it succeeds
or stops half way, is seen at the places apart from its pointer only as padding:

* `follow_writeBelow_of_apart` — what was there is still there, and is the same value;
* `isNewPadding_of_follow_writeBelow` — what is new is the padding of an array that the write has
  grown.

Both are inductions along the tokens of the write. At the level where the two ways part, the write
touches another child of the container, so only `reserve` matters; above it, the child that both go
through is replaced by the child after the write, and the statement is that of the level below.
-/

namespace JsonPointer

/-- Neither of the two ways is the beginning of the other. -/
def Apart (ts us : List Token) : Prop := ¬ ts <+: us ∧ ¬ us <+: ts

instance (ts us : List Token) : Decidable (Apart ts us) := inferInstanceAs (Decidable (_ ∧ _))

namespace Apart

variable {t s : Token} {ts us : List Token}

theorem symm (h : Apart ts us) : Apart us ts := ⟨h.2, h.1⟩

theorem ne_nil_left (h : Apart ts us) : ts ≠ [] := fun hn => h.1 (hn ▸ List.nil_prefix)

theorem ne_nil_right (h : Apart ts us) : us ≠ [] := h.symm.ne_nil_left

theorem cons_iff : Apart (t :: ts) (t :: us) ↔ Apart ts us := by
  simp only [Apart, List.cons_prefix_cons, true_and]

/-- Two ways that are apart part at the first token, or go through the same child. -/
theorem cases_cons (h : Apart (t :: ts) us) :
    ∃ s rest, us = s :: rest ∧ (t ≠ s ∨ t = s ∧ Apart ts rest) := by
  cases us with
  | nil => exact absurd rfl h.ne_nil_right
  | cons s rest =>
      refine ⟨s, rest, rfl, ?_⟩
      by_cases hts : t = s
      · subst hts
        exact .inr ⟨rfl, cons_iff.mp h⟩
      · exact .inl hts

end Apart

namespace Value

variable {limit : Option Int} {v container grown : Value} {t s next : Token} {ts us : List Token}

/-! ### One level -/

/-- A write below one token leaves what stands at the others to `reserve`. -/
theorem child?_writeBelow_ne (hr : Reserved limit container t grown) (h : t ≠ s) :
    (writeBelow limit v container t ts).tree.child? s = grown.child? s := by
  cases ts with
  | nil =>
      rw [writeBelow_last hr]
      exact child?_assign_ne h v grown
  | cons next ts =>
      rw [writeBelow_next hr]
      exact child?_put_ne h _ grown

/-- After a write, what the next level has become stands in its place. -/
theorem step_writeBelow_next (v : Value) (next : Token) (ts : List Token)
    (hr : Reserved limit container t grown)
    (hu : container.isTyped = false) :
    (writeBelow limit v container t (next :: ts)).tree.step t =
      .ok (writeBelow limit v (container.slotOrFresh t next) next ts).tree :=
  step_writeBelow v (next :: ts) hr hu

/-! ### What was there -/

/-- The child that a read goes on from is the one that a write goes on into. -/
theorem slotOrFresh_of_follow {child y : Value} (hc : container.child? t = some child)
    (hus : us ≠ []) (h : child.follow us = .ok y) (next : Token) :
    container.slotOrFresh t next = child := by
  cases hm : child.isMissing with
  | false => exact slotOrFresh_of_child? hc hm next
  | true =>
      obtain rfl := isMissing_iff.mp hm
      exact absurd h (follow_ne_ok_of_child?_eq_none (fun s => by cases s <;> rfl) hus y)

/-- Where two ways part, a write along the one keeps what the other leads to. -/
theorem follow_writeBelow_of_ne {x : Value} (h : t ≠ s)
    (hx : container.follow (s :: us) = .ok x) :
    (writeBelow limit v container t ts).tree.follow (s :: us) = .ok x := by
  rcases reserve_spec limit container t with ⟨grown, _, hr⟩ | ⟨fault, hf, _⟩
  · obtain ⟨child, hstep, hchild⟩ := follow_cons_eq_ok_iff.mp hx
    obtain ⟨hlong, hs⟩ := step_eq_ok_iff.mp hstep
    refine follow_cons_eq_ok_iff.mpr ⟨child, step_eq_ok_iff.mpr ⟨?_, ?_⟩, hchild⟩
    · rw [isLongRange_writeBelow]
      exact hlong
    · rw [child?_writeBelow_ne hr h]
      exact hr.child?_some hs
  · rw [writeBelow_refused hf]
    exact hx

/-- What was there apart from the way of a write is there after it. -/
theorem follow_writeBelow_of_apart {x : Value} (ha : Apart (t :: ts) us)
    (hx : container.follow us = .ok x) :
    (writeBelow limit v container t ts).tree.follow us = .ok x := by
  -- along the tokens of the write, until the ways part
  induction ts generalizing container t us with
  | nil =>
      obtain ⟨s, rest, rfl, hne | ⟨_, hrest⟩⟩ := ha.cases_cons
      · exact follow_writeBelow_of_ne hne hx
      · exact absurd rfl hrest.ne_nil_left
  | cons next ts ih =>
      obtain ⟨s, rest, rfl, hne | ⟨rfl, hrest⟩⟩ := ha.cases_cons
      · exact follow_writeBelow_of_ne hne hx
      rcases reserve_spec limit container t with ⟨grown, _, hr⟩ | ⟨fault, hf, _⟩
      · obtain ⟨child, hstep, hchild⟩ := follow_cons_eq_ok_iff.mp hx
        have hc : container.child? t = some child := (step_eq_ok_iff.mp hstep).2
        rcases untyped_or_typed container with hu | ⟨content, rfl⟩
        · rw [follow_cons_of_step (step_writeBelow_next v next _ hr hu)]
          rw [slotOrFresh_of_follow hc hrest.ne_nil_right hchild next]
          exact ih hrest hchild
        · -- the elements of a typed array lead nowhere
          have hnone := fun s => ((scalar_of_child?_typed hc).2 s).1
          exact absurd hchild (follow_ne_ok_of_child?_eq_none hnone hrest.ne_nil_right x)
      · rw [writeBelow_refused hf]
        exact hx

/-! ### What is new -/

/-- The length of the array that tokens lead to, `0` if there is none. -/
def lengthAt (tree : Value) (ts : List Token) : Nat :=
  match tree.follow ts with
  | .ok v => v.length?.getD 0
  | .error _ => 0

/-- The tokens `us` lead to the value `y`, which stands in the tree `after` as padding that was not
in the tree `before`: in an array on the way `ts`, behind the end that it had and in front of the
element that `ts` goes through. -/
def IsNewPadding (before after : Value) (ts us : List Token) (y : Value) : Prop :=
  ∃ k i j padded, ts[k]? = some (.index i) ∧ us = ts.take k ++ [.index j] ∧
    before.lengthAt (ts.take k) ≤ j ∧ j < i ∧
    after.follow (ts.take k) = .ok padded ∧ padded.isArray = true ∧ y = padded.padding

theorem lengthAt_cons_of_step {child : Value} (h : container.step t = .ok child)
    (ts : List Token) : container.lengthAt (t :: ts) = child.lengthAt ts := by
  unfold lengthAt
  rw [follow_cons_of_step h]

/-- The arrays that the next level of a write starts with have the lengths they had. -/
theorem lengthAt_slotOrFresh (h : container.isLongRange = false) (t next : Token)
    (ts : List Token) :
    (container.slotOrFresh t next).lengthAt ts = container.lengthAt (t :: ts) := by
  rcases slotOrFresh_cases container t next with ⟨x, hx, _, heq⟩ | ⟨hmissing, heq⟩
  · rw [heq]
    exact (lengthAt_cons_of_step (step_eq_ok_iff.mpr ⟨h, hx⟩) ts).symm
  · -- nothing is stored there, and the new container is empty
    have hold : container.lengthAt (t :: ts) = 0 := by
      unfold lengthAt
      cases hf : container.follow (t :: ts) with
      | error fault => rfl
      | ok y =>
          obtain ⟨child, hchild, hy⟩ := follow_cons_eq_ok_iff.mp hf
          obtain rfl := hmissing child (step_eq_ok_iff.mp hchild).2
          rcases follow_of_child?_eq_none (fun s => by cases s <;> rfl) hy with ⟨_, rfl⟩
          rfl
    have hnew : (container.fresh next).lengthAt ts = 0 := by
      unfold lengthAt
      cases hf : (container.fresh next).follow ts with
      | error fault => rfl
      | ok y =>
          rcases follow_of_child?_eq_none (child?_fresh container next) hf with ⟨_, rfl⟩
          cases next <;> cases container <;> rfl
    rw [heq, hold, hnew]

/-- Where nothing is found below a token, the next level of a write finds nothing either. -/
theorem follow_slotOrFresh_ne_ok (h : container.isLongRange = false) (hus : us ≠ [])
    (hno : ∀ x, container.follow (t :: us) ≠ .ok x) (next : Token) (x : Value) :
    (container.slotOrFresh t next).follow us ≠ .ok x := by
  rcases slotOrFresh_cases container t next with ⟨y, hy, _, heq⟩ | ⟨_, heq⟩
  · rw [heq]
    intro hx
    exact hno x (follow_cons_eq_ok_iff.mpr ⟨y, step_eq_ok_iff.mpr ⟨h, hy⟩, hx⟩)
  · rw [heq]
    exact follow_ne_ok_of_child?_eq_none (child?_fresh container next) hus x

/-- Where two ways part, all that a write along the one adds to the other is one step of padding. -/
theorem isNewPadding_of_ne {y : Value} (hr : Reserved limit container t grown) (h : t ≠ s)
    (hno : ∀ x, container.follow (s :: us) ≠ .ok x)
    (hy : (writeBelow limit v container t ts).tree.follow (s :: us) = .ok y) :
    IsNewPadding container (writeBelow limit v container t ts).tree (t :: ts) (s :: us) y := by
  obtain ⟨child, hchild, hy⟩ := follow_cons_eq_ok_iff.mp hy
  have hnew : grown.child? s = some child := by
    rw [← child?_writeBelow_ne hr h]
    exact (step_eq_ok_iff.mp hchild).2
  -- had it stood there before, something would have been read
  have hold : container.child? s = none := by
    cases hs : container.child? s with
    | none => rfl
    | some x =>
        rw [hr.child?_some hs] at hnew
        obtain rfl := Option.some.inj hnew
        have hstep := step_eq_ok_iff.mpr ⟨hr.isLongRange_eq_false, hs⟩
        exact absurd (follow_cons_eq_ok_iff.mpr ⟨x, hstep, hy⟩) (hno y)
  obtain ⟨i, j, rfl, rfl, hlength, hji, rfl⟩ := hr.child?_new hold hnew
  have hne : j ≠ i := fun hij => h (congrArg Token.index hij.symm)
  cases us with
  | nil =>
      cases hy
      refine ⟨0, i, j, _, rfl, rfl, hlength, by omega, rfl, ?_, ?_⟩
      · rw [isArray_writeBelow]
        cases hr <;> rfl
      · rw [padding_writeBelow]
  | cons u us =>
      -- nothing stands below padding
      exact absurd hy (follow_ne_ok_of_child?_eq_none (child?_padding container) (by simp) y)

/-- What is new apart from the way of a write is padding. -/
theorem isNewPadding_of_follow_writeBelow {y : Value} (ha : Apart (t :: ts) us)
    (hno : ∀ x, container.follow us ≠ .ok x)
    (hy : (writeBelow limit v container t ts).tree.follow us = .ok y) :
    IsNewPadding container (writeBelow limit v container t ts).tree (t :: ts) us y := by
  -- along the tokens of the write, until the ways part
  induction ts generalizing container t us with
  | nil =>
      rcases reserve_spec limit container t with ⟨grown, _, hr⟩ | ⟨fault, hf, _⟩
      · obtain ⟨s, rest, rfl, hne | ⟨_, hrest⟩⟩ := ha.cases_cons
        · exact isNewPadding_of_ne hr hne hno hy
        · exact absurd rfl hrest.ne_nil_left
      · rw [writeBelow_refused hf] at hy
        exact absurd hy (hno y)
  | cons next ts ih =>
      rcases reserve_spec limit container t with ⟨grown, _, hr⟩ | ⟨fault, hf, _⟩
      · obtain ⟨s, rest, rfl, hne | ⟨rfl, hrest⟩⟩ := ha.cases_cons
        · exact isNewPadding_of_ne hr hne hno hy
        have hlong := hr.isLongRange_eq_false
        rcases untyped_or_typed container with hu | ⟨content, rfl⟩
        · have hstep := step_writeBelow_next v next ts hr hu
          rw [follow_cons_of_step hstep] at hy
          have hno' := follow_slotOrFresh_ne_ok hlong hrest.ne_nil_right hno next
          obtain ⟨k, i, j, padded, hk, rfl, hlength, hji, hpadded, hp⟩ := ih hrest hno' hy
          -- the padding is found below the child, one token further on
          refine ⟨k + 1, i, j, padded, hk, rfl, ?_, hji, ?_, hp⟩
          · rw [List.take_succ_cons]
            rwa [lengthAt_slotOrFresh hlong] at hlength
          · rw [List.take_succ_cons, follow_cons_of_step hstep]
            exact hpadded
        · -- nothing stands below the elements of a typed array, new ones included
          obtain ⟨fault, hf⟩ := writeBelow_typed_next v next ts hr
          rw [hf] at hy
          obtain ⟨e, he, hey⟩ := follow_cons_eq_ok_iff.mp hy
          cases hr with
          | typed hg =>
              have hnone := fun s => ((scalar_of_child?_typed (step_eq_ok_iff.mp he).2).2 s).1
              exact absurd hey (follow_ne_ok_of_child?_eq_none hnone hrest.ne_nil_right y)
      · rw [writeBelow_refused hf] at hy
        exact absurd hy (hno y)

/-! ### The frame of a write -/

/-- **The frame of a write.** Whether a write succeeds or stops half way, what is read apart from
its pointer is what was read before, and where nothing was read before there is nothing still, or
new padding of an array on the way. -/
theorem read_write_of_apart (tree v : Value) (p q : Pointer) (policy : Policy)
    (ha : Apart p.tokens q.tokens) :
    (∀ x, tree.read q = .ok x → (tree.write p v policy).1.read q = .ok x) ∧
    (∀ y, (∀ x, tree.read q ≠ .ok x) → (tree.write p v policy).1.read q = .ok y →
      IsNewPadding tree (tree.write p v policy).1 p.tokens q.tokens y) := by
  simp only [write_tree, ne_eq, read_eq_ok_iff]
  -- a write that fails early has not touched the tree
  rcases attempt_spec tree p v policy with ⟨fault, hf, _⟩ | ⟨t, ts, converted, hadmitted⟩
  · rw [hf]
    exact ⟨fun x hx => hx, fun y hno hy => absurd hy (hno y)⟩
  · rw [attempt_of_admitted hadmitted]
    rw [hadmitted.tokens] at ha ⊢
    exact ⟨fun x hx => follow_writeBelow_of_apart ha hx,
      fun y hno hy => isNewPadding_of_follow_writeBelow ha hno hy⟩

/-- A write to `/a/4/x` of `{"a": [1]}` pads the array, which is seen at `/a/3`. -/
theorem read_write_of_apart_at_padding :
    let tree := Value.object .plain [(.text "a", .array .list [.int 1])]
    let p : Pointer := { tokens := [.key "a", .index 3, .key "x"] }
    let q : Pointer := { tokens := [.key "a", .index 2] }
    Apart p.tokens q.tokens ∧
    IsNewPadding tree (tree.write p (.int 7) {}).1 p.tokens q.tokens .missing :=
  ⟨by decide, (read_write_of_apart _ _ _ _ _ (by decide)).2 _ (fun _ hx => by cases hx) rfl⟩

end Value
end JsonPointer
