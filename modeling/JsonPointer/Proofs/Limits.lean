import JsonPointer.Proofs.Sessions

/-!
# What the limits of a policy hold over

A policy looks at the depth before a write and at the length only where an array has to grow, and a
write that it stops leaves behind what was made until then. Still nothing in the tree ever exceeds
the limits, if all that is written are scalars: `Within` is the invariant, which a step of a write
keeps whatever it ends with (`within_writeBelow`), and so does a write and a session.

In a tree that was not made under the policy, an array on the way of a write is afterwards no longer
than it was, or within the limit (`lengthAt_writeBelow`).
-/

namespace JsonPointer

/-- Does the token lead to one of the first `length` elements, if it leads into an array? -/
def Token.Within (length : Nat) : Token → Prop
  | .key _ => True
  | .index offset => offset < length

namespace Value

/-- Is the value a scalar of JSON, or `missing`? -/
def isScalar : Value → Bool
  | .missing => true
  | .null => true
  | .bool _ => true
  | .int _ => true
  | .float _ => true
  | .text _ => true
  | _ => false

/-- Nothing can be read below the value: it is no container, or an empty one. -/
def IsLeaf (v : Value) : Prop := ∀ t, v.child? t = none

/-- All that can be read in the tree is at most `depth` tokens away, and in arrays at one of the
first `length` positions. -/
def Within (depth length : Nat) (tree : Value) : Prop :=
  ∀ us x, tree.follow us = .ok x → us.length ≤ depth ∧ ∀ t ∈ us, t.Within length

variable {depth length : Nat} {limit : Option Int} {v container grown x : Value} {t s next : Token}
  {ts : List Token}

/-! ### Values that hold nothing -/

theorem isLeaf_of_isScalar (h : v.isScalar = true) : v.IsLeaf := by
  intro t
  cases v <;> cases t <;> first | rfl | cases h

theorem isLeaf_emptyObject (flavour : ObjectFlavour) : (Value.object flavour []).IsLeaf := by
  intro t
  cases t <;> rfl

theorem isLeaf_emptyArray (flavour : ArrayFlavour) : (Value.array flavour []).IsLeaf := by
  intro t
  cases t <;> rfl

theorem isLeaf_nullValue (kind : Kind) : kind.nullValue.IsLeaf := by
  cases kind with
  | object => exact isLeaf_emptyObject .plain
  | array => exact isLeaf_emptyArray .list
  | _ => exact isLeaf_of_isScalar rfl

/-- A scalar that is not of the kind is not converted to it. -/
theorem adapter_of_isScalar {kind : Kind} {f : Value → Option Value} (hf : kind.adapter? = some f)
    (hv : v.isScalar = true) (hno : ¬ v.hasKind kind = true) : f v = none := by
  cases kind <;> cases hf <;> cases v <;> first | rfl | exact absurd rfl hno | cases hv

/-- Whatever the constraint, a scalar becomes a value that holds nothing. -/
theorem isLeaf_of_coerce? {kind : Kind} {converted : Value} (hv : v.isScalar = true)
    (h : coerce? kind v = some converted) : converted.IsLeaf := by
  rcases coerce?_cases h with ⟨_, rfl⟩ | ⟨_, rfl⟩ | ⟨hno, f, hf, hconverted⟩
  · exact isLeaf_nullValue kind
  · exact isLeaf_of_isScalar hv
  · rw [adapter_of_isScalar hf hv hno] at hconverted
    cases hconverted

/-- The elements of a typed array are scalars. -/
theorem isScalar_of_step_typed {content : TypedArray} (hx : (Value.typed content).step t = .ok x) :
    x.isScalar = true := by
  have hchild := (step_eq_ok_iff.mp hx).2
  cases t with
  | key name => cases hchild
  | index i =>
      have hmem : x ∈ content.values := List.mem_of_getElem? hchild
      cases content <;>
        · obtain ⟨_, _, rfl⟩ := List.mem_map.mp hmem
          rfl

theorem lengthAt_typed_cons (content : TypedArray) (t : Token) (ts : List Token) :
    (Value.typed content).lengthAt (t :: ts) = 0 := by
  unfold lengthAt
  cases hf : (Value.typed content).follow (t :: ts) with
  | error fault => rfl
  | ok y =>
      obtain ⟨x, hx, hy⟩ := follow_cons_eq_ok_iff.mp hf
      have hscalar := isScalar_of_step_typed hx
      obtain ⟨_, rfl⟩ := follow_of_child?_eq_none (isLeaf_of_isScalar hscalar) hy
      -- rfl | cases hscalar | a scalar has no length
      cases y <;> first | rfl | cases hscalar

/-- A typed array stays one. -/
theorem exists_writeBelow_typed (limit : Option Int) (v : Value) (content : TypedArray) (t : Token)
    (ts : List Token) :
    ∃ content', (writeBelow limit v (.typed content) t ts).tree = .typed content' := by
  have hblank := blank_writeBelow limit v (.typed content) t ts
  cases htree : (writeBelow limit v (.typed content) t ts).tree with
  | typed content' => exact ⟨content', rfl⟩
  | _ =>
      rw [htree] at hblank
      cases hblank

theorem IsLeaf.within (h : v.IsLeaf) (depth length : Nat) : v.Within depth length := by
  intro us x hx
  obtain ⟨rfl, _⟩ := follow_of_child?_eq_none h hx
  simp

/-! ### One level of a tree -/

/-- A tree is within the limits if its children are, one level further down. -/
theorem within_succ_iff : container.Within (depth + 1) length ↔
    ∀ s x, container.step s = .ok x → s.Within length ∧ x.Within depth length := by
  constructor
  · intro h s x hx
    -- what can be read below a child can be read below the container
    have hbelow {us : List Token} {y : Value} (hy : x.follow us = .ok y) :=
      h (s :: us) y ((follow_cons_of_step hx us).trans hy)
    refine ⟨(hbelow (follow_nil x)).2 s List.mem_cons_self, ?_⟩
    intro us y hy
    obtain ⟨hdepth, hlength⟩ := hbelow hy
    exact ⟨Nat.le_of_succ_le_succ hdepth, fun t ht => hlength t (List.mem_cons_of_mem s ht)⟩
  · intro h us y hy
    cases us with
    | nil => simp
    | cons s us =>
        obtain ⟨x, hx, hy⟩ := follow_cons_eq_ok_iff.mp hy
        obtain ⟨hs, hbelow⟩ := h s x hx
        obtain ⟨hdepth, hlength⟩ := hbelow us y hy
        refine ⟨Nat.succ_le_succ hdepth, ?_⟩
        intro t ht
        rcases List.mem_cons.mp ht with rfl | ht
        · exact hs
        · exact hlength t ht

/-- Room is made within the limit only. -/
theorem Reserved.within (h : Reserved (some (length : Int)) container t grown)
    (hc : container.Within (depth + 1) length) : t.Within length := by
  cases t with
  | key name => trivial
  | index i =>
      -- an element that is there is within the limit, and a new one is made there only
      cases hx : container.child? (.index i) with
      | some x =>
          have hstep := step_eq_ok_iff.mpr ⟨h.isLongRange_eq_false, hx⟩
          exact (within_succ_iff.mp hc _ _ hstep).1
      | none =>
          obtain ⟨x, hgrown⟩ := h.exists_child?
          obtain ⟨_, _, ⟨⟩, ⟨⟩, hlength, _, _⟩ := h.child?_new hx hgrown
          have hle := (h.mayGrow (by omega)).1 length rfl
          show i < length
          omega

/-- The next level of a write starts within the limits. -/
theorem Within.slotOrFresh (hc : container.Within (depth + 1) length)
    (h : container.isLongRange = false) (t next : Token) :
    (container.slotOrFresh t next).Within depth length := by
  rcases slotOrFresh_cases container t next with ⟨x, hx, _, heq⟩ | ⟨_, heq⟩
  · rw [heq]
    exact (within_succ_iff.mp hc t x (step_eq_ok_iff.mpr ⟨h, hx⟩)).2
  · rw [heq]
    exact IsLeaf.within (child?_fresh container next) depth length

/-- Beside its way, a write leaves the children as they were, and adds padding. -/
theorem Within.step_of_ne (hc : container.Within (depth + 1) length)
    (hr : Reserved (some (length : Int)) container t grown) (hne : t ≠ s)
    (hx : (writeBelow (some (length : Int)) v container t ts).tree.step s = .ok x) :
    s.Within length ∧ x.Within depth length := by
  obtain ⟨_, hchild⟩ := step_eq_ok_iff.mp hx
  rw [child?_writeBelow_ne hr hne] at hchild
  -- a child that was there, and one that is padding
  cases hs : container.child? s with
  | some y =>
      obtain rfl : y = x := Option.some.inj ((hr.child?_some hs).symm.trans hchild)
      exact within_succ_iff.mp hc s y (step_eq_ok_iff.mpr ⟨hr.isLongRange_eq_false, hs⟩)
  | none =>
      obtain ⟨i, j, rfl, rfl, _, hji, rfl⟩ := hr.child?_new hs hchild
      have hi : i < length := hr.within hc
      exact ⟨Nat.lt_of_le_of_lt hji hi, IsLeaf.within (child?_padding container) depth length⟩

/-- A write stays within the limits if what it makes of the child does. -/
theorem Within.writeBelow (hc : container.Within (depth + 1) length)
    (hbelow : ∀ grown x, Reserved (some (length : Int)) container t grown →
      container.isTyped = false →
      (writeBelow (some (length : Int)) v container t ts).tree.step t = .ok x →
      x.Within depth length) :
    (writeBelow (some (length : Int)) v container t ts).tree.Within (depth + 1) length := by
  rcases reserve_spec (some (length : Int)) container t with ⟨grown, _, hr⟩ | ⟨fault, hf, _⟩
  · rw [within_succ_iff]
    intro s x hx
    -- the child on the way, and those beside it
    by_cases hne : t = s
    · subst hne
      refine ⟨hr.within hc, ?_⟩
      rcases untyped_or_typed container with hu | ⟨content, rfl⟩
      · exact hbelow grown x hr hu hx
      · obtain ⟨content', htree⟩ := exists_writeBelow_typed (some (length : Int)) v content t ts
        rw [htree] at hx
        exact (isLeaf_of_isScalar (isScalar_of_step_typed hx)).within depth length
    · exact hc.step_of_ne hr hne hx
  · rw [writeBelow_refused hf]
    exact hc

/-! ### The way down -/

/-- However it ends, a write of a value that holds nothing stays within the limits. -/
theorem within_writeBelow (hv : v.IsLeaf) (hts : ts.length ≤ depth)
    (hc : container.Within (depth + 1) length) :
    (writeBelow (some (length : Int)) v container t ts).tree.Within (depth + 1) length := by
  -- at each token the depth that is left gets less by one
  induction ts generalizing container t depth with
  | nil =>
      apply hc.writeBelow
      intro grown x hr hu hx
      rw [step_writeBelow v [] hr hu] at hx
      cases hx
      exact hv.within depth length
  | cons next ts ih =>
      apply hc.writeBelow
      intro grown x hr hu hx
      rw [step_writeBelow_next v next ts hr hu] at hx
      cases hx
      cases depth with
      | zero => cases hts
      | succ depth =>
          apply ih (Nat.le_of_succ_le_succ hts)
          exact hc.slotOrFresh hr.isLongRange_eq_false t next

/-- Making room lets an array become no longer than it was, or than the limit. -/
theorem Reserved.length_le (h : Reserved (some (length : Int)) container t grown) :
    grown.length?.getD 0 ≤ length ∨ grown.length?.getD 0 ≤ container.length?.getD 0 := by
  cases h with
  | member _ => exact .inr (Nat.le_refl _)
  | @element _ items i _ hg =>
      show (items ++ _).length ≤ length ∨ (items ++ _).length ≤ items.length
      rw [List.length_append, List.length_replicate]
      by_cases hlt : items.length < i + 1
      · have hle := (hg hlt).1 length rfl
        omega
      · omega
  | @typed content i hg =>
      show (content.pad _).size ≤ length ∨ (content.pad _).size ≤ content.size
      rw [TypedArray.size_pad]
      by_cases hlt : content.size < i + 1
      · have hle := (hg hlt).1 length rfl
        omega
      · omega

/-- The array that a write goes into ends up no longer than it was, or than the limit. -/
theorem length_writeBelow (v container : Value) (t : Token) (ts : List Token) :
    (writeBelow (some (length : Int)) v container t ts).tree.length?.getD 0 ≤ length ∨
    (writeBelow (some (length : Int)) v container t ts).tree.length?.getD 0 ≤
      container.length?.getD 0 := by
  rcases reserve_spec (some (length : Int)) container t with ⟨grown, _, hr⟩ | ⟨fault, hf, _⟩
  · cases ts with
    | nil =>
        rw [writeBelow_last hr, length?_assign]
        exact hr.length_le
    | cons next ts =>
        rw [writeBelow_next hr, length?_put]
        exact hr.length_le
  · rw [writeBelow_refused hf]
    exact .inr (Nat.le_refl _)

/-- Every array on the way of a write ends up no longer than it was, or than the limit. -/
theorem lengthAt_writeBelow {k : Nat} (hk : k ≤ ts.length) :
    (writeBelow (some (length : Int)) v container t ts).tree.lengthAt ((t :: ts).take k) ≤ length ∨
    (writeBelow (some (length : Int)) v container t ts).tree.lengthAt ((t :: ts).take k) ≤
      container.lengthAt ((t :: ts).take k) := by
  -- along the tokens, down to the container that is asked for
  induction ts generalizing container t k with
  | nil =>
      obtain rfl : k = 0 := Nat.le_zero.mp hk
      exact length_writeBelow v container t []
  | cons next ts ih =>
      cases k with
      | zero => exact length_writeBelow v container t (next :: ts)
      | succ k =>
          rw [List.take_succ_cons]
          rcases reserve_spec (some (length : Int)) container t with ⟨grown, _, hr⟩ | ⟨_, hf, _⟩
          · rcases untyped_or_typed container with hu | ⟨content, rfl⟩
            · have hstep := step_writeBelow_next v next ts hr hu
              rw [lengthAt_cons_of_step hstep,
                ← lengthAt_slotOrFresh hr.isLongRange_eq_false t next]
              exact ih (Nat.le_of_succ_le_succ hk)
            · left
              obtain ⟨content', htree⟩ :=
                exists_writeBelow_typed (some (length : Int)) v content t (next :: ts)
              rw [htree, lengthAt_typed_cons]
              exact Nat.zero_le length
          · rw [writeBelow_refused hf]
            exact .inr (Nat.le_refl _)

/-! ### The whole write -/

/-- A write under the policy keeps a tree within its limits, if the value is a scalar. -/
theorem within_write (hv : v.isScalar = true) {tree : Value} (htree : tree.Within depth length)
    (p : Pointer) :
    (tree.write p v { maxDepth := some depth, maxLength := some length }).1.Within
      depth length := by
  rw [write_tree]
  rcases attempt_spec tree p v { maxDepth := some depth, maxLength := some length } with
    ⟨fault, hf, _⟩ | ⟨t, ts, converted, hadmitted⟩
  · rw [hf]
    exact htree
  · rw [attempt_of_admitted hadmitted]
    -- the pointer has been found short enough before the way down
    have hdepth : ts.length + 1 ≤ depth := by
      have hallowed := hadmitted.depth
      simp [depthAllowed, Pointer.depth, hadmitted.tokens] at hallowed
      omega
    cases depth with
    | zero => cases hdepth
    | succ depth =>
        exact within_writeBelow (isLeaf_of_coerce? hv hadmitted.coerced)
          (Nat.le_of_succ_le_succ hdepth) htree

/-- A write leaves every array on its way no longer than it was, or than the limit. -/
theorem lengthAt_write {policy : Policy} (hpolicy : policy.maxLength = some (length : Int))
    (tree v : Value) (p : Pointer) {k : Nat} (hk : k < p.depth) :
    (tree.write p v policy).1.lengthAt (p.tokens.take k) ≤ length ∨
    (tree.write p v policy).1.lengthAt (p.tokens.take k) ≤ tree.lengthAt (p.tokens.take k) := by
  rw [write_tree]
  rcases attempt_spec tree p v policy with ⟨fault, hf, _⟩ | ⟨t, ts, converted, hadmitted⟩
  · rw [hf]
    exact .inr (Nat.le_refl _)
  · rw [Pointer.depth, hadmitted.tokens] at hk
    rw [attempt_of_admitted hadmitted, hadmitted.tokens, hpolicy]
    exact lengthAt_writeBelow (Nat.le_of_lt_succ hk)

end Value

/-! ### Sessions -/

/-- A step that writes under the policy keeps the tree within its limits. -/
theorem Step.within_run {depth length : Nat} {s : Step} {v tree : Value}
    (hs : s.operation = .write v { maxDepth := some depth, maxLength := some length })
    (hv : v.isScalar = true) (htree : tree.Within depth length) :
    (s.run tree).2.Within depth length := by
  cases hp : s.target.resolve with
  | error e =>
      rw [run, hp]
      exact htree
  | ok p =>
      rw [run_of_resolve hp, hs, Operation.run_write]
      exact Value.within_write hv htree p

/-- **Limits hold over whole runs.** In a session of writes of scalars under a policy, which starts
from a value that holds nothing and in which any step may fail, all that can be read at the end is
within the depth and the length of the policy. And from whatever tree and with whatever value, one
write leaves an array above its place no longer than the length of the policy, or than it was. -/
theorem within_limits (depth length : Nat) :
    (∀ tree steps, tree.IsLeaf →
      (∀ s ∈ steps, ∃ v, v.isScalar = true ∧
        s.operation = .write v { maxDepth := some depth, maxLength := some length }) →
      ∀ q x, (finish tree steps).read q = .ok x →
        q.depth ≤ depth ∧ ∀ offset, .index offset ∈ q.tokens → offset + 1 ≤ length) ∧
    (∀ (tree v : Value) (p : Pointer) (k : Nat), k < p.depth →
      let after := (tree.write p v { maxDepth := some depth, maxLength := some length }).1
      after.lengthAt (p.tokens.take k) ≤ length ∨
        after.lengthAt (p.tokens.take k) ≤ tree.lengthAt (p.tokens.take k)) := by
  constructor
  · -- being within the limits is kept by each step, so it holds at the end
    intro tree steps htree hsteps q x hx
    have hfinish : (finish tree steps).Within depth length := by
      apply finish_induction
      · intro s hs tree htree
        obtain ⟨v, hv, hop⟩ := hsteps s hs
        exact Step.within_run hop hv htree
      · exact htree.within depth length
    obtain ⟨hdepth, hlength⟩ := hfinish q.tokens x (Value.read_eq_ok_iff.mp hx)
    exact ⟨hdepth, fun offset hoffset => hlength (.index offset) hoffset⟩
  · intro tree v p k hk
    exact Value.lengthAt_write rfl tree v p hk

/-- Under a depth of three and a length of two, a write to `/a/1/3` of `{}` fails when it has
already made two arrays, and one to `/a/2/x` still finds room in the outer one. -/
theorem within_limits_of_failure :
    let policy : Policy := { maxDepth := some (3 : Nat), maxLength := some (2 : Nat) }
    let p : Pointer := { tokens := [.key "a", .index 0, .index 2] }
    let q : Pointer := { tokens := [.key "a", .index 1, .key "x"] }
    let steps : List Step :=
      [⟨.pointer p, .write .null policy⟩, ⟨.pointer q, .write (.int 7) policy⟩]
    let tree := Value.object .plain []
    tree.IsLeaf ∧ (∃ e, (tree.write p .null policy).2 = some e) ∧
    (finish tree steps).read q = .ok (.int 7) ∧
    (q.depth ≤ 3 ∧ ∀ offset, .index offset ∈ q.tokens → offset + 1 ≤ 2) ∧
    (1 < p.depth ∧ ((tree.write p .null policy).1.lengthAt (p.tokens.take 1) ≤ 2 ∨
      (tree.write p .null policy).1.lengthAt (p.tokens.take 1) ≤
        tree.lengthAt (p.tokens.take 1))) := by
  intro policy p q steps tree
  have htree : tree.IsLeaf := Value.isLeaf_emptyObject .plain
  have hread : (finish tree steps).read q = .ok (.int 7) := rfl
  have hdepth : 1 < p.depth := by decide
  obtain ⟨hsession, hlength⟩ := within_limits 3 2
  refine ⟨htree, ⟨_, rfl⟩, hread, hsession tree steps htree ?_ q _ hread, hdepth, ?_⟩
  · intro s hs
    rcases List.mem_cons.mp hs with rfl | hs
    · exact ⟨.null, rfl, rfl⟩
    · obtain rfl := List.mem_singleton.mp hs
      exact ⟨.int 7, rfl, rfl⟩
  · exact hlength tree .null p 1 hdepth

end JsonPointer
