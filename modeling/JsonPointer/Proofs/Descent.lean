import JsonPointer.Proofs.Container

/-!
# The way down a tree

Reads and writes both go from container to container along the tokens of a pointer. This file turns
the two recursions into equations that later proofs rewrite with: `follow_cons_eq_ok_iff` for a
read, and for a write the ways that one level can end. The container refuses the token
(`writeBelow_refused`), or makes room for it; then what the write makes of the slot is put there
(`writeBelow_untyped`), which for a typed array is an element. `attempt_spec` says what happens
before the first level is reached.
-/

namespace JsonPointer
namespace Value

variable {limit : Option Int} {v container grown : Value} {t next : Token} {ts : List Token}

/-! ### Following tokens -/

theorem isLongRange_of_member? {container x : Value} {name : String}
    (h : container.member? name = some x) : container.isLongRange = false := by
  cases container <;> first | rfl | cases h

/-- A token leads on to what stands there, unless it is asked of a range that is too long. -/
theorem step_eq_ok_iff {container x : Value} {t : Token} :
    container.step t = .ok x ↔ container.isLongRange = false ∧ container.child? t = some x := by
  cases t with
  | key name =>
      simp only [step, child?]
      cases h : container.member? name with
      | none => simp
      | some y => simp [isLongRange_of_member? h]
  | index offset =>
      simp only [step, child?]
      -- only a position is checked against the length of a range
      by_cases hr : container.isLongRange = true
      · simp [hr]
      · cases h : container.item? offset with
        | none => cases container.isArray <;> simp [hr]
        | some y => simp [hr]

@[simp] theorem follow_nil (x : Value) : x.follow [] = .ok x := rfl

/-- Following tokens is to take one step and to follow the others from there. -/
theorem follow_cons_eq_ok_iff {x y : Value} :
    x.follow (t :: ts) = .ok y ↔ ∃ child, x.step t = .ok child ∧ child.follow ts = .ok y := by
  rw [follow]
  cases h : x.step t with
  | ok child => simp
  | error fault => simp

theorem follow_cons_of_step {x child : Value} (h : x.step t = .ok child) (ts : List Token) :
    x.follow (t :: ts) = child.follow ts := by
  rw [follow, h]

theorem read_eq_ok_iff {tree x : Value} {p : Pointer} :
    tree.read p = .ok x ↔ tree.follow p.tokens = .ok x := by
  unfold read
  cases tree.follow p.tokens with
  | ok y =>
      show Except.ok y = Except.ok x ↔ _
      simp
  | error fault => exact iff_of_false (fun h => by cases h) (fun h => by cases h)

/-- What holds nothing is as far as tokens lead. -/
theorem follow_of_child?_eq_none {x y : Value} (hx : ∀ s, x.child? s = none)
    (h : x.follow ts = .ok y) : ts = [] ∧ y = x := by
  cases ts with
  | nil =>
      cases h
      exact ⟨rfl, rfl⟩
  | cons t ts =>
      obtain ⟨child, hchild, _⟩ := follow_cons_eq_ok_iff.mp h
      rw [step_eq_ok_iff, hx] at hchild
      exact absurd hchild.2 (by simp)

/-- What holds nothing cannot be followed. -/
theorem follow_ne_ok_of_child?_eq_none {x : Value} (hx : ∀ s, x.child? s = none) (hts : ts ≠ [])
    (y : Value) : x.follow ts ≠ .ok y :=
  fun h => hts (follow_of_child?_eq_none hx h).1

/-! ### Scalars -/

/-- What a typed array holds are scalars: they hold nothing, and are not `missing`. -/
theorem scalar_of_child?_typed {content : TypedArray} {e : Value}
    (h : (Value.typed content).child? t = some e) :
    e.isMissing = false ∧ ∀ s, e.child? s = none ∧ e.takes s = false := by
  cases t with
  | key name => cases h
  | index offset =>
      -- the element is one of the values that the array holds, so its type says what it is
      have he : e ∈ content.values := List.mem_of_getElem? h
      cases content with
      | ints f items =>
          obtain ⟨n, _, rfl⟩ := List.mem_map.mp he
          exact ⟨rfl, fun s => by cases s <;> exact ⟨rfl, rfl⟩⟩
      | floats single items =>
          obtain ⟨x, _, rfl⟩ := List.mem_map.mp he
          exact ⟨rfl, fun s => by cases s <;> exact ⟨rfl, rfl⟩⟩
      | chars items =>
          obtain ⟨c, _, rfl⟩ := List.mem_map.mp he
          exact ⟨rfl, fun s => by cases s <;> exact ⟨rfl, rfl⟩⟩

/-- Padding holds nothing either. -/
theorem child?_padding (container : Value) (s : Token) : container.padding.child? s = none := by
  cases container with
  | typed content => cases content <;> cases s <;> rfl
  | _ => cases s <;> rfl

theorem isMissing_iff {x : Value} : x.isMissing = true ↔ x = .missing := by
  cases x <;> simp [isMissing]

/-! ### One level of a write -/

/-- Where no room can be made, a write ends and changes nothing. -/
theorem writeBelow_refused {fault : WriteFault} (h : container.reserve limit t = .error fault) :
    writeBelow limit v container t ts = ⟨container, some fault⟩ := by
  cases ts <;> simp only [writeBelow, h]

/-- At the last token a write stores its value. -/
theorem writeBelow_last (h : Reserved limit container t grown) :
    writeBelow limit v container t [] = assign v grown t := by
  simp only [writeBelow, reserve_eq_ok_iff.mpr h]

/-- At any other token a write goes on below, and puts back what that has made, even if it fails. -/
theorem writeBelow_next (h : Reserved limit container t grown) :
    writeBelow limit v container t (next :: ts) =
      ⟨put (writeBelow limit v (grown.slotOrFresh t next) next ts).tree grown t,
        (writeBelow limit v (grown.slotOrFresh t next) next ts).fault?⟩ := by
  simp only [writeBelow, reserve_eq_ok_iff.mpr h]

/-- A value that does not take the first token refuses the write. -/
theorem writeBelow_of_not_takes (h : container.takes t = false) :
    writeBelow limit v container t ts = ⟨container, some (.mismatch container t)⟩ := by
  rcases reserve_spec limit container t with ⟨grown, _, hr⟩ | ⟨fault, hf, hr⟩
  · rw [hr.takes] at h
    cases h
  · cases hr with
    | mismatch _ => exact writeBelow_refused hf
    | growth ht _ =>
        rw [ht] at h
        cases h

theorem slotOrFresh_eq (container : Value) (t next : Token) :
    container.slotOrFresh t next =
      if (container.slot t).isMissing then container.fresh next else container.slot t := rfl

/-- The next level of a write goes into what stands there. -/
theorem slotOrFresh_of_child? {x : Value} (h : container.child? t = some x)
    (hx : x.isMissing = false) (next : Token) : container.slotOrFresh t next = x := by
  unfold slotOrFresh
  rw [slot_eq, h]
  simp [hx]

/-- Where nothing is stored, the next level of a write goes into a new container. -/
theorem slotOrFresh_of_slot_missing (h : container.slot t = .missing) (next : Token) :
    container.slotOrFresh t next = container.fresh next := by
  unfold slotOrFresh
  rw [h]
  rfl

/-- A write goes on into what is stored at the token, or into a new container if nothing is. -/
theorem slotOrFresh_cases (container : Value) (t next : Token) :
    (∃ x, container.child? t = some x ∧ x ≠ .missing ∧ container.slotOrFresh t next = x) ∨
    ((∀ x, container.child? t = some x → x = .missing) ∧
      container.slotOrFresh t next = container.fresh next) := by
  by_cases h : ∀ x, container.child? t = some x → x = .missing
  · exact .inr ⟨h, slotOrFresh_of_slot_missing (slot_eq_missing_iff.mpr h) next⟩
  · obtain ⟨x, hx⟩ := Classical.not_forall.mp h
    obtain ⟨hc, hne⟩ := Classical.not_imp.mp hx
    have hm : x.isMissing = false := Bool.eq_false_iff.mpr (mt isMissing_iff.mp hne)
    exact .inl ⟨x, hc, hne, slotOrFresh_of_child? hc hm next⟩

/-- A new container holds nothing. -/
theorem child?_fresh (container : Value) (next s : Token) :
    (container.fresh next).child? s = none := by
  cases next <;> cases container <;> cases s <;> rfl

/-- Making room is not seen in the slots, as the padding of an array that is not typed is `missing`.
-/
theorem Reserved.slot_eq (h : Reserved limit container t grown) (hu : container.isTyped = false)
    (s : Token) : grown.slot s = container.slot s := by
  rw [Value.slot_eq, Value.slot_eq]
  cases hs : container.child? s with
  | some x => rw [h.child?_some hs]
  | none =>
      cases hg : grown.child? s with
      | none => rfl
      | some y =>
          -- what stands there only after making room is padding
          obtain ⟨_, _, _, _, _, _, rfl⟩ := h.child?_new hs hg
          cases container <;> first | rfl | cases hu

theorem Reserved.fresh_eq (h : Reserved limit container t grown) (next : Token) :
    grown.fresh next = container.fresh next := by
  cases h <;> cases next <;> rfl

theorem Reserved.slotOrFresh_eq (h : Reserved limit container t grown)
    (hu : container.isTyped = false) (next : Token) :
    grown.slotOrFresh t next = container.slotOrFresh t next := by
  unfold slotOrFresh
  rw [h.slot_eq hu, h.fresh_eq]

/-- What a write makes of the slot at a token: the value itself behind the last token. -/
def writeSlot (limit : Option Int) (v container : Value) (t : Token) : List Token → Attempt
  | [] => ⟨v, none⟩
  | next :: ts => writeBelow limit v (container.slotOrFresh t next) next ts

/-- Outside typed arrays, one level of a write is to make room and to put what is made below. -/
theorem writeBelow_untyped (h : Reserved limit container t grown)
    (hu : container.isTyped = false) :
    writeBelow limit v container t ts =
      ⟨put (writeSlot limit v container t ts).tree grown t,
        (writeSlot limit v container t ts).fault?⟩ := by
  cases ts with
  | nil =>
      -- growing keeps the sort of the container, so it stores every value
      have hg : grown.isTyped = false := by
        rw [← isTyped_blank, h.blank_eq, isTyped_blank, hu]
      rw [writeBelow_last h, assign_of_isTyped_eq_false hg]
      rfl
  | cons next ts =>
      rw [writeBelow_next h, h.slotOrFresh_eq hu]
      rfl

/-- A write that succeeds has found room. -/
theorem exists_reserved_of_writeBelow {c' : Value}
    (h : writeBelow limit v container t ts = ⟨c', none⟩) :
    ∃ grown, Reserved limit container t grown := by
  rcases reserve_spec limit container t with ⟨grown, _, hr⟩ | ⟨fault, hf, _⟩
  · exact ⟨grown, hr⟩
  · rw [writeBelow_refused hf] at h
    cases h

/-- Outside typed arrays a write succeeds exactly if it succeeds below. -/
theorem writeBelow_untyped_eq_iff {c' : Value} (h : Reserved limit container t grown)
    (hu : container.isTyped = false) :
    writeBelow limit v container t ts = ⟨c', none⟩ ↔
      ∃ m, writeSlot limit v container t ts = ⟨m, none⟩ ∧ c' = put m grown t := by
  rw [writeBelow_untyped h hu]
  cases writeSlot limit v container t ts with
  | mk m fault? =>
      cases fault? with
      | none => simp [eq_comm]
      | some fault => simp

/-- A write goes no further through a typed array than into it: an element takes no token. -/
theorem writeBelow_typed_next {content : TypedArray} (v : Value) (next : Token) (ts : List Token)
    (h : Reserved limit (.typed content) t grown) :
    ∃ e, writeBelow limit v (.typed content) t (next :: ts) =
      ⟨grown, some (.mismatch e next)⟩ := by
  cases h with
  | @typed _ offset hg =>
      -- the element is there after growing, and it is a scalar
      obtain ⟨e, he⟩ := (Reserved.typed hg).exists_child?
      obtain ⟨hm, hs⟩ := scalar_of_child?_typed he
      refine ⟨e, ?_⟩
      rw [writeBelow_next (.typed hg), slotOrFresh_of_child? he hm,
        writeBelow_of_not_takes (hs next).2]
      rfl

/-- A write changes what is in the container, but not what sort of container it is. -/
theorem blank_writeBelow (limit : Option Int) (v container : Value) (t : Token)
    (ts : List Token) : (writeBelow limit v container t ts).tree.blank = container.blank := by
  rcases reserve_spec limit container t with ⟨grown, _, hr⟩ | ⟨fault, hf, _⟩
  · cases ts with
    | nil => rw [writeBelow_last hr, blank_assign, hr.blank_eq]
    | cons next ts => rw [writeBelow_next hr, blank_put, hr.blank_eq]
  · rw [writeBelow_refused hf]

theorem isLongRange_writeBelow (limit : Option Int) (v container : Value) (t : Token)
    (ts : List Token) :
    (writeBelow limit v container t ts).tree.isLongRange = container.isLongRange := by
  rw [← isLongRange_blank, blank_writeBelow, isLongRange_blank]

theorem padding_writeBelow (limit : Option Int) (v container : Value) (t : Token)
    (ts : List Token) : (writeBelow limit v container t ts).tree.padding = container.padding := by
  rw [← padding_blank, blank_writeBelow, padding_blank]

theorem isArray_writeBelow (limit : Option Int) (v container : Value) (t : Token)
    (ts : List Token) : (writeBelow limit v container t ts).tree.isArray = container.isArray := by
  rw [← isArray_blank, blank_writeBelow, isArray_blank]

/-- After a write, what it has made of the slot stands there. -/
theorem step_writeBelow (v : Value) (ts : List Token) (h : Reserved limit container t grown)
    (hu : container.isTyped = false) :
    (writeBelow limit v container t ts).tree.step t =
      .ok (writeSlot limit v container t ts).tree := by
  rw [step_eq_ok_iff, isLongRange_writeBelow, writeBelow_untyped h hu]
  exact ⟨h.isLongRange_eq_false, child?_put_self h hu _⟩

/-! ### Writes that succeed -/

/-- A write that succeeds in a typed array stores an element. -/
theorem exists_stored_of_writeBelow {content : TypedArray} {c' : Value}
    (h : writeBelow limit v (.typed content) t ts = ⟨c', none⟩) :
    ∃ i stored, t = .index i ∧ ts = [] ∧ c' = .typed stored ∧
      MayGrow limit content.size (i + 1) ∧
      TypedArray.Stored i v (content.pad (i + 1 - content.size)) stored := by
  obtain ⟨grown, hr⟩ := exists_reserved_of_writeBelow h
  cases ts with
  | nil =>
      rw [writeBelow_last hr] at h
      cases hr with
      | @typed _ i hg =>
          -- at the last token the array stores the value or refuses it
          rcases assign_typed v (content.pad (i + 1 - content.size)) i with
            ⟨stored, hs, ha⟩ | ⟨fault, _, ha⟩
          · rw [ha] at h
            cases h
            exact ⟨i, stored, rfl, rfl, rfl, hg, hs⟩
          · rw [ha] at h
            cases h
  | cons next ts =>
      -- any further token meets an element, which takes none
      obtain ⟨fault, hf⟩ := writeBelow_typed_next v next ts hr
      rw [hf] at h
      cases h

/-- A write that succeeds leaves a container of the same sort. -/
theorem blank_eq_of_writeBelow {c' : Value} (h : writeBelow limit v container t ts = ⟨c', none⟩) :
    c'.blank = container.blank := by
  have := blank_writeBelow limit v container t ts
  rwa [h] at this

/-- What a write goes on into and succeeds is not `missing` afterwards. -/
theorem isMissing_eq_false_of_writeBelow {c' : Value}
    (h : writeBelow limit v container t ts = ⟨c', none⟩) : c'.isMissing = false := by
  obtain ⟨grown, hr⟩ := exists_reserved_of_writeBelow h
  -- there was room in the container, so it is none that is `missing`, and it keeps its sort
  rw [← isMissing_blank, blank_eq_of_writeBelow h, isMissing_blank]
  exact hr.isMissing_eq_false

/-! ### Before the first level -/

/-- The faults of a write that are found before anything is changed. -/
inductive EarlyFault (tree v : Value) : WriteFault → Prop
  | atRoot : EarlyFault tree v (.atRoot tree)
  | rootNotWritable (t : Token) : EarlyFault tree v (.rootNotWritable tree t)
  | tooDeep (limit : Int) : EarlyFault tree v (.tooDeep limit)
  | unconvertible : EarlyFault tree v (.unconvertible v)

theorem coerce_eq_ok_iff {c : Value} {p : Pointer} :
    v.coerce p = .ok c ↔ coerce? p.kind v = some c := by
  unfold coerce
  cases coerce? p.kind v <;> simp

/-- The ways to convert a value: `missing` to the null value, a value of the kind to itself, and any
other one by the conversion to the kind. -/
theorem coerce?_cases {kind : Kind} {c : Value} (h : coerce? kind v = some c) :
    (v = .missing ∧ c = kind.nullValue) ∨ (v.hasKind kind = true ∧ c = v) ∨
    (¬ v.hasKind kind = true ∧ ∃ f, kind.adapter? = some f ∧ f v = some c) := by
  unfold coerce? at h
  split at h
  · next hmissing =>
    cases h
    exact .inl ⟨isMissing_iff.mp hmissing, rfl⟩
  · split at h
    · next hkind =>
      cases h
      exact .inr (.inl ⟨hkind, rfl⟩)
    · next hkind =>
      exact .inr (.inr ⟨hkind, Option.bind_eq_some_iff.mp h⟩)

/-- A write passes all checks that are made beforehand, and goes down the tokens `t :: ts` with the
value `converted`. -/
structure Admitted (tree : Value) (p : Pointer) (v : Value) (policy : Policy) (t : Token)
    (ts : List Token) (converted : Value) : Prop where
  tokens : p.tokens = t :: ts
  writable : tree.isWritable = true
  depth : depthAllowed policy p.depth = none
  coerced : coerce? p.kind v = some converted

/-- A write to a place below a root that can be written to. -/
theorem attempt_of_isWritable {tree v : Value} {p : Pointer} (hp : p.tokens = t :: ts)
    (hw : tree.isWritable = true) (policy : Policy) :
    tree.attempt p v policy =
      match depthAllowed policy p.depth, coerce? p.kind v with
      | some fault, _ => ⟨tree, some fault⟩
      | none, none => ⟨tree, some (.unconvertible v)⟩
      | none, some converted => writeBelow policy.maxLength converted tree t ts := by
  unfold attempt
  rw [hp]
  simp only [hw]
  -- the limit on the depth comes before the conversion
  cases depthAllowed policy p.depth with
  | some fault => rfl
  | none => cases coerce? p.kind v <;> rfl

theorem attempt_of_admitted {tree v converted : Value} {p : Pointer} {policy : Policy}
    (h : Admitted tree p v policy t ts converted) :
    tree.attempt p v policy = writeBelow policy.maxLength converted tree t ts := by
  rw [attempt_of_isWritable h.tokens h.writable, h.depth, h.coerced]

/-- The checks beforehand ask only what sort of container the tree is. -/
theorem Admitted.of_blank_eq {tree other v converted : Value} {p : Pointer} {policy : Policy}
    (h : Admitted tree p v policy t ts converted) (hb : other.blank = tree.blank) :
    Admitted other p v policy t ts converted := by
  -- the other checks do not look at the tree
  have hw : other.isWritable = true := by
    rw [← isWritable_blank, hb, isWritable_blank]
    exact h.writable
  exact { h with writable := hw }

/-- A write is refused beforehand and changes nothing, or goes down the tree. -/
theorem attempt_spec (tree : Value) (p : Pointer) (v : Value) (policy : Policy) :
    (∃ fault, tree.attempt p v policy = ⟨tree, some fault⟩ ∧ EarlyFault tree v fault) ∨
    (∃ t ts converted, Admitted tree p v policy t ts converted) := by
  unfold attempt
  split
  · exact .inl ⟨_, rfl, .atRoot⟩
  · next t ts htokens =>
    split
    · exact .inl ⟨_, rfl, .rootNotWritable t⟩
    · next hw =>
      split
      · next fault hd =>
        refine .inl ⟨_, rfl, ?_⟩
        unfold depthAllowed at hd
        obtain ⟨limit, _, hd⟩ := Option.bind_eq_some_iff.mp hd
        split at hd <;> cases hd
        exact .tooDeep limit
      · next hd =>
        split
        · exact .inl ⟨_, rfl, .unconvertible⟩
        · next converted hc => exact .inr ⟨t, ts, converted, htokens, by simpa using hw, hd, hc⟩

theorem write_tree (tree : Value) (p : Pointer) (v : Value) (policy : Policy) :
    (tree.write p v policy).1 = (tree.attempt p v policy).tree := rfl

theorem write_succeeds_iff {tree v tree' : Value} {p : Pointer} {policy : Policy} :
    tree.write p v policy = (tree', none) ↔ tree.attempt p v policy = ⟨tree', none⟩ := by
  unfold write
  cases tree.attempt p v policy with
  | mk after fault? => cases fault? <;> simp

theorem write_of_admitted {tree v converted tree' : Value} {p : Pointer} {policy : Policy}
    (ha : Admitted tree p v policy t ts converted)
    (h : writeBelow policy.maxLength converted tree t ts = ⟨tree', none⟩) :
    tree.write p v policy = (tree', none) := by
  rw [write_succeeds_iff, attempt_of_admitted ha, h]

/-- A write that succeeds went down the tree. -/
theorem exists_admitted_of_write {tree v tree' : Value} {p : Pointer} {policy : Policy}
    (h : tree.write p v policy = (tree', none)) :
    ∃ t ts converted, Admitted tree p v policy t ts converted ∧
      writeBelow policy.maxLength converted tree t ts = ⟨tree', none⟩ := by
  rw [write_succeeds_iff] at h
  rcases attempt_spec tree p v policy with ⟨fault, hf, _⟩ | ⟨t, ts, converted, ha⟩
  · rw [hf] at h
    cases h
  · exact ⟨t, ts, converted, ha, (attempt_of_admitted ha).symm.trans h⟩

end Value

end JsonPointer
