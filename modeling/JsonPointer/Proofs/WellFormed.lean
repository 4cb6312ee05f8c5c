import JsonPointer.Proofs.Conversion
import JsonPointer.Proofs.Sessions

/-!
# Well-formed trees

The type of values allows two things that no tree has: an object with one key twice, and a typed
array with an integer that is out of its range. Here is shown that writes lead to neither. Every
operation of a write, on one container, gives a well-formed value for a well-formed one, whether it
is the last one before a failure or not: making room (`WellFormed.reserved`), going on into a slot
(`WellFormed.slotOrFresh`), putting (`WellFormed.put`) and storing (`WellFormed.assign`). So does
the conversion of what is to be written (`WellFormed.coerce?`). From there it goes up to a whole
write by induction along the tokens, and to a session by induction along its steps.

When two keys that are no texts are the same key does not matter, as no pointer reaches them. It is
a parameter, a `KeyTest`.
-/

namespace JsonPointer

/-! ### What is well-formed -/

/-- A way to tell keys apart. A text is another key than everything that is not that text. -/
structure KeyTest where
  /-- Are these two keys, and not one? -/
  Differ : Value → Value → Prop
  differ_text : ∀ {key : Value} {name : String}, key.isText name = false → Differ key (.text name)

/-- Two values are one key if they are equal, or stand for the same number. -/
def KeyTest.byNumber : KeyTest where
  Differ a b := a ≠ b ∧ ¬ ∃ n, a.number? = some n ∧ b.number? = some n
  differ_text := by
    intro key name h
    constructor
    · rintro rfl
      simp at h
    · rintro ⟨n, _, hn⟩
      cases hn

/-- Can the integers be elements of their type? Floating-point numbers and characters always can. -/
def TypedArray.IsLegal : TypedArray → Prop
  | .ints format items => ∀ n ∈ items, format.Holds n
  | .floats _ _ => True
  | .chars _ => True

namespace Value

/-- Does the value hold no other values? The elements of a range are not kept, but computed. -/
def isAtom : Value → Bool
  | .set _ _ => false
  | .array _ _ => false
  | .typed _ => false
  | .object _ _ => false
  | _ => true

/-- In every object of the value the keys are different from each other, and every typed array of it
holds elements of its type. -/
inductive WellFormed (keys : KeyTest) : Value → Prop
  | atom {v : Value} : v.isAtom = true → WellFormed keys v
  | set {frozen : Bool} {items : List Value} : (∀ x ∈ items, WellFormed keys x) →
      WellFormed keys (.set frozen items)
  | array {flavour : ArrayFlavour} {items : List Value} : (∀ x ∈ items, WellFormed keys x) →
      WellFormed keys (.array flavour items)
  | typed {content : TypedArray} : content.IsLegal → WellFormed keys (.typed content)
  | object {flavour : ObjectFlavour} {members : Members} :
      (members.map Prod.fst).Pairwise keys.Differ → (∀ m ∈ members, WellFormed keys m.1) →
      (∀ m ∈ members, WellFormed keys m.2) → WellFormed keys (.object flavour members)

end Value

variable {keys : KeyTest}

/-! ### Members -/

namespace Members

variable {name : String} {v : Value} {members : Members} {member : Value × Value}

theorem isText_eq_false_of_find? (h : members.find? name = none) (hm : member ∈ members) :
    member.1.isText name = false := by
  simp only [find?, Option.map_eq_none_iff, List.find?_eq_none] at h
  simpa using h member hm

/-- What is put is the only new member, and it has the text as its key. -/
theorem mem_put (h : member ∈ put name v members) :
    member ∈ members ∨ member = (.text name, v) := by
  induction members with
  | nil => exact .inr (List.mem_singleton.mp h)
  | cons first rest ih =>
      rw [put] at h
      split at h
      · next htext =>
        rcases List.mem_cons.mp h with rfl | hrest
        · rw [Value.eq_text_of_isText htext]
          exact .inr rfl
        · exact .inl (List.mem_cons_of_mem first hrest)
      · rcases List.mem_cons.mp h with rfl | hrest
        · exact .inl List.mem_cons_self
        · exact (ih hrest).imp_left (List.mem_cons_of_mem first)

/-- A key that is new is different from all that are there. -/
theorem pairwise_put (h : (members.map Prod.fst).Pairwise keys.Differ) (name : String)
    (v : Value) : ((put name v members).map Prod.fst).Pairwise keys.Differ := by
  cases hfind : members.find? name with
  | some x => rwa [map_fst_put_of_some hfind]
  | none =>
      rw [put_of_none hfind, List.map_append, List.pairwise_append]
      refine ⟨h, List.pairwise_singleton _ _, ?_⟩
      -- the new key stands last, and it is a text that no other key is
      intro key hkey other hother
      obtain ⟨member, hm, rfl⟩ := List.mem_map.mp hkey
      obtain rfl := List.mem_singleton.mp hother
      exact keys.differ_text (isText_eq_false_of_find? hfind hm)

end Members

/-! ### Typed arrays -/

namespace TypedArray

variable {content stored : TypedArray} {offset : Nat} {v : Value}

theorem holds_zero (format : IntFormat) : format.Holds 0 := holds_bit format false

/-- Padding adds zeros, which every type holds. -/
theorem IsLegal.pad (h : content.IsLegal) (n : Nat) : (content.pad n).IsLegal := by
  cases content with
  | ints format items =>
      intro k hk
      rcases List.mem_append.mp hk with hk | hk
      · exact h k hk
      · rw [List.eq_of_mem_replicate hk]
        exact holds_zero format
  | _ => trivial

/-- An integer is stored only if it is in range. -/
theorem IsLegal.store (h : content.IsLegal) (hs : Stored offset v content stored) :
    stored.IsLegal := by
  cases hs with
  | int hn =>
      intro k hk
      rcases List.mem_or_eq_of_mem_set hk with hk | rfl
      · exact h k hk
      · exact (number?_of_elementInt hn).1
  | _ => trivial

/-- The elements of a typed array hold nothing. -/
theorem isAtom_of_mem_values {e : Value} (h : e ∈ content.values) : e.isAtom = true := by
  cases content <;>
    · obtain ⟨_, _, rfl⟩ := List.mem_map.mp h
      rfl

end TypedArray

namespace Value

variable {limit : Option Int} {v c container grown x : Value} {t : Token} {kind : Kind}
  {flavour : ArrayFlavour} {items : List Value} {members : Members} {content : TypedArray}

/-! ### The parts of a well-formed value -/

theorem wellFormed_array_iff :
    WellFormed keys (.array flavour items) ↔ ∀ x ∈ items, x.WellFormed keys := by
  refine ⟨?_, .array⟩
  rintro (hatom | hitems)
  · cases hatom
  · assumption

theorem wellFormed_typed_iff : WellFormed keys (.typed content) ↔ content.IsLegal := by
  refine ⟨?_, .typed⟩
  rintro (hatom | hlegal)
  · cases hatom
  · assumption

theorem wellFormed_object_iff {flavour : ObjectFlavour} :
    WellFormed keys (.object flavour members) ↔
      (members.map Prod.fst).Pairwise keys.Differ ∧ (∀ m ∈ members, m.1.WellFormed keys) ∧
        ∀ m ∈ members, m.2.WellFormed keys := by
  refine ⟨?_, fun h => .object h.1 h.2.1 h.2.2⟩
  intro h
  cases h with
  | atom hatom => cases hatom
  | object hkeys hnames hvalues => exact ⟨hkeys, hnames, hvalues⟩

theorem wellFormed_of_mem_set {frozen : Bool} (h : WellFormed keys (.set frozen items))
    (hx : x ∈ items) : x.WellFormed keys := by
  cases h with
  | atom hatom => cases hatom
  | set hitems => exact hitems x hx

/-- The elements of an array are well-formed, also those that are computed. -/
theorem WellFormed.of_mem_items? (hv : v.WellFormed keys) (h : v.items? = some items)
    (hx : x ∈ items) : x.WellFormed keys := by
  cases v with
  | array flavour xs =>
      obtain rfl : xs = items := Option.some.inj h
      exact wellFormed_array_iff.mp hv x hx
  | typed content =>
      obtain rfl : content.values = items := Option.some.inj h
      exact .atom (TypedArray.isAtom_of_mem_values hx)
  | range start stop step =>
      obtain rfl := Option.some.inj h
      obtain ⟨_, _, rfl⟩ := List.mem_map.mp hx
      exact .atom rfl
  | _ => cases h

theorem WellFormed.of_find? {flavour : ObjectFlavour} {name : String}
    (h : WellFormed keys (.object flavour members)) (hx : members.find? name = some x) :
    x.WellFormed keys := by
  obtain ⟨member, hmember, rfl⟩ := Option.map_eq_some_iff.mp hx
  exact (wellFormed_object_iff.mp h).2.2 member (List.mem_of_find?_eq_some hmember)

/-- What a token leads to in a well-formed container is well-formed, whether it is kept or computed.
-/
theorem WellFormed.of_child? (h : container.WellFormed keys) (hx : container.child? t = some x) :
    x.WellFormed keys := by
  cases t with
  | key name =>
      cases container with
      | object flavour members => exact h.of_find? hx
      | _ => cases hx
  | index i =>
      obtain ⟨items, hitems, hi⟩ := exists_items?_of_item? hx
      exact h.of_mem_items? hitems (List.mem_of_getElem? hi)

/-! ### One container -/

/-- Making room for a value adds nothing but placeholders and zeros. -/
theorem WellFormed.reserved (h : container.WellFormed keys)
    (hr : Reserved limit container t grown) : grown.WellFormed keys := by
  cases hr with
  | member _ => exact h
  | element _ _ =>
      rw [wellFormed_array_iff] at h ⊢
      intro x hx
      rcases List.mem_append.mp hx with hx | hx
      · exact h x hx
      · rw [List.eq_of_mem_replicate hx]
        exact .atom rfl
  | typed _ =>
      rw [wellFormed_typed_iff] at h ⊢
      exact h.pad _

theorem wellFormed_fresh (container : Value) (next : Token) :
    (container.fresh next).WellFormed keys := by
  have hlist : WellFormed keys (.array .list []) := .array (by simp)
  have hobject (flavour : ObjectFlavour) : WellFormed keys (.object flavour []) :=
    .object .nil (by simp) (by simp)
  cases next with
  | index i => exact hlist
  | key name => cases container <;> exact hobject _

theorem WellFormed.slotOrFresh (h : container.WellFormed keys) (t next : Token) :
    (container.slotOrFresh t next).WellFormed keys := by
  rcases slotOrFresh_cases container t next with ⟨x, hx, _, heq⟩ | ⟨_, heq⟩
  · rw [heq]
    exact h.of_child? hx
  · rw [heq]
    exact wellFormed_fresh container next

/-- A member that is put is new or replaces one, and no key comes twice. -/
theorem WellFormed.putMember {flavour : ObjectFlavour}
    (h : WellFormed keys (.object flavour members)) (hv : v.WellFormed keys) (name : String) :
    WellFormed keys (.object flavour (Members.put name v members)) := by
  obtain ⟨hkeys, hnames, hvalues⟩ := wellFormed_object_iff.mp h
  refine .object (Members.pairwise_put hkeys name v) ?_ ?_
  · intro m hm
    rcases Members.mem_put hm with hm | rfl
    · exact hnames m hm
    · exact .atom rfl
  · intro m hm
    rcases Members.mem_put hm with hm | rfl
    · exact hvalues m hm
    · exact hv

/-- Putting a well-formed value into a well-formed container makes no other. -/
theorem WellFormed.put (h : container.WellFormed keys) (hv : v.WellFormed keys) (t : Token) :
    (put v container t).WellFormed keys := by
  cases container with
  | object flavour members =>
      cases t with
      | key name => exact h.putMember hv name
      | index i => exact h
  | array flavour items =>
      cases t with
      | key name => exact h
      | index i =>
          rw [Value.put, wellFormed_array_iff]
          intro x hx
          rcases List.mem_or_eq_of_mem_set hx with hx | rfl
          · exact wellFormed_array_iff.mp h x hx
          · exact hv
  | _ => cases t <;> exact h

/-- Storing leaves a well-formed container also where it fails. -/
theorem WellFormed.assign (h : container.WellFormed keys) (hv : v.WellFormed keys) (t : Token) :
    (assign v container t).tree.WellFormed keys := by
  rcases untyped_or_typed container with hu | ⟨content, rfl⟩
  · rw [assign_of_isTyped_eq_false hu]
    exact h.put hv t
  · cases t with
    | key name => exact h
    | index offset =>
        rcases assign_typed v content offset with ⟨stored, hs, ha⟩ | ⟨fault, _, ha⟩
        · rw [ha]
          exact .typed ((wellFormed_typed_iff.mp h).store hs)
        · rw [ha]
          exact h

/-! ### Conversions -/

theorem wellFormed_nullValue (kind : Kind) : kind.nullValue.WellFormed keys := by
  cases kind with
  | object => exact .object .nil (by simp) (by simp)
  | array => exact .array (by simp)
  | _ => exact .atom rfl

/-- Members are put one by one, so no key comes twice. -/
theorem wellFormed_of_textMembers? {acc rest : Members}
    (hacc : WellFormed keys (.object .plain acc)) (hrest : ∀ m ∈ rest, m.2.WellFormed keys)
    (h : textMembers? acc rest = some members) : WellFormed keys (.object .plain members) := by
  -- the members that are done are the invariant, so they are not fixed
  induction rest generalizing acc with
  | nil =>
      obtain rfl : acc = members := Option.some.inj h
      exact hacc
  | cons member rest ih =>
      rw [List.forall_mem_cons] at hrest
      rw [textMembers?] at h
      split at h
      · exact ih (hacc.putMember hrest.1 _) hrest.2 h
      · cases h

theorem wellFormed_of_hasKind_number (h : c.hasKind .number = true) : c.WellFormed keys := by
  cases c with
  | int n => exact .atom rfl
  | float x => exact .atom rfl
  | fraction q => exact .atom rfl
  | _ => cases h

/-- An object is made anew from its members, so its keys differ again. -/
theorem WellFormed.asObject? (hv : v.WellFormed keys) (h : v.asObject? = some c) :
    c.WellFormed keys := by
  cases v with
  | object flavour members =>
      obtain ⟨texts, htexts, rfl⟩ := Option.map_eq_some_iff.mp h
      have hvalues := (wellFormed_object_iff.mp hv).2.2
      exact wellFormed_of_textMembers? (.object .nil (by simp) (by simp)) hvalues htexts
  | _ => cases h

theorem WellFormed.asList? (hv : v.WellFormed keys) (h : v.asList? = some c) :
    c.WellFormed keys := by
  unfold Value.asList? at h
  split at h
  · cases h
    exact .array fun x hx => wellFormed_of_mem_set hv hx
  · obtain ⟨items, hitems, rfl⟩ := Option.map_eq_some_iff.mp h
    exact .array fun x hx => hv.of_mem_items? hitems hx

/-- A conversion to a kind gives a well-formed value. -/
theorem WellFormed.adapter? {f : Value → Option Value} (hf : kind.adapter? = some f)
    (hv : v.WellFormed keys) (h : f v = some c) : c.WellFormed keys := by
  cases kind with
  | any => cases hf
  | number =>
      cases hf
      exact wellFormed_of_hasKind_number (hasKind_of_asNumber? h)
  | object =>
      cases hf
      exact hv.asObject? h
  | array =>
      cases hf
      exact hv.asList? h
  | _ =>
      -- the other conversions give back what they take
      cases hf
      cases v <;> cases h
      exact hv

theorem WellFormed.coerce? (hv : v.WellFormed keys) (h : coerce? kind v = some c) :
    c.WellFormed keys := by
  rcases coerce?_cases h with ⟨_, rfl⟩ | ⟨_, rfl⟩ | ⟨_, f, hf, hc⟩
  · exact wellFormed_nullValue kind
  · exact hv
  · exact hv.adapter? hf hc

/-! ### The way down -/

/-- However it ends, a write leaves the container well-formed. -/
theorem WellFormed.writeBelow (h : container.WellFormed keys) (hv : v.WellFormed keys) (t : Token)
    (ts : List Token) : (writeBelow limit v container t ts).tree.WellFormed keys := by
  -- along the tokens: the container is another one at each of them
  induction ts generalizing container t with
  | nil =>
      rcases reserve_spec limit container t with ⟨grown, _, hr⟩ | ⟨fault, hf, _⟩
      · rw [writeBelow_last hr]
        exact (h.reserved hr).assign hv t
      · rw [writeBelow_refused hf]
        exact h
  | cons next ts ih =>
      rcases reserve_spec limit container t with ⟨grown, _, hr⟩ | ⟨fault, hf, _⟩
      · have hgrown := h.reserved hr
        rw [writeBelow_next hr]
        -- what the rest of the way leaves is put back, also where it has failed
        exact hgrown.put (ih (hgrown.slotOrFresh t next) next) t
      · rw [writeBelow_refused hf]
        exact h

/-- Whether it succeeds or not, a write leaves a well-formed tree. -/
theorem WellFormed.write {tree : Value} (h : tree.WellFormed keys) (hv : v.WellFormed keys)
    (p : Pointer) (policy : Policy) : (tree.write p v policy).1.WellFormed keys := by
  rw [write_tree]
  rcases attempt_spec tree p v policy with ⟨fault, hf, _⟩ | ⟨t, ts, converted, hadmitted⟩
  · rw [hf]
    exact h
  · rw [attempt_of_admitted hadmitted]
    exact h.writeBelow (hv.coerce? hadmitted.coerced) t ts

end Value

/-! ### Sessions -/

variable {tree : Value} {s : Step} {steps : List Step}

/-- Only the steps that write can change the tree. -/
theorem Value.WellFormed.run (h : tree.WellFormed keys)
    (hv : ∀ v policy, s.operation = .write v policy → v.WellFormed keys) :
    (s.run tree).2.WellFormed keys := by
  cases hp : s.target.resolve with
  | error e =>
      rw [Step.run, hp]
      exact h
  | ok p =>
      rw [Step.run_of_resolve hp]
      cases hop : s.operation with
      | write v policy =>
          rw [Operation.run_write]
          exact h.write (hv v policy hop) p policy
      | _ => exact h

/-- **Well-formed trees stay well-formed.** In a session on a well-formed tree, in which only
well-formed values are written, every step leaves a well-formed tree, whether it succeeds or not. -/
theorem wellFormed_session (h : tree.WellFormed keys)
    (hv : ∀ s ∈ steps, ∀ v policy, s.operation = .write v policy → v.WellFormed keys) :
    ∀ outcome ∈ session tree steps, outcome.2.WellFormed keys := by
  induction steps generalizing tree with
  | nil =>
      intro outcome houtcome
      cases houtcome
  | cons s steps ih =>
      rw [List.forall_mem_cons] at hv
      -- the next step runs on the tree that this one leaves, also after a failure
      have hs := h.run hv.1
      rw [session, List.forall_mem_cons]
      exact ⟨hs, ih hs hv.2⟩

/-- After an element was stored in an array of bytes, one that is out of range is not, and leaves
the array padded. -/
theorem wellFormed_session_of_failure :
    let bytes (items : List Int) := Value.typed (.ints ⟨.byte, true⟩ items)
    let tree := Value.object .plain [(.int 1, .null), (.text "a", bytes [])]
    let p : Pointer := { tokens := [.key "a", .index 1] }
    let q : Pointer := { tokens := [.key "a", .index 3] }
    let steps : List Step :=
      [⟨.pointer p, .write (.int (-128)) {}⟩, ⟨.pointer q, .write (.int 300) {}⟩]
    let after := Value.object .plain [(.int 1, .null), (.text "a", bytes [0, -128, 0, 0])]
    tree.WellFormed .byNumber ∧ (∃ e, (session tree steps)[1]? = some (.error e, after)) ∧
    after.WellFormed .byNumber := by
  intro bytes tree p q steps after
  have hbytes : (bytes []).WellFormed .byNumber := .typed (by simp [TypedArray.IsLegal])
  have htree : tree.WellFormed .byNumber := by
    refine .object ?_ ?_ ?_
    · simp [KeyTest.byNumber, Value.number?]
    · simp only [List.forall_mem_cons]
      exact ⟨.atom rfl, .atom rfl, by simp⟩
    · simp only [List.forall_mem_cons]
      exact ⟨.atom rfl, hbytes, by simp⟩
  have hfails : ∃ e, (session tree steps)[1]? = some (.error e, after) := ⟨_, rfl⟩
  refine ⟨htree, hfails, ?_⟩
  obtain ⟨e, he⟩ := hfails
  refine wellFormed_session htree ?_ _ (List.mem_of_getElem? he)
  simp only [steps, List.forall_mem_cons]
  refine ⟨?_, ?_, by simp⟩
  · rintro v policy ⟨⟩
    exact .atom rfl
  · rintro v policy ⟨⟩
    exact .atom rfl

end JsonPointer
