import JsonPointer.Proofs.Frame
import JsonPointer.Proofs.Similar
import JsonPointer.Proofs.Telling

/-!
# Independent writes commute

Two writes are independent if their pointers are apart. Neither needs the other, but they meet in
the containers that both go through: the first to come makes what is missing, chooses its sort and
pads its arrays. `writeBelow_comm` is that this does not matter: two writes that succeed one after
the other succeed in the other order as well, and the trees are similar. It is an induction along
the tokens that the two have in common. At the level where they part they reach two children of one
container, and `Reserved.comm` changes their order there.

Any permutation of a run is made of such changes (`build_perm`), each followed by the rest of the
run on a tree that is only similar, which is why writes have to respect similarity.
-/

namespace JsonPointer

/-! ### Padded lists -/

/-- Set an element of a list, which is first padded with `z` until it has the position. -/
def padSet {α : Type} (z : α) (items : List α) (i : Nat) (a : α) : List α :=
  (items ++ List.replicate (i + 1 - items.length) z).set i a

section PadSet

variable {α : Type} (z : α) (items : List α) {i j : Nat} (a b : α)

theorem length_padSet : (padSet z items i a).length = max items.length (i + 1) := by
  rw [padSet, List.length_set, List.length_append, List.length_replicate]
  omega

/-- Between the old end and the new element there is padding. -/
theorem getElem?_padSet (k : Nat) :
    (padSet z items i a)[k]? =
      if i = k then some a else if k < items.length then items[k]? else
        if k < i then some z else none := by
  rw [padSet, List.getElem?_set, List.getElem?_append, List.getElem?_replicate]
  rw [List.length_append, List.length_replicate]
  grind

/-- Elements at two positions can be set in either order, as the padding for one never covers the
other. -/
theorem padSet_comm (h : i ≠ j) :
    padSet z (padSet z items i a) j b = padSet z (padSet z items j b) i a := by
  apply List.ext_getElem?
  intro k
  simp only [getElem?_padSet, length_padSet]
  grind

end PadSet

/-- An array that may grow to one position and then to another may do so in the other order. -/
theorem MayGrow.comm {limit : Option Int} {m i j : Nat} (hi : MayGrow limit m i)
    (hj : MayGrow limit (max m i) j) (hil : i < lengthLimit) (hjl : j < lengthLimit) :
    MayGrow limit m j ∧ MayGrow limit (max m j) i := by
  constructor
  · intro hlt
    refine ⟨fun l hl => ?_, by omega⟩
    -- the nearer position is within the bound of the farther one
    by_cases hji : j ≤ i
    · have := (hi (by omega)).1 l hl
      omega
    · exact (hj (by omega)).1 l hl
  · intro hlt
    exact ⟨(hi (by omega)).1, by omega⟩

/-! ### Two members -/

namespace Members

variable {a b : String} {members : Members}

/-- A member that is there keeps its place, whatever is put before. -/
theorem put_comm_of_some {x : Value} (h : a ≠ b) (ha : members.find? a = some x) (v w : Value) :
    Members.put b w (Members.put a v members) = Members.put a v (Members.put b w members) := by
  induction members with
  | nil => cases ha
  | cons member rest ih =>
      rw [find?_cons] at ha
      by_cases hma : member.1.isText a = true
      · have hmb : ¬ member.1.isText b = true := fun hmb => h (Value.eq_of_isText hma hmb)
        rw [put, if_pos hma, put, if_neg hmb, put, if_neg hmb, put, if_pos hma]
      · rw [if_neg hma] at ha
        by_cases hmb : member.1.isText b = true
        · rw [put, if_neg hma, put, if_pos hmb, put, if_pos hmb, put, if_neg hma]
        · rw [put, if_neg hma, put, if_neg hmb, ih ha]
          rw [put, if_neg hmb, put, if_neg hma]

/-- Only where both members are new do they stand in the order in which they were put. -/
theorem similar_put_put (h : a ≠ b) (flavour : ObjectFlavour) (members : Members) (v w : Value) :
    Value.Similar (.object flavour (Members.put b w (Members.put a v members)))
      (.object flavour (Members.put a v (Members.put b w members))) := by
  cases ha : members.find? a with
  | some x =>
      rw [put_comm_of_some h ha]
      exact .refl _
  | none =>
      cases hb : members.find? b with
      | some x =>
          rw [put_comm_of_some h.symm hb]
          exact .refl _
      | none =>
          have hne : Value.text a ≠ Value.text b := fun hab => h (Value.text.inj hab)
          rw [put_of_none ha, put_of_none hb, put_append_of_none hb, put_append_of_none ha]
          simp only [put, Value.isText_text, h, h.symm]
          exact .swap hne

end Members

/-! ### Two elements of a typed array -/

namespace TypedArray

variable {content content' stored₁ stored₂ : TypedArray} {i j : Nat} {v w e : Value}

/-- What a typed array keeps of a value depends on the type of its elements alone. -/
theorem Keeps.of_blank_eq (h : content.Keeps v e) (hb : content.blank = content'.blank) :
    content'.Keeps v e := by
  cases h with
  | int he => cases content' <;> cases hb; exact .int he
  | float he => cases content' <;> cases hb; exact .float he
  | char he => cases content' <;> cases hb; exact .char he

/-- Storing is setting an element to what is kept of the value. -/
theorem Keeps.exists_stored (h : content.Keeps v e) (offset : Nat) :
    ∃ stored, Stored offset v content stored ∧ stored.values = content.values.set offset e := by
  cases h with
  | int he => exact ⟨_, .int he, by simp only [values, List.map_set]⟩
  | float he => exact ⟨_, .float he, by simp only [values, List.map_set]⟩
  | char he => exact ⟨_, .char he, by simp only [values, List.map_set]⟩

theorem eq_of_values_eq (hb : content.blank = content'.blank)
    (hv : content.values = content'.values) : content = content' := by
  cases content with
  | ints f items =>
      cases content' <;> cases hb
      exact congrArg _ ((List.map_inj_right fun _ _ h => Value.int.inj h).mp hv)
  | floats single items =>
      cases content' <;> cases hb
      exact congrArg _ ((List.map_inj_right fun _ _ h => Value.float.inj h).mp hv)
  | chars items =>
      cases content' <;> cases hb
      refine congrArg _ ((List.map_inj_right fun a b h => ?_).mp hv)
      simpa using congrArg String.toList (Value.text.inj h)

theorem values_pad_set (content : TypedArray) (offset : Nat) (e : Value) :
    (content.pad (offset + 1 - content.size)).values.set offset e =
      padSet content.padding content.values offset e := by
  rw [values_pad, padSet, length_values]

theorem Stored.size_eq_max
    (h : Stored i v (content.pad (i + 1 - content.size)) stored₁) :
    stored₁.size = max content.size (i + 1) := by
  rw [h.size_eq, size_pad]
  omega

/-- Elements at two positions of a typed array can be stored in either order. -/
theorem Stored.comm (hne : i ≠ j)
    (h₁ : Stored i v (content.pad (i + 1 - content.size)) stored₁)
    (h₂ : Stored j w (stored₁.pad (j + 1 - stored₁.size)) stored₂) :
    ∃ stored, Stored j w (content.pad (j + 1 - content.size)) stored ∧
      Stored i v (stored.pad (i + 1 - stored.size)) stored₂ := by
  obtain ⟨a, ha, hv₁⟩ := h₁.values_eq
  obtain ⟨b, hb, hv₂⟩ := h₂.values_eq
  have hblank₁ : stored₁.blank = content.blank := by rw [h₁.blank_eq, blank_pad]
  have hblank₂ : stored₂.blank = content.blank := by rw [h₂.blank_eq, blank_pad, hblank₁]
  -- what is kept of the two values is kept in the other order too
  have hkeeps : (content.pad (j + 1 - content.size)).Keeps w b :=
    hb.of_blank_eq (by rw [blank_pad, blank_pad, hblank₁])
  obtain ⟨stored, hj, hvj⟩ := hkeeps.exists_stored j
  have hblank : stored.blank = content.blank := by rw [hj.blank_eq, blank_pad]
  have hkeeps' : (stored.pad (i + 1 - stored.size)).Keeps v a :=
    ha.of_blank_eq (by rw [blank_pad, blank_pad, hblank])
  obtain ⟨stored', hi, hvi⟩ := hkeeps'.exists_stored i
  have heq : stored' = stored₂ := by
    apply eq_of_values_eq
    · rw [hi.blank_eq, blank_pad, hblank, hblank₂]
    · have hpad₁ : stored₁.padding = content.padding := by
        rw [← padding_blank, hblank₁, padding_blank]
      have hpad : stored.padding = content.padding := by
        rw [← padding_blank, hblank, padding_blank]
      rw [hvi, values_pad_set, hvj, values_pad_set, hv₂, values_pad_set, hv₁, values_pad_set,
        hpad, hpad₁]
      exact (padSet_comm content.padding content.values a b hne).symm
  exact ⟨stored, hj, heq ▸ hi⟩

end TypedArray

namespace Value

variable {limit : Option Int} {v w c : Value} {t s next : Token} {ts us : List Token}

/-! ### The level where the ways part -/

/-- Two children of a container can be put in either order, each after room is made for it. -/
theorem Reserved.comm {g₁ g₂ m n : Value} (hne : t ≠ s) (hu : c.isTyped = false)
    (ht : ∀ i, t = .index i → i + 1 < lengthLimit) (hs : ∀ j, s = .index j → j + 1 < lengthLimit)
    (h₁ : Reserved limit c t g₁) (h₂ : Reserved limit (put m g₁ t) s g₂) :
    ∃ k₁ k₂, Reserved limit c s k₁ ∧ Reserved limit (put n k₁ s) t k₂ ∧
      Similar (put n g₂ s) (put m k₂ t) := by
  cases h₁ with
  | @member flavour members a hf =>
      cases h₂ with
      | @member _ _ b _ =>
          have hab : a ≠ b := fun hab => hne (congrArg Token.key hab)
          exact ⟨_, _, .member hf, .member hf, Members.similar_put_put hab flavour members m n⟩
  | @element flavour items i hf hi =>
      cases h₂ with
      | @element _ _ j _ hj =>
          have hij : i ≠ j := fun hij => hne (congrArg Token.index hij)
          have hlength (k : Nat) (x : Value) := length_padSet Value.missing items (i := k) x
          have hj : MayGrow limit (padSet .missing items i m).length (j + 1) := hj
          rw [hlength] at hj
          -- the array may grow to both positions, whichever comes first
          obtain ⟨hj', hi'⟩ := hi.comm hj (ht i rfl) (hs j rfl)
          rw [← hlength j n] at hi'
          refine ⟨_, _, .element hf hj', .element hf hi', ?_⟩
          show Similar (.array flavour (padSet .missing (padSet .missing items i m) j n))
            (.array flavour (padSet .missing (padSet .missing items j n) i m))
          rw [padSet_comm .missing items m n hij]
          exact .refl _
  | typed _ => cases hu

/-- A new container takes tokens of one sort only. -/
theorem fresh_eq_of_takes (h : (c.fresh t).takes s = true) : c.fresh s = c.fresh t := by
  cases t with
  | index i =>
      cases s with
      | index j => rfl
      | key b => cases h
  | key a =>
      cases s with
      | index j => cases c <;> cases h
      | key b => cases c <;> rfl

/-- What the next level of a write goes into depends on the sort of the next token only. -/
theorem slotOrFresh_eq_of_takes (h : (c.slotOrFresh t next).takes s = true) :
    c.slotOrFresh t s = c.slotOrFresh t next := by
  rcases slotOrFresh_cases c t next with ⟨x, hx, hm, heq⟩ | ⟨hm, heq⟩
  · have hx' : x.isMissing = false := by
      cases hxm : x.isMissing with
      | false => rfl
      | true => exact absurd (isMissing_iff.mp hxm) hm
    rw [heq, slotOrFresh_of_child? hx hx']
  · rw [heq] at h ⊢
    rcases slotOrFresh_cases c t s with ⟨x, hx, hx', _⟩ | ⟨_, heq'⟩
    · exact absurd (hm x hx) hx'
    · rw [heq', fresh_eq_of_takes h]

theorem slot_put_ne (h : t ≠ s) (x c : Value) : (put x c t).slot s = c.slot s := by
  rw [slot_eq, slot_eq, child?_put_ne h]

/-- What a write makes of one slot is not changed by a value that is put into another. -/
theorem writeSlot_put_ne {x g : Value} (hne : t ≠ s) (hr : Reserved limit c t g)
    (hu : c.isTyped = false) (us : List Token) :
    writeSlot limit v (put x g t) s us = writeSlot limit v c s us := by
  cases us with
  | nil => rfl
  | cons next us =>
      have hslot : (put x g t).slot s = c.slot s := by rw [slot_put_ne hne, hr.slot_eq hu]
      have hfresh : (put x g t).fresh next = c.fresh next := by
        rw [← fresh_blank, blank_put, hr.blank_eq, fresh_blank]
      simp only [writeSlot, slotOrFresh_eq, hslot, hfresh]

theorem writeBelow_typed_of_stored {content stored : TypedArray} {i : Nat}
    (hg : MayGrow limit content.size (i + 1))
    (hs : TypedArray.Stored i v (content.pad (i + 1 - content.size)) stored) :
    writeBelow limit v (.typed content) (.index i) [] = ⟨.typed stored, none⟩ := by
  rw [writeBelow_last (.typed hg)]
  simp only [assign, TypedArray.store_eq_ok_iff.mpr hs]

/-- Writes to two children of one container commute. -/
theorem writeBelow_comm_of_ne {c₁ c₂ : Value} (hne : t ≠ s)
    (ht : ∀ i, t = .index i → i + 1 < lengthLimit) (hs : ∀ j, s = .index j → j + 1 < lengthLimit)
    (h₁ : writeBelow limit v c t ts = ⟨c₁, none⟩)
    (h₂ : writeBelow limit w c₁ s us = ⟨c₂, none⟩) :
    ∃ d₁ d₂, writeBelow limit w c s us = ⟨d₁, none⟩ ∧ writeBelow limit v d₁ t ts = ⟨d₂, none⟩ ∧
      Similar c₂ d₂ := by
  -- in an untyped container each write makes a child and puts it, in a typed array it stores an
  -- element
  rcases untyped_or_typed c with hu | ⟨content, rfl⟩
  · obtain ⟨g₁, hr₁⟩ := exists_reserved_of_writeBelow h₁
    obtain ⟨g₂, hr₂⟩ := exists_reserved_of_writeBelow h₂
    obtain ⟨m, hm, rfl⟩ := (writeBelow_untyped_eq_iff hr₁ hu).mp h₁
    have hu₁ : (put m g₁ t).isTyped = false := (hr₁.isTyped_put m).trans hu
    obtain ⟨n, hn, rfl⟩ := (writeBelow_untyped_eq_iff hr₂ hu₁).mp h₂
    rw [writeSlot_put_ne hne hr₁ hu] at hn
    obtain ⟨k₁, k₂, hk₁, hk₂, hsim⟩ := hr₁.comm (n := n) hne hu ht hs hr₂
    have hu₂ : (put n k₁ s).isTyped = false := (hk₁.isTyped_put n).trans hu
    refine ⟨_, _, (writeBelow_untyped_eq_iff hk₁ hu).mpr ⟨n, hn, rfl⟩, ?_, hsim⟩
    refine (writeBelow_untyped_eq_iff hk₂ hu₂).mpr ⟨m, ?_, rfl⟩
    rw [writeSlot_put_ne hne.symm hk₁ hu, hm]
  · obtain ⟨i, stored₁, rfl, rfl, rfl, hg₁, hs₁⟩ := exists_stored_of_writeBelow h₁
    obtain ⟨j, stored₂, rfl, rfl, rfl, hg₂, hs₂⟩ := exists_stored_of_writeBelow h₂
    have hij : i ≠ j := fun hij => hne (congrArg Token.index hij)
    obtain ⟨stored, hj, hi⟩ := hs₁.comm hij hs₂
    rw [hs₁.size_eq_max] at hg₂
    obtain ⟨hgj, hgi⟩ := hg₁.comm hg₂ (ht i rfl) (hs j rfl)
    refine ⟨_, _, writeBelow_typed_of_stored hgj hj, writeBelow_typed_of_stored ?_ hi, .refl _⟩
    rw [hj.size_eq_max]
    exact hgi

/-! ### The way that both have in common -/

/-- **Independent writes below a container commute**, up to the order of members. -/
theorem writeBelow_comm {c₁ c₂ : Value} (ha : Apart (t :: ts) (s :: us))
    (ht : ∀ i, .index i ∈ t :: ts → i + 1 < lengthLimit)
    (hs : ∀ j, .index j ∈ s :: us → j + 1 < lengthLimit)
    (h₁ : writeBelow limit v c t ts = ⟨c₁, none⟩)
    (h₂ : writeBelow limit w c₁ s us = ⟨c₂, none⟩) :
    ∃ d₁ d₂, writeBelow limit w c s us = ⟨d₁, none⟩ ∧ writeBelow limit v d₁ t ts = ⟨d₂, none⟩ ∧
      Similar c₂ d₂ := by
  -- the container and the other pointer change from level to level
  induction ts generalizing c t s us c₁ c₂ with
  | nil =>
      have hne : t ≠ s := fun hts => ha.1 (hts ▸ List.cons_prefix_cons.mpr ⟨rfl, List.nil_prefix⟩)
      exact writeBelow_comm_of_ne hne (fun i hi => ht i (hi ▸ List.mem_cons_self))
        (fun j hj => hs j (hj ▸ List.mem_cons_self)) h₁ h₂
  | cons next ts ih =>
      by_cases hne : t = s
      · subst hne
        have hrest : Apart (next :: ts) us := Apart.cons_iff.mp ha
        obtain ⟨next', us, rfl, _⟩ := hrest.cases_cons
        rcases untyped_or_typed c with hu | ⟨content, rfl⟩
        · obtain ⟨g, hr⟩ := exists_reserved_of_writeBelow h₁
          -- the first write: `m₁` is what it makes of the child
          obtain ⟨m₁, hm₁, rfl⟩ := (writeBelow_untyped_eq_iff hr hu).mp h₁
          rw [writeSlot] at hm₁
          -- the second write finds `m₁` in place
          obtain ⟨g₂, hr₂⟩ := exists_reserved_of_writeBelow h₂
          have hchild := child?_put_self hr hu m₁
          obtain rfl := hr₂.eq_of_child? hchild
          have hu₁ : (put m₁ g t).isTyped = false := (hr.isTyped_put m₁).trans hu
          obtain ⟨m₂, hm₂, rfl⟩ := (writeBelow_untyped_eq_iff hr₂ hu₁).mp h₂
          rw [writeSlot, slotOrFresh_of_child? hchild (isMissing_eq_false_of_writeBelow hm₁)] at hm₂
          -- so the child takes the next token of both, and is the same in the other order
          obtain ⟨g₃, hr₃⟩ := exists_reserved_of_writeBelow hm₂
          have htakes : (c.slotOrFresh t next).takes next' = true := by
            rw [← takes_blank, ← blank_eq_of_writeBelow hm₁, takes_blank]
            exact hr₃.takes
          obtain ⟨n₁, n₂, hn₁, hn₂, hsim⟩ := ih hrest
            (fun i hi => ht i (List.mem_cons_of_mem _ hi))
            (fun j hj => hs j (List.mem_cons_of_mem _ hj)) hm₁ hm₂
          have hu₂ : (put n₁ g t).isTyped = false := (hr.isTyped_put n₁).trans hu
          refine ⟨put n₁ g t, put n₂ (put n₁ g t) t, ?_, ?_, ?_⟩
          · refine (writeBelow_untyped_eq_iff hr hu).mpr ⟨n₁, ?_, rfl⟩
            rw [writeSlot, slotOrFresh_eq_of_takes htakes]
            exact hn₁
          · refine (writeBelow_untyped_eq_iff (hr.put_self hu n₁) hu₂).mpr ⟨n₂, ?_, rfl⟩
            rw [writeSlot, slotOrFresh_of_child? (child?_put_self hr hu n₁)
              (isMissing_eq_false_of_writeBelow hn₁)]
            exact hn₂
          · rw [put_put, put_put]
            exact hsim.put_value g t
        · obtain ⟨i, stored, _, hnil, _⟩ := exists_stored_of_writeBelow h₁
          cases hnil
      · exact writeBelow_comm_of_ne hne (fun i hi => ht i (hi ▸ List.mem_cons_self))
          (fun j hj => hs j (hj ▸ List.mem_cons_self)) h₁ h₂

/-! ### Whole writes -/

/-- Independent writes that succeed one after the other do so in the other order. -/
theorem write_comm {tree tree₁ tree₂ : Value} {p q : Pointer} {policy : Policy}
    (ha : Apart p.tokens q.tokens) (hp : p.IsAddressable) (hq : q.IsAddressable)
    (h₁ : tree.write p v policy = (tree₁, none)) (h₂ : tree₁.write q w policy = (tree₂, none)) :
    ∃ other₁ other₂, tree.write q w policy = (other₁, none) ∧
      other₁.write p v policy = (other₂, none) ∧ Similar tree₂ other₂ := by
  obtain ⟨t, ts, x, hadmitted, hw₁⟩ := exists_admitted_of_write h₁
  obtain ⟨s, us, y, hadmitted', hw₂⟩ := exists_admitted_of_write h₂
  rw [hadmitted.tokens, hadmitted'.tokens] at ha
  have ht (i : Nat) (hi : .index i ∈ t :: ts) := hp i (hadmitted.tokens ▸ hi)
  have hs (j : Nat) (hj : .index j ∈ s :: us) := hq j (hadmitted'.tokens ▸ hj)
  obtain ⟨other₁, other₂, hother₁, hother₂, hsim⟩ := writeBelow_comm ha ht hs hw₁ hw₂
  have hblank₁ := blank_eq_of_writeBelow hw₁
  have hblank := blank_eq_of_writeBelow hother₁
  exact ⟨other₁, other₂, write_of_admitted (hadmitted'.of_blank_eq hblank₁.symm) hother₁,
    write_of_admitted (hadmitted.of_blank_eq hblank) hother₂, hsim⟩

end Value

/-! ### Runs of writes -/

/-- Are the pointers apart that the arguments stand for? -/
def PointerArgument.Independent (a b : PointerArgument) : Prop :=
  ∀ p q, a.resolve = .ok p → b.resolve = .ok q → Apart p.tokens q.tokens

theorem PointerArgument.Independent.symm {a b : PointerArgument} (h : a.Independent b) :
    b.Independent a := fun p q hp hq => (h q p hq hp).symm

/-- **The order of independent writes does not matter.** If a run of writes to places that are apart
succeeds, so does every permutation of it, and the trees differ at most in the order of members. -/
theorem build_perm {tree tree' : Value} {policy : Policy}
    {pairs pairs' : List (PointerArgument × Value)} (hperm : pairs.Perm pairs')
    (hind : pairs.Pairwise fun a b => a.1.Independent b.1)
    (haddr : ∀ pair ∈ pairs, ∀ p, pair.1.resolve = .ok p → p.IsAddressable)
    (h : build tree policy pairs = .ok tree') :
    ∃ other, build tree policy pairs' = .ok other ∧ tree'.Similar other := by
  -- along the permutation: a swap is two writes, and the other cases go through runs
  induction hperm generalizing tree tree' with
  | nil => exact ⟨tree', h, .refl _⟩
  | cons pair _ ih =>
      obtain ⟨p, after, hp, hw, hrest⟩ := build_cons_eq_ok_iff.mp h
      obtain ⟨other, hother, hsim⟩ := ih (List.pairwise_cons.mp hind).2
        (fun pair hpair => haddr pair (List.mem_cons_of_mem _ hpair)) hrest
      exact ⟨other, build_cons_eq_ok_iff.mpr ⟨p, after, hp, hw, hother⟩, hsim⟩
  | swap a b rest =>
      obtain ⟨q, tree₁, hq, hw₁, h⟩ := build_cons_eq_ok_iff.mp h
      obtain ⟨p, tree₂, hp, hw₂, hrest⟩ := build_cons_eq_ok_iff.mp h
      have hapart : Apart q.tokens p.tokens :=
        (List.pairwise_cons.mp hind).1 a List.mem_cons_self q p hq hp
      have hq' := haddr b List.mem_cons_self q hq
      have hp' := haddr a (List.mem_cons_of_mem _ List.mem_cons_self) p hp
      -- the two writes change places, and the rest of the run starts from a similar tree
      obtain ⟨other₁, other₂, ho₁, ho₂, hsim⟩ := Value.write_comm hapart hq' hp' hw₁ hw₂
      obtain ⟨other, hother, hsim⟩ := hsim.build hrest
      exact ⟨other, build_cons_eq_ok_iff.mpr ⟨p, other₁, hp, ho₁,
        build_cons_eq_ok_iff.mpr ⟨q, other₂, hq, ho₂, hother⟩⟩, hsim⟩
  | trans h₁ _ ih₁ ih₂ =>
      obtain ⟨middle, hmiddle, hsim₁⟩ := ih₁ hind haddr h
      -- the assumptions do not depend on the order either
      have hind' := (h₁.pairwise_iff fun h => h.symm).mp hind
      have haddr' := fun pair hpair => haddr pair (h₁.mem_iff.mpr hpair)
      obtain ⟨other, hother, hsim₂⟩ := ih₂ hind' haddr' hmiddle
      exact ⟨other, hother, hsim₁.trans hsim₂⟩

/-- Writes to `/a/2` and `/b` of `{}`, one before the other and the other way round. -/
theorem build_perm_of_swapped :
    let tree := Value.object .plain []
    let p := PointerArgument.pointer { tokens := [.key "a", .index 1] }
    let q := PointerArgument.pointer { tokens := [.key "b"] }
    let pairs := [(p, Value.int 7), (q, Value.null)]
    let made := Value.array .list [.missing, .int 7]
    build tree {} pairs = .ok (.object .plain [(.text "a", made), (.text "b", .null)]) ∧
    ∃ other, build tree {} [(q, .null), (p, .int 7)] = .ok other ∧
      Value.Similar (.object .plain [(.text "a", made), (.text "b", .null)]) other := by
  intro tree p q pairs made
  have hind : pairs.Pairwise fun a b => a.1.Independent b.1 := by
    refine List.pairwise_cons.mpr ⟨fun b hb => ?_, List.pairwise_singleton _ _⟩
    obtain rfl := List.mem_singleton.mp hb
    intro p' q' hp hq
    cases hp
    cases hq
    decide
  have haddr : ∀ pair ∈ pairs, ∀ p', pair.1.resolve = .ok p' → p'.IsAddressable := by
    intro pair hpair p' hp offset hoffset
    rcases List.mem_cons.mp hpair with rfl | hpair
    · cases hp
      obtain rfl : offset = 1 := by simpa using hoffset
      decide
    · obtain rfl := List.mem_singleton.mp hpair
      cases hp
      simp at hoffset
  exact ⟨rfl, build_perm (.swap _ _ _) hind haddr rfl⟩

end JsonPointer
