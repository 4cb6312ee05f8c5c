import JsonPointer.Proofs.Descent

/-!
# Equality up to the order of members

The members of an object have an order, which depends on the order in which they were first
written. `Similar` is equality up to that order, at every depth. The main statement is that no
operation tells similar trees apart: what one level of a write makes of them is similar again
(`Similar.reserve`, `Similar.slot`, `Similar.put_value`, `Similar.put_container`), so a write
(`Similar.write`) and a run of writes (`Similar.build`) succeed on both or on none, and lead to
similar trees.
-/

namespace JsonPointer

namespace Value

/-- Two values are similar if they are equal up to the order of the members inside objects. -/
inductive Similar : Value → Value → Prop
  | refl (v : Value) : Similar v v
  | trans {u v w : Value} : Similar u v → Similar v w → Similar u w
  /-- Neighbouring members may change places. -/
  | swap {flavour : ObjectFlavour} {front rest : Members} {a b : Value × Value} : a.1 ≠ b.1 →
      Similar (.object flavour (front ++ a :: b :: rest))
        (.object flavour (front ++ b :: a :: rest))
  /-- The value of a member may be replaced by a similar one. -/
  | member {flavour : ObjectFlavour} {front rest : Members} {name v w : Value} : Similar v w →
      Similar (.object flavour (front ++ (name, v) :: rest))
        (.object flavour (front ++ (name, w) :: rest))
  /-- An element may be replaced by a similar one. -/
  | element {flavour : ArrayFlavour} {front rest : List Value} {v w : Value} : Similar v w →
      Similar (.array flavour (front ++ v :: rest)) (.array flavour (front ++ w :: rest))

end Value

/-! ### Where members stand -/

namespace Members

/-- Where a value is put does not depend on the value. -/
theorem exists_put_eq (name : String) (members : Members) :
    ∃ front key rest, ∀ v, Members.put name v members = front ++ (key, v) :: rest := by
  induction members with
  | nil => exact ⟨[], .text name, [], fun v => rfl⟩
  | cons member members ih =>
      obtain ⟨front, key, rest, h⟩ := ih
      by_cases hm : member.1.isText name = true
      · exact ⟨[], member.1, members, fun v => if_pos hm⟩
      · refine ⟨member :: front, key, rest, fun v => ?_⟩
        rw [put, if_neg hm, h, List.cons_append]

theorem find?_swap {a b : Value × Value} (hne : a.1 ≠ b.1) (name : String)
    (front rest : Members) :
    Members.find? name (front ++ a :: b :: rest) =
      Members.find? name (front ++ b :: a :: rest) := by
  cases hf : front.find? name with
  | some x => rw [find?_append_of_some hf, find?_append_of_some hf]
  | none =>
      rw [find?_append_of_none hf, find?_append_of_none hf]
      simp only [find?_cons]
      by_cases ha : a.1.isText name = true
      · have hb : ¬ b.1.isText name = true := fun hb =>
          hne ((Value.eq_text_of_isText ha).trans (Value.eq_text_of_isText hb).symm)
        rw [if_pos ha, if_neg hb, if_pos ha]
      · rw [if_neg ha, if_neg ha]

end Members

/-! ### Runs of writes, one by one -/

/-- A run of writes succeeds if the first one does, and the others after it. -/
theorem build_cons_eq_ok_iff {tree tree' : Value} {policy : Policy}
    {pair : PointerArgument × Value} {rest : List (PointerArgument × Value)} :
    build tree policy (pair :: rest) = .ok tree' ↔
      ∃ p after, pair.1.resolve = .ok p ∧ tree.write p pair.2 policy = (after, none) ∧
        build after policy rest = .ok tree' := by
  obtain ⟨target, v⟩ := pair
  rw [build]
  cases hp : target.resolve with
  | error e => simp [bind, Except.bind]
  | ok p =>
      simp only [bind, Except.bind]
      cases hw : tree.write p v policy with
      | mk after e? =>
          cases e? with
          | none => simp [hw]
          | some e => simp [hw]

namespace Value.Similar

variable {limit : Option Int} {c d x y : Value} {t : Token} {ts : List Token}

/-! ### One level -/

theorem symm (h : Similar c d) : Similar d c := by
  induction h with
  | refl v => exact .refl v
  | trans _ _ ih₁ ih₂ => exact .trans ih₂ ih₁
  | swap hne => exact .swap hne.symm
  | member _ ih => exact .member ih
  | element _ ih => exact .element ih

theorem blank_eq (h : Similar c d) : c.blank = d.blank := by
  induction h with
  | trans _ _ ih₁ ih₂ => exact ih₁.trans ih₂
  | _ => rfl

theorem isMissing_eq (h : Similar c d) : c.isMissing = d.isMissing := by
  rw [← isMissing_blank, h.blank_eq, isMissing_blank]

/-- Similar containers hold similar values in their slots. -/
theorem slot (h : Similar c d) (t : Token) : Similar (c.slot t) (d.slot t) := by
  -- one exchange at a time, of neighbours, of a member or of an element
  induction h with
  | refl v => exact .refl _
  | trans _ _ ih₁ ih₂ => exact .trans ih₁ ih₂
  | @swap flavour front rest a b hne =>
      cases t with
      | index i => exact .refl _
      | key name =>
          rw [slot_eq, slot_eq, child?_object_key, child?_object_key, Members.find?_swap hne]
          exact .refl _
  | @member flavour front rest key v w hvw _ =>
      cases t with
      | index i => exact .refl _
      | key name =>
          rw [slot_eq, slot_eq, child?_object_key, child?_object_key]
          cases hf : front.find? name with
          | some x =>
              rw [Members.find?_append_of_some hf, Members.find?_append_of_some hf]
              exact .refl _
          | none =>
              rw [Members.find?_append_of_none hf, Members.find?_append_of_none hf,
                Members.find?_cons, Members.find?_cons]
              by_cases hk : key.isText name = true
              · rw [if_pos hk, if_pos hk]
                exact hvw
              · rw [if_neg hk, if_neg hk]
                exact .refl _
  | @element flavour front rest v w hvw _ =>
      cases t with
      | key name => exact .refl _
      | index i =>
          rw [slot_eq, slot_eq, child?_array_index, child?_array_index]
          -- in front of the element that differs, at it, and behind it
          rcases Nat.lt_trichotomy i front.length with hi | rfl | hi
          · rw [List.getElem?_append_left hi, List.getElem?_append_left hi]
            exact .refl _
          · rw [List.getElem?_append_right (Nat.le_refl _),
              List.getElem?_append_right (Nat.le_refl _), Nat.sub_self]
            exact hvw
          · obtain ⟨k, rfl⟩ := Nat.exists_eq_add_of_lt hi
            rw [List.getElem?_append_right (by omega), List.getElem?_append_right (by omega),
              Nat.add_assoc, Nat.add_sub_cancel_left]
            exact .refl _

/-- Room can be made in similar containers alike. -/
theorem reserve {c' : Value} (h : Similar c d) (hr : Reserved limit c t c') :
    ∃ d', Reserved limit d t d' ∧ Similar c' d' := by
  induction h generalizing c' with
  | refl v => exact ⟨c', hr, .refl _⟩
  | trans _ _ ih₁ ih₂ =>
      obtain ⟨d', hd', hs⟩ := ih₁ hr
      obtain ⟨e', he', hs'⟩ := ih₂ hd'
      exact ⟨e', he', hs.trans hs'⟩
  | swap hne =>
      cases hr with
      | member hf => exact ⟨_, .member hf, .swap hne⟩
  | member hvw _ =>
      cases hr with
      | member hf => exact ⟨_, .member hf, .member hvw⟩
  | @element flavour front rest v w hvw _ =>
      cases hr with
      | element hf hg =>
          have hlength : (front ++ v :: rest).length = (front ++ w :: rest).length := by simp
          rw [hlength] at hg ⊢
          refine ⟨_, .element hf hg, ?_⟩
          simp only [List.append_assoc, List.cons_append]
          exact .element hvw

/-- Putting a similar value gives a similar container. -/
theorem put_value (h : Similar x y) (c : Value) (t : Token) :
    Similar (put x c t) (put y c t) := by
  cases c with
  | object flavour members =>
      cases t with
      | key name =>
          obtain ⟨front, key, rest, hput⟩ := Members.exists_put_eq name members
          rw [put, put, hput, hput]
          exact .member h
      | index i => exact .refl _
  | array flavour items =>
      cases t with
      | key name => exact .refl _
      | index i =>
          rw [put, put, List.set_eq_take_append_cons_drop, List.set_eq_take_append_cons_drop]
          split
          · exact .element h
          · exact .refl _
  | _ => cases t <;> exact .refl _

/-- Neighbouring members change places also around a value that is put. -/
theorem put_swap {a b : Value × Value} (hne : a.1 ≠ b.1) (name : String) (x : Value)
    (flavour : ObjectFlavour) (front rest : Members) :
    Similar (.object flavour (front ++ Members.put name x (a :: b :: rest)))
      (.object flavour (front ++ Members.put name x (b :: a :: rest))) := by
  simp only [Members.put]
  -- the value goes into one of the two, or behind both
  by_cases ha : a.1.isText name = true
  · have hb : ¬ b.1.isText name = true := fun hb =>
      hne ((eq_text_of_isText ha).trans (eq_text_of_isText hb).symm)
    rw [if_pos ha, if_neg hb, if_pos ha]
    exact .swap hne
  · rw [if_neg ha]
    by_cases hb : b.1.isText name = true
    · rw [if_pos hb, if_pos hb]
      exact .swap hne
    · rw [if_neg hb, if_neg hb, if_neg ha]
      exact .swap hne

/-- Putting a value into similar containers gives similar containers. -/
theorem put_container (h : Similar c d) (x : Value) (t : Token) :
    Similar (put x c t) (put x d t) := by
  -- one exchange at a time: what is put stands in front of it, in its place, or behind it
  induction h with
  | refl v => exact .refl _
  | trans _ _ ih₁ ih₂ => exact .trans ih₁ ih₂
  | @swap flavour front rest a b hne =>
      cases t with
      | index i => exact .swap hne
      | key name =>
          rw [put, put]
          cases hf : front.find? name with
          | some z =>
              rw [Members.put_append_of_some hf, Members.put_append_of_some hf]
              exact .swap hne
          | none =>
              rw [Members.put_append_of_none hf, Members.put_append_of_none hf]
              exact put_swap hne name x flavour front rest
  | @member flavour front rest key v w hvw _ =>
      cases t with
      | index i => exact .member hvw
      | key name =>
          rw [put, put]
          cases hf : front.find? name with
          | some z =>
              rw [Members.put_append_of_some hf, Members.put_append_of_some hf]
              exact .member hvw
          | none =>
              rw [Members.put_append_of_none hf, Members.put_append_of_none hf,
                Members.put, Members.put]
              by_cases hk : key.isText name = true
              · rw [if_pos hk, if_pos hk]
                exact .refl _
              · rw [if_neg hk, if_neg hk]
                exact .member hvw
  | @element flavour front rest v w hvw _ =>
      cases t with
      | key name => exact .element hvw
      | index i =>
          rw [put, put, List.set_append, List.set_append]
          split
          · exact .element hvw
          · cases hi : i - front.length with
            | zero => exact .refl _
            | succ k => exact .element hvw

theorem slotOrFresh (h : Similar c d) (t next : Token) :
    Similar (c.slotOrFresh t next) (d.slotOrFresh t next) := by
  have hfresh : c.fresh next = d.fresh next := by
    rw [← fresh_blank, h.blank_eq, fresh_blank]
  rw [slotOrFresh_eq, slotOrFresh_eq, (h.slot t).isMissing_eq, hfresh]
  cases (d.slot t).isMissing with
  | true => exact .refl _
  | false => exact h.slot t

/-- A typed array has no members, so it is similar to itself only. -/
theorem eq_of_isTyped (h : Similar c d) (hc : c.isTyped = true) : d = c := by
  induction h with
  | refl v => rfl
  | trans _ _ ih₁ ih₂ =>
      obtain rfl := ih₁ hc
      exact ih₂ hc
  | _ => cases hc

/-! ### Writes -/

/-- One level of a write succeeds in similar containers alike, if what it goes on with does. -/
theorem writeBelow_of_writeSlot {v c' : Value} (h : Similar c d) (hu : c.isTyped = false)
    (hslot : ∀ m, writeSlot limit v c t ts = ⟨m, none⟩ →
      ∃ n, writeSlot limit v d t ts = ⟨n, none⟩ ∧ Similar m n)
    (hw : Value.writeBelow limit v c t ts = ⟨c', none⟩) :
    ∃ d', Value.writeBelow limit v d t ts = ⟨d', none⟩ ∧ Similar c' d' := by
  obtain ⟨grown, hr⟩ := exists_reserved_of_writeBelow hw
  obtain ⟨grown', hr', hgrown⟩ := h.reserve hr
  have hu' : d.isTyped = false := by
    rw [← isTyped_blank, ← h.blank_eq, isTyped_blank, hu]
  obtain ⟨m, hm, rfl⟩ := (writeBelow_untyped_eq_iff hr hu).mp hw
  -- the containers differ, and so do the values that are put into them
  obtain ⟨n, hn, hmn⟩ := hslot m hm
  refine ⟨_, (writeBelow_untyped_eq_iff hr' hu').mpr ⟨n, hn, rfl⟩, ?_⟩
  exact (hgrown.put_container m t).trans (hmn.put_value grown' t)

/-- A write that succeeds below a container succeeds below a similar one. -/
theorem writeBelow {v c' : Value} (h : Similar c d)
    (hw : Value.writeBelow limit v c t ts = ⟨c', none⟩) :
    ∃ d', Value.writeBelow limit v d t ts = ⟨d', none⟩ ∧ Similar c' d' := by
  -- along the tokens, with two similar containers at each
  induction ts generalizing c d t c' with
  | nil =>
      rcases untyped_or_typed c with hu | ⟨content, rfl⟩
      · exact h.writeBelow_of_writeSlot hu (fun m hm => ⟨m, hm, .refl m⟩) hw
      · obtain rfl := h.eq_of_isTyped rfl
        exact ⟨c', hw, .refl c'⟩
  | cons next ts ih =>
      rcases untyped_or_typed c with hu | ⟨content, rfl⟩
      · exact h.writeBelow_of_writeSlot hu (fun m hm => ih (h.slotOrFresh t next) hm) hw
      · obtain rfl := h.eq_of_isTyped rfl
        exact ⟨c', hw, .refl c'⟩

/-- A write that succeeds in a tree succeeds in a similar one. -/
theorem write {tree tree' other v : Value} {p : Pointer} {policy : Policy} (h : Similar tree other)
    (hw : tree.write p v policy = (tree', none)) :
    ∃ other', other.write p v policy = (other', none) ∧ Similar tree' other' := by
  obtain ⟨t, ts, converted, hadmitted, hw⟩ := exists_admitted_of_write hw
  obtain ⟨other', hother, hs⟩ := h.writeBelow hw
  exact ⟨other', write_of_admitted (hadmitted.of_blank_eq h.blank_eq.symm) hother, hs⟩

/-! ### Runs of writes -/

/-- A run of writes that succeeds from a tree succeeds from a similar one. -/
theorem build {tree tree' other : Value} {policy : Policy}
    {pairs : List (PointerArgument × Value)} (h : Similar tree other)
    (hb : JsonPointer.build tree policy pairs = .ok tree') :
    ∃ other', JsonPointer.build other policy pairs = .ok other' ∧ Similar tree' other' := by
  induction pairs generalizing tree other with
  | nil =>
      cases hb
      exact ⟨other, rfl, h⟩
  | cons pair rest ih =>
      obtain ⟨p, after, hp, hw, hrest⟩ := build_cons_eq_ok_iff.mp hb
      obtain ⟨after', hw', hafter⟩ := h.write hw
      obtain ⟨other', hother, hs⟩ := ih hafter hrest
      exact ⟨other', build_cons_eq_ok_iff.mpr ⟨p, after', hp, hw', hother⟩, hs⟩

end Value.Similar
end JsonPointer
