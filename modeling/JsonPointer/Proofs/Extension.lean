import JsonPointer.Proofs.Descent

/-!
# What a failed write leaves

A write can stop at every level, and nothing is taken back: arrays stay grown, and new containers
stay where they were put. No data is lost by this. `Extends` says along the tokens of a write what
may have become of a value, by one rule for each thing that can have been added, and no rule
replaces anything but `missing`.

* `extends_writeBelow` — what a failed write leaves extends what was there, whatever stopped it;
* `Extends.follow` — what tokens led to before, they lead to after an extension: the same value, or
  on the way of the write one that was extended.
-/

namespace JsonPointer
namespace Value

/-! ### Extensions -/

/-- A container as a write makes it for the next token, with nothing in it. -/
inductive IsFresh : Token → Value → Prop
  | list (offset : Nat) : IsFresh (.index offset) (.array .list [])
  | object {name : String} {flavour : ObjectFlavour} : flavour.isWritable = true →
      IsFresh (.key name) (.object flavour [])

/-- `after` is `before` with what a write along the tokens may have added until it failed. -/
inductive Extends : List Token → Value → Value → Prop
  /-- Nothing was added. -/
  | refl (ts : List Token) (v : Value) : Extends ts v v
  /-- Where nothing was stored there is a new container. -/
  | fill {next : Token} {ts : List Token} {new after : Value} : IsFresh next new →
      Extends (next :: ts) new after → Extends (next :: ts) .missing after
  /-- The member that the way goes through was extended where it stands. -/
  | member {name : String} {ts : List Token} {flavour : ObjectFlavour} {members : Members}
      {x y : Value} : flavour.isWritable = true → members.find? name = some x → Extends ts x y →
      Extends (.key name :: ts) (.object flavour members)
        (.object flavour (Members.put name y members))
  /-- The object has got a new member at its end, which is a new container. -/
  | newMember {name : String} {next : Token} {ts : List Token} {flavour : ObjectFlavour}
      {members : Members} {new y : Value} : flavour.isWritable = true →
      members.find? name = none → IsFresh next new → Extends (next :: ts) new y →
      Extends (.key name :: next :: ts) (.object flavour members)
        (.object flavour (members ++ [(.text name, y)]))
  /-- The element that the way goes through was extended where it stands. -/
  | element {i : Nat} {ts : List Token} {flavour : ArrayFlavour} {items : List Value}
      {x y : Value} : flavour.isWritable = true → items[i]? = some x → Extends ts x y →
      Extends (.index i :: ts) (.array flavour items) (.array flavour (items.set i y))
  /-- The array was padded up to the position, which holds a new container. -/
  | newElement {i : Nat} {next : Token} {ts : List Token} {flavour : ArrayFlavour}
      {items : List Value} {new y : Value} : flavour.isWritable = true → items.length ≤ i →
      IsFresh next new → Extends (next :: ts) new y →
      Extends (.index i :: next :: ts) (.array flavour items)
        (.array flavour (items ++ List.replicate (i - items.length) .missing ++ [y]))
  /-- The typed array was padded until it has the position. -/
  | padded {i : Nat} {ts : List Token} {content : TypedArray} :
      Extends (.index i :: ts) (.typed content)
        (.typed (content.pad (i + 1 - content.size)))

def names : Value → List Value
  | .object _ members => members.map Prod.fst
  | _ => []

/-- `after` is a container of the same flavour and element type as `before`, in which every token
that led somewhere still does, and new names stand only behind the old ones. -/
structure Retains (before after : Value) : Prop where
  blank_eq : after.blank = before.blank
  names_prefix : before.names <+: after.names
  child?_isSome : ∀ s, (before.child? s).isSome = true → (after.child? s).isSome = true

variable {limit : Option Int} {v container grown before after x : Value} {t s next : Token}
  {ts us : List Token} {fault : WriteFault}

/-! ### What a failed write leaves -/

theorem isFresh_fresh (h : container.takes t = true) (next : Token) :
    IsFresh next (container.fresh next) := by
  cases next with
  | index offset => exact .list offset
  | key name =>
      cases container with
      | object flavour members =>
          cases t with
          | key _ => exact .object h
          | index _ => cases h
      | _ => exact .object rfl

/-- What stands in the slot is extended, also where it is `missing` and a new container is made. -/
theorem Extends.of_slotOrFresh (ht : container.takes t = true) (hx : container.child? t = some x)
    (h : Extends (next :: ts) (container.slotOrFresh t next) after) :
    Extends (next :: ts) x after := by
  rcases slotOrFresh_cases container t next with ⟨y, hy, _, heq⟩ | ⟨hmissing, heq⟩
  · obtain rfl : y = x := Option.some.inj (hy.symm.trans hx)
    rwa [heq] at h
  · obtain rfl := hmissing x hx
    rw [heq] at h
    exact .fill (isFresh_fresh ht next) h

/-- A list that is padded up to a position, which is then set. -/
theorem padded_set_of_le {α : Type} {items : List α} {i : Nat} (h : items.length ≤ i) (z a : α) :
    (items ++ List.replicate (i + 1 - items.length) z).set i a =
      items ++ List.replicate (i - items.length) z ++ [a] := by
  -- the last of the new elements is the one that is set
  have hn : i + 1 - items.length = (i - items.length) + 1 := by omega
  rw [hn, List.replicate_succ', ← List.append_assoc, List.set_append_right]
  · simp [Nat.add_sub_cancel' h]
  · simp [Nat.add_sub_cancel' h]

/-- One level: what the next level has been extended to is put into the container. -/
theorem Extends.put (hr : Reserved limit container t grown) (hu : container.isTyped = false)
    (h : Extends (next :: ts) (container.slotOrFresh t next) after) :
    Extends (t :: next :: ts) container (put after grown t) := by
  have ht := hr.takes
  -- a child that is there is extended in its place
  cases hx : container.child? t with
  | some x =>
      have hext := h.of_slotOrFresh ht hx
      rw [hr.eq_of_child? hx]
      cases hr with
      | member hf => exact .member hf hx hext
      | element hf _ => exact .element hf hx hext
      | typed _ => cases hu
  | none =>
      -- nothing stands there yet, so the next level is a new container
      have hslot : container.slot t = .missing := slot_eq_missing_iff.mpr (by simp [hx])
      rw [slotOrFresh_of_slot_missing hslot] at h
      have hfresh := isFresh_fresh ht next
      cases hr with
      | @member flavour members name hf =>
          show Extends _ _ (.object flavour (Members.put name after members))
          rw [Members.put_of_none hx]
          exact .newMember hf hx hfresh h
      | @element flavour items i hf _ =>
          have hle : items.length ≤ i := List.getElem?_eq_none_iff.mp hx
          show Extends _ _ (.array flavour ((items ++ _).set i after))
          rw [padded_set_of_le hle]
          exact .newElement hf hle hfresh h
      | typed _ => cases hu

/-- A typed array that a write has failed in was padded and nothing else. -/
theorem Extends.of_typed {content : TypedArray} (hr : Reserved limit (.typed content) t grown) :
    Extends (t :: ts) (.typed content) grown := by
  cases hr with
  | typed _ => exact .padded

/-- **A failed write only adds.** The tree that it leaves extends the one before. -/
theorem extends_writeBelow (hf : (writeBelow limit v container t ts).fault? = some fault) :
    Extends (t :: ts) container (writeBelow limit v container t ts).tree := by
  -- along the tokens: each level puts back what the next one has been extended to
  induction ts generalizing container t with
  | nil =>
      rcases reserve_spec limit container t with ⟨grown, _, hr⟩ | ⟨fault', h, _⟩
      · rcases untyped_or_typed container with hu | ⟨content, rfl⟩
        · -- only a typed array refuses to store a value
          rw [writeBelow_untyped hr hu] at hf
          cases hf
        · rw [writeBelow_last hr] at hf ⊢
          have hext : Extends [t] (.typed content) grown := Extends.of_typed hr
          cases hr with
          | @typed _ i _ =>
              rcases assign_typed v (content.pad (i + 1 - content.size)) i with
                ⟨stored, _, ha⟩ | ⟨fault', _, ha⟩
              · rw [ha] at hf
                cases hf
              · rw [ha]
                exact hext
      · rw [writeBelow_refused h]
        exact .refl _ _
  | cons next ts ih =>
      rcases reserve_spec limit container t with ⟨grown, _, hr⟩ | ⟨fault', h, _⟩
      · rcases untyped_or_typed container with hu | ⟨content, rfl⟩
        · rw [writeBelow_untyped hr hu] at hf ⊢
          exact Extends.put hr hu (ih hf)
        · obtain ⟨fault', h⟩ := writeBelow_typed_next v next ts hr
          rw [h]
          exact Extends.of_typed hr
      · rw [writeBelow_refused h]
        exact .refl _ _

/-! ### What is read after an extension -/

namespace Extends

/-- A token leads to what it led to, or on the way to what that was extended to. -/
theorem child? (h : Extends ts before after) (hx : before.child? s = some x) :
    ∃ y, after.child? s = some y ∧ (y = x ∨ ∃ rest, ts = s :: rest ∧ Extends rest x y) := by
  cases h with
  | refl => exact ⟨x, hx, .inl rfl⟩
  | fill _ _ => cases s <;> cases hx
  | @member name ts flavour members x' y' _ hfind hext =>
      cases s with
      | index j => cases hx
      | key name' =>
          by_cases hn : name = name'
          · subst hn
            obtain rfl : x' = x := Option.some.inj (hfind.symm.trans hx)
            exact ⟨y', Members.find?_put_self _ _ _, .inr ⟨ts, rfl, hext⟩⟩
          · exact ⟨x, (Members.find?_put_ne hn _ _).trans hx, .inl rfl⟩
  | newMember _ _ _ _ =>
      cases s with
      | index j => cases hx
      | key name' => exact ⟨x, Members.find?_append_of_some hx _, .inl rfl⟩
  | @element i ts flavour items x' y' _ hitem hext =>
      cases s with
      | key name => cases hx
      | index j =>
          by_cases hij : i = j
          · subst hij
            obtain rfl : x' = x := Option.some.inj (hitem.symm.trans hx)
            obtain ⟨hlt, _⟩ := List.getElem?_eq_some_iff.mp hitem
            exact ⟨y', List.getElem?_set_self hlt, .inr ⟨ts, rfl, hext⟩⟩
          · exact ⟨x, (List.getElem?_set_ne hij).trans hx, .inl rfl⟩
  | newElement _ _ _ _ =>
      cases s with
      | key name => cases hx
      | index j =>
          rw [child?_array_index] at hx
          obtain ⟨hj, _⟩ := List.getElem?_eq_some_iff.mp hx
          refine ⟨x, ?_, .inl rfl⟩
          rw [child?_array_index, List.append_assoc, List.getElem?_append_left hj, hx]
  | @padded i ts content =>
      cases s with
      | key name => cases hx
      | index j =>
          rw [child?_typed_index] at hx
          obtain ⟨hj, _⟩ := List.getElem?_eq_some_iff.mp hx
          refine ⟨x, ?_, .inl rfl⟩
          rw [child?_typed_index, TypedArray.values_pad, List.getElem?_append_left hj, hx]

/-- An extension is the value itself, a new container for `missing`, or a container that retains
what was in it. -/
theorem retains (h : Extends ts before after) :
    after = before ∨ before = .missing ∨ before.isWritable = true ∧ Retains before after := by
  have hchild (s : Token) (hs : (before.child? s).isSome = true) :
      (after.child? s).isSome = true := by
    obtain ⟨x, hx⟩ := Option.isSome_iff_exists.mp hs
    obtain ⟨y, hy, _⟩ := h.child? hx
    exact Option.isSome_iff_exists.mpr ⟨y, hy⟩
  -- children are retained in every case, so only flavours and names are left to look at
  cases h with
  | refl => exact .inl rfl
  | fill _ _ => exact .inr (.inl rfl)
  | @member name _ _ _ _ _ hf hfind _ =>
      refine .inr (.inr ⟨isWritable_of_takes (t := .key name) hf, rfl, ?_, hchild⟩)
      exact ⟨[], (List.append_nil _).trans (Members.map_fst_put_of_some hfind _).symm⟩
  | @newMember name _ _ _ _ _ _ hf _ _ _ =>
      refine .inr (.inr ⟨isWritable_of_takes (t := .key name) hf, rfl, ?_, hchild⟩)
      show List.map Prod.fst _ <+: List.map Prod.fst _
      rw [List.map_append]
      exact List.prefix_append _ _
  | element hf _ _ => exact .inr (.inr ⟨hf, rfl, List.prefix_rfl, hchild⟩)
  | newElement hf _ _ _ => exact .inr (.inr ⟨hf, rfl, List.prefix_rfl, hchild⟩)
  | padded =>
      refine .inr (.inr ⟨rfl, ?_, List.prefix_rfl, hchild⟩)
      exact congrArg Value.typed (TypedArray.blank_pad _ _)

theorem step (h : Extends ts before after) (hx : before.step s = .ok x) :
    ∃ y, after.step s = .ok y ∧ (y = x ∨ ∃ rest, ts = s :: rest ∧ Extends rest x y) := by
  obtain ⟨hlong, hchild⟩ := step_eq_ok_iff.mp hx
  obtain ⟨y, hy, hrel⟩ := h.child? hchild
  refine ⟨y, step_eq_ok_iff.mpr ⟨?_, hy⟩, hrel⟩
  rcases h.retains with rfl | rfl | ⟨_, hretains⟩
  · exact hlong
  · cases s <;> cases hchild
  · rw [← isLongRange_blank, hretains.blank_eq, isLongRange_blank, hlong]

/-- An extension along no tokens is none. -/
theorem eq_of_nil (h : Extends [] before after) : after = before := by
  cases h
  rfl

/-- What tokens led to they lead to still, or, before the end of the way, to an extension of it. -/
theorem follow (h : Extends ts before after) (hx : before.follow us = .ok x) :
    ∃ y, after.follow us = .ok y ∧
      (y = x ∨ ∃ rest, rest ≠ [] ∧ ts = us ++ rest ∧ Extends rest x y) := by
  -- along the tokens of the read, until it leaves the way of the write
  induction us generalizing ts before after with
  | nil =>
      cases hx
      refine ⟨after, rfl, ?_⟩
      by_cases hts : ts = []
      · subst hts
        exact .inl h.eq_of_nil
      · exact .inr ⟨ts, hts, rfl, h⟩
  | cons s us ih =>
      obtain ⟨child, hstep, hchild⟩ := follow_cons_eq_ok_iff.mp hx
      obtain ⟨child', hstep', hrel⟩ := h.step hstep
      rw [follow_cons_of_step hstep']
      rcases hrel with rfl | ⟨rest, rfl, hext⟩
      · -- the ways have parted, and below nothing has changed
        exact ⟨x, hchild, .inl rfl⟩
      · obtain ⟨y, hy, rfl | ⟨rest', hne, rfl, hext'⟩⟩ := ih hext hchild
        · exact ⟨y, hy, .inl rfl⟩
        · exact ⟨y, hy, .inr ⟨rest', hne, rfl, hext'⟩⟩

end Extends

/-! ### The whole write -/

/-- **A failed write destroys nothing**, whatever its error. The tree that it leaves extends the one
before, and so every pointer that led somewhere still does: to the same value, unless it is above
that of the write and led to `missing`, or to a container that can be written to, which then retains
what was in it. -/
theorem extends_of_write_fails {tree tree' : Value} {p : Pointer} {policy : Policy} {e : Error}
    (h : tree.write p v policy = (tree', some e)) :
    Extends p.tokens tree tree' ∧
    ∀ q x, tree.read q = .ok x → ∃ y, tree'.read q = .ok y ∧
      (y = x ∨ (∃ rest, rest ≠ [] ∧ p.tokens = q.tokens ++ rest) ∧
        (x = .missing ∨ x.isWritable = true ∧ Retains x y)) := by
  have hext : Extends p.tokens tree tree' := by
    rw [write] at h
    -- a write that fails early leaves the tree itself
    rcases attempt_spec tree p v policy with ⟨fault, hf, _⟩ | ⟨t, ts, converted, hadmitted⟩
    · rw [hf] at h
      cases h
      exact .refl _ _
    · rw [attempt_of_admitted hadmitted] at h
      cases hf : (writeBelow policy.maxLength converted tree t ts).fault? with
      | none =>
          rw [hf] at h
          cases h
      | some fault =>
          rw [hf] at h
          cases h
          rw [hadmitted.tokens]
          exact extends_writeBelow hf
  refine ⟨hext, ?_⟩
  intro q x hx
  rw [read_eq_ok_iff] at hx
  obtain ⟨y, hy, hrel⟩ := hext.follow hx
  refine ⟨y, read_eq_ok_iff.mpr hy, ?_⟩
  rcases hrel with rfl | ⟨rest, hne, htokens, hbelow⟩
  · exact .inl rfl
  · rcases hbelow.retains with rfl | hretains
    · exact .inl rfl
    · exact .inr ⟨⟨rest, hne, htokens⟩, hretains⟩

/-- A write to `/a/1/b/9` of `{"a": [missing, 1]}` fails at the length of the array under `b`, which
it has made on the way. The array under `a` has both of its elements still. -/
theorem extends_of_write_fails_at_length :
    let items := Value.array .list [.missing, .int 1]
    let tree := Value.object .plain [(.text "a", items)]
    let p : Pointer := { tokens := [.key "a", .index 0, .key "b", .index 8] }
    let q : Pointer := { tokens := [.key "a"] }
    let policy : Policy := { maxLength := some 5 }
    let made := Value.object .plain [(.text "b", .array .list [])]
    let tree' := Value.object .plain [(.text "a", .array .list [made, .int 1])]
    (∃ e, tree.write p .null policy = (tree', some e)) ∧ Extends p.tokens tree tree' ∧
    tree.read q = .ok items ∧ ∃ y, tree'.read q = .ok y ∧
      (y = items ∨ (∃ rest, rest ≠ [] ∧ p.tokens = q.tokens ++ rest) ∧
        (items = .missing ∨ items.isWritable = true ∧ Retains items y)) := by
  intro items tree p q policy made tree'
  have hwrite : tree.write p .null policy = (tree', some _) := rfl
  obtain ⟨hext, hread⟩ := extends_of_write_fails hwrite
  exact ⟨⟨_, hwrite⟩, hext, rfl, hread q items rfl⟩

end Value
end JsonPointer
