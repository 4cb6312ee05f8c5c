import JsonPointer.Proofs.Commute
import JsonPointer.Proofs.Extension
import JsonPointer.Proofs.Growth
import JsonPointer.Proofs.Lookup

/-!
# The containers on the way of a write

A write that succeeds has gone through one container for each token of its pointer. Each of them
was there and has taken in the token (`TakesIn`), or was made by the write and holds nothing but the
way itself (`MadeFor`).

* `takesIn_writeBelow` — the first container, where the padding of arrays and the order of names are
  looked at;
* `passes_writeBelow` — all of them, by induction along the tokens. The containers below a child are
  those below the container, one token further on. Where the write has made a container, the next
  ones are below an empty one, so they are made as well.
-/

namespace JsonPointer
namespace Value

/-! ### One container before and after -/

/-- `after` is the container `before` with something new at the token, and nothing else new. -/
inductive TakesIn : Value → Token → Value → Prop
  /-- The object had a member of that name: its names are the old ones, in their order. -/
  | oldMember {flavour : ObjectFlavour} {name : String} {old new : Members} {x : Value} :
      flavour.isWritable = true → old.find? name = some x →
      new.map Prod.fst = old.map Prod.fst →
      (∀ other, other ≠ name → new.find? other = old.find? other) →
      TakesIn (.object flavour old) (.key name) (.object flavour new)
  /-- The object had no member of that name: the name stands behind the old ones. -/
  | newMember {flavour : ObjectFlavour} {name : String} {old new : Members} :
      flavour.isWritable = true → old.find? name = none →
      new.map Prod.fst = old.map Prod.fst ++ [.text name] →
      (∀ other, other ≠ name → new.find? other = old.find? other) →
      TakesIn (.object flavour old) (.key name) (.object flavour new)
  /-- The array is of the same flavour and element type. It has grown if it was too short, and then
  there is padding between its old end and the position. -/
  | element {before after : Value} {old new : List Value} {i : Nat} :
      before.isWritableArray = true → after.blank = before.blank →
      before.items? = some old → after.items? = some new →
      new.length = max old.length (i + 1) →
      (∀ j < old.length, j ≠ i → new[j]? = old[j]?) →
      (∀ j < i, old.length ≤ j → new[j]? = some before.padding) →
      TakesIn before (.index i) after

/-- The container was made for the token: it holds what stands there, and in a list the padding
before it. -/
inductive MadeFor : Token → Value → Prop
  | list (i : Nat) (x : Value) :
      MadeFor (.index i) (.array .list (List.replicate i .missing ++ [x]))
  | object {flavour : ObjectFlavour} (name : String) (x : Value) : flavour.isWritable = true →
      MadeFor (.key name) (.object flavour [(.text name, x)])

/-- The tokens `us` lead to a container that was there and has taken in the token `t`, or to one
that was made for it where nothing was stored. -/
inductive Passes (tree tree' : Value) (us : List Token) (t : Token) : Prop
  | old (before after : Value) : tree.follow us = .ok before → tree'.follow us = .ok after →
      TakesIn before t after → Passes tree tree' us t
  | made (after : Value) : us ≠ [] → (∀ x, tree.follow us = .ok x → x = .missing) →
      tree'.follow us = .ok after → MadeFor t after → Passes tree tree' us t

variable {limit : Option Int} {v container grown before after child child' : Value}
  {t s next : Token} {ts us : List Token} {items : List Value} {i k : Nat} {e : Value}

/-! ### One level -/

theorem TakesIn.takes (h : TakesIn before t after) : after.takes t = true := by
  cases h with
  | oldMember hf _ _ _ => exact hf
  | newMember hf _ _ _ => exact hf
  | element hw hblank _ _ _ _ _ =>
      rw [← takes_blank, hblank, takes_blank]
      exact hw

theorem MadeFor.takes (h : MadeFor t after) : after.takes t = true := by
  cases h with
  | list i x => rfl
  | object name x hf => exact hf

theorem takesIn_put_member {flavour : ObjectFlavour} (hf : flavour.isWritable = true)
    (name : String) (v : Value) (members : Members) :
    TakesIn (.object flavour members) (.key name)
      (.object flavour (Members.put name v members)) := by
  have hother (other : String) (h : other ≠ name) :
      (Members.put name v members).find? other = members.find? other :=
    Members.find?_put_ne h.symm v members
  cases hfind : members.find? name with
  | some x => exact .oldMember hf hfind (Members.map_fst_put_of_some hfind v) hother
  | none =>
      refine .newMember hf hfind ?_ hother
      rw [Members.put_of_none hfind, List.map_append]
      rfl

/-- An array takes in a position by being padded and then set there. -/
theorem takesIn_of_padSet (hw : before.isWritableArray = true) (hblank : after.blank = before.blank)
    (hold : before.items? = some items)
    (hnew : after.items? = some (padSet before.padding items i e)) :
    TakesIn before (.index i) after := by
  refine .element hw hblank hold hnew (length_padSet _ items e) ?_ ?_
  · intro j hj hji
    rw [getElem?_padSet, if_neg hji.symm, if_pos hj]
  · intro j hji hj
    rw [getElem?_padSet, if_neg (by omega), if_neg (by omega), if_pos hji]

/-- A write that succeeds has left the token in the container that it starts with. -/
theorem takesIn_writeBelow (h : writeBelow limit v container t ts = ⟨after, none⟩) :
    TakesIn container t after := by
  have hblank := blank_eq_of_writeBelow h
  -- an untyped container gets a child, a typed array an element
  rcases untyped_or_typed container with hu | ⟨content, rfl⟩
  · obtain ⟨grown, hr⟩ := exists_reserved_of_writeBelow h
    obtain ⟨m, _, rfl⟩ := (writeBelow_untyped_eq_iff hr hu).mp h
    cases hr with
    | member hf => exact takesIn_put_member hf _ m _
    | element hf _ => exact takesIn_of_padSet hf hblank rfl rfl
    | typed _ => cases hu
  · obtain ⟨i, stored, rfl, _, rfl, _, hs⟩ := exists_stored_of_writeBelow h
    obtain ⟨e, _, hvalues⟩ := hs.values_eq
    rw [TypedArray.values_pad_set] at hvalues
    exact takesIn_of_padSet rfl hblank rfl (congrArg some hvalues)

/-- A list in which all but the last element are copies of `z`. -/
theorem exists_eq_replicate_append {α : Type} {z : α} {items : List α}
    (hlength : items.length = i + 1) (h : ∀ j < i, items[j]? = some z) :
    ∃ x, items = List.replicate i z ++ [x] := by
  obtain ⟨front, x, rfl⟩ : ∃ front x, items = front ++ [x] := by
    rcases List.eq_nil_or_concat items with rfl | ⟨front, x, hconcat⟩
    · cases hlength
    · exact ⟨front, x, hconcat.trans List.concat_eq_append⟩
  have hfront : front.length = i := by simpa using hlength
  refine ⟨x, congrArg (· ++ [x]) (List.eq_replicate_iff.mpr ⟨hfront, ?_⟩)⟩
  -- each element of the front is at a position before the last
  intro y hy
  obtain ⟨j, hj, rfl⟩ := List.getElem_of_mem hy
  have hz := h j (hfront ▸ hj)
  rw [List.getElem?_append_left hj, List.getElem?_eq_getElem hj] at hz
  exact Option.some.inj hz

/-- What an empty container has taken in is all that it holds. -/
theorem TakesIn.madeFor (hfresh : IsFresh t before) (h : TakesIn before t after) :
    MadeFor t after := by
  cases hfresh with
  | object hf =>
      cases h with
      | oldMember _ hfind _ _ => cases hfind
      | newMember _ _ hnames _ =>
          obtain ⟨member, rfl, hname⟩ := List.map_eq_singleton_iff.mp hnames
          obtain ⟨_, x⟩ := member
          cases hname
          exact .object _ x hf
  | list i =>
      cases h with
      | @element _ _ old new _ _ hblank hold hnew hlength _ hpadding =>
          cases hold
          obtain ⟨x, rfl⟩ := exists_eq_replicate_append (hlength.trans (Nat.zero_max _))
            fun j hj => hpadding j hj (Nat.zero_le j)
          cases after with
          | array flavour items =>
              cases hblank
              cases hnew
              exact .list i x
          | _ => cases hblank

/-! ### The way down -/

/-- The first container of a write. -/
theorem Passes.head (h : TakesIn before t after) : Passes before after [] t :=
  .old before after rfl rfl h

/-- What is passed below a child is passed below the container. -/
theorem Passes.cons (hs : container.step t = .ok child) (hs' : after.step t = .ok child')
    (h : Passes child child' us s) : Passes container after (t :: us) s := by
  cases h with
  | old x y hx hy htakes =>
      refine .old x y ?_ ?_ htakes
      · rw [follow_cons_of_step hs, hx]
      · rw [follow_cons_of_step hs', hy]
  | made y _ hmissing hy hmade =>
      refine .made y (List.cons_ne_nil t us) ?_ ?_ hmade
      · intro x hx
        rw [follow_cons_of_step hs] at hx
        exact hmissing x hx
      · rw [follow_cons_of_step hs', hy]

/-- What is passed below a container that the write has made was made as well. -/
theorem Passes.cons_fresh (ht : container.takes t = true) (hempty : container.slot t = .missing)
    (hs' : after.step t = .ok child') (h : Passes (container.fresh next) child' us s)
    (hnext : us = [] → s = next) : Passes container after (t :: us) s := by
  have hmissing (x : Value) (hx : container.follow (t :: us) = .ok x) : x = .missing :=
    eq_missing_of_slot hempty hx
  have hafter {y : Value} (hy : child'.follow us = .ok y) : after.follow (t :: us) = .ok y :=
    (follow_cons_of_step hs' us).trans hy
  cases h with
  | old x y hx hy htakes =>
      -- the new container is empty, so nothing but itself was there to be passed
      obtain ⟨rfl, rfl⟩ := follow_of_child?_eq_none (child?_fresh container next) hx
      obtain rfl := hnext rfl
      have hmade : MadeFor s y := htakes.madeFor (isFresh_fresh ht s)
      exact .made y (List.cons_ne_nil t []) hmissing (hafter hy) hmade
  | made y _ _ hy hmade => exact .made y (List.cons_ne_nil t us) hmissing (hafter hy) hmade

/-- A write that succeeds has passed a container before each of its tokens. -/
theorem passes_writeBelow (h : writeBelow limit v container t ts = ⟨after, none⟩)
    (hs : (t :: ts)[k]? = some s) : Passes container after ((t :: ts).take k) s := by
  -- on the number of containers that are passed; the tokens are taken apart along with it
  induction k generalizing container t ts after with
  | zero =>
      cases hs
      exact .head (takesIn_writeBelow h)
  | succ k ih =>
      rw [List.getElem?_cons_succ] at hs
      rw [List.take_succ_cons]
      cases ts with
      | nil => cases hs
      | cons next ts =>
          obtain ⟨grown, hr⟩ := exists_reserved_of_writeBelow h
          rcases untyped_or_typed container with hu | ⟨content, rfl⟩
          · have hstep := step_writeBelow v (next :: ts) hr hu
            obtain ⟨m, hm, _⟩ := (writeBelow_untyped_eq_iff hr hu).mp h
            rw [h, hm] at hstep
            have hbelow := ih hm hs
            rcases slotOrFresh_cases container t next with ⟨x, hx, _, heq⟩ | ⟨hmissing, heq⟩
            · -- the way goes on through what is stored there
              rw [heq] at hbelow
              exact hbelow.cons (step_eq_ok_iff.mpr ⟨hr.isLongRange_eq_false, hx⟩) hstep
            · -- the rest of the way is made by the write
              rw [heq] at hbelow
              apply hbelow.cons_fresh hr.takes (slot_eq_missing_iff.mpr hmissing) hstep
              intro htake
              cases k with
              | zero =>
                  cases hs
                  rfl
              | succ k => cases htake
          · obtain ⟨i, stored, _, hnil, _⟩ := exists_stored_of_writeBelow h
            cases hnil

/-! ### The whole write -/

/-- **The containers on the way of a write.** After a write that succeeds, each token of its pointer
has a container before it that takes it. It is the one that was there, of the same flavour and
element type, with the names that it had and the token behind them if it is a new name, or as long
as it was or as it takes to have the position; or, where nothing was stored, it is a new one that
holds nothing but the way and the padding before it. -/
theorem container_of_write {tree tree' : Value} {p : Pointer} {policy : Policy}
    (h : tree.write p v policy = (tree', none)) :
    ∀ k < p.depth, ∃ t after, p.tokens[k]? = some t ∧ tree'.read (p.upTo k) = .ok after ∧
      after.takes t = true ∧
      ((∃ before, tree.read (p.upTo k) = .ok before ∧ TakesIn before t after) ∨
        (k ≠ 0 ∧ (∀ x, tree.read (p.upTo k) = .ok x → x = .missing) ∧ MadeFor t after)) := by
  intro k hk
  obtain ⟨t, ts, c, hadmitted, hw⟩ := exists_admitted_of_write h
  obtain ⟨s, hs⟩ : ∃ s, p.tokens[k]? = some s := ⟨_, List.getElem?_eq_getElem hk⟩
  -- the container that the statement asks for has been passed
  have hpasses : Passes tree tree' (p.tokens.take k) s := by
    rw [hadmitted.tokens] at hs ⊢
    exact passes_writeBelow hw hs
  cases hpasses with
  | old before after hbefore hafter htakes =>
      exact ⟨s, after, hs, read_eq_ok_iff.mpr hafter, htakes.takes,
        .inl ⟨before, read_eq_ok_iff.mpr hbefore, htakes⟩⟩
  | made after hne hmissing hafter hmade =>
      refine ⟨s, after, hs, read_eq_ok_iff.mpr hafter, hmade.takes, .inr ⟨?_, ?_, hmade⟩⟩
      · rintro rfl
        exact hne rfl
      · intro x hx
        exact hmissing x (read_eq_ok_iff.mp hx)

/-- A write to `/a/3/x` of `{"a": [1], "b": null}` lets the list grow by padding and by an object,
which is made for the name. -/
theorem container_of_write_behind_padding :
    let items := Value.array .list [.int 1]
    let tree := Value.object .plain [(.text "a", items), (.text "b", .null)]
    let p : Pointer := { tokens := [.key "a", .index 2, .key "x"] }
    let made := Value.object .plain [(.text "x", .int 7)]
    let items' := Value.array .list [.int 1, .missing, made]
    let tree' := Value.object .plain [(.text "a", items'), (.text "b", .null)]
    tree.write p (.int 7) {} = (tree', none) ∧
    TakesIn tree (.key "a") tree' ∧ TakesIn items (.index 2) items' ∧ MadeFor (.key "x") made := by
  intro items tree p made items' tree'
  have h : tree.write p (.int 7) {} = (tree', none) := rfl
  refine ⟨h, ?_, ?_, ?_⟩
  · obtain ⟨t, after, ht, hafter, _, ⟨before, hbefore, htakes⟩ | ⟨hne, _⟩⟩ :=
      container_of_write h 0 (by decide)
    · cases ht
      cases hafter
      cases hbefore
      exact htakes
    · exact absurd rfl hne
  · obtain ⟨t, after, ht, hafter, _, ⟨before, hbefore, htakes⟩ | ⟨_, hmissing, _⟩⟩ :=
      container_of_write h 1 (by decide)
    · cases ht
      cases hafter
      cases hbefore
      exact htakes
    · exact absurd (hmissing items rfl) (by simp [items])
  · obtain ⟨t, after, ht, hafter, _, ⟨before, hbefore, _⟩ | ⟨_, _, hmade⟩⟩ :=
      container_of_write h 2 (by decide)
    · cases hbefore
    · cases ht
      cases hafter
      exact hmade

end Value
end JsonPointer
