import JsonPointer.Proofs.Conversion
import JsonPointer.Proofs.Locality
import JsonPointer.Proofs.RoundTrip

/-!
# Where a read ends

The three ways to ask for a place agree: `has` says whether `read` answers, and `readD` answers its
default where `read` does not. A read that does not answer has come to an end at one token, before
which the way leads to a container and with which it leads nowhere; the error names both
(`Error.Locates`).

* `stepFault_of_step` — what the error says of one container and one token;
* `exists_endsAt` — the token at which the way ends, found by going along the tokens;
* `EndsAt.index_unique` — there is no other, as every beginning of a way that leads somewhere does.

An error also names the whole pointer, and shows the container unless that is an array that is too
short. Neither may hold a number of too many digits: what cannot be written cannot be told
(`IsTellable`), so there the error is another one, and `readD` answers it too.
-/

namespace JsonPointer

def Pointer.upTo (p : Pointer) (k : Nat) : Pointer := { tokens := p.tokens.take k }

theorem Pointer.not_isPrintable_of_mem {p : Pointer} (h : greatestIndex ∈ p.tokens) :
    ¬ p.IsPrintable := by
  intro hp
  have hlt := hp greatestIndex h
  rw [greatestIndex, isPrintable_index_iff, eq_greatestIndex_iff.mp rfl] at hlt
  exact Nat.lt_irrefl _ hlt

namespace Value

/-- The way of the pointer ends at the token `t`, the `k`-th: those before it lead to the container,
and it leads no further. -/
structure EndsAt (tree : Value) (p : Pointer) (k : Nat) (container : Value) (t : Token) : Prop where
  token : p.tokens[k]? = some t
  reached : tree.read (p.upTo k) = .ok container
  lost : ∀ x, tree.read (p.upTo (k + 1)) ≠ .ok x

end Value

/-- The error says that the way of the pointer ends in the container, at the token. It is one of
bounds exactly if an array is too short for a position. -/
structure Error.Locates (e : Error) (p : Pointer) (container : Value) (t : Token) : Prop where
  place : e.place? = some ⟨container, some t, p⟩
  lineage : .pointerMismatch ∈ e.errorClass.lineage
  errorClass : (e.errorClass = .pointerBounds ∧
      ∃ i length, t = .index i ∧ container.length? = some length ∧ length ≤ i) ∨
    (e.errorClass = .pointerMismatch ∧ ¬ ∃ i, t = .index i ∧ container.isArray = true)

namespace Value

/-- Can an error tell that the way of the pointer ends in the container, at the token? It shows the
pointer and the container, but of an array that is asked for a position only its length. -/
def IsTellable (p : Pointer) (container : Value) (t : Token) : Prop :=
  p.IsPrintable ∧ (container.isPrintable = true ∨ ∃ i, t = .index i ∧ container.isArray = true)

variable {tree container x : Value} {t : Token} {ts us : List Token} {fault : ReadFault}
  {p : Pointer} {k : Nat}

/-! ### One token -/

theorem length?_eq (v : Value) : v.length? = v.items?.map List.length := by
  cases v <;> simp [length?, items?]

/-- An array holds elements at the positions below its length only. -/
theorem item?_eq_none_iff {length i : Nat} (h : container.length? = some length) :
    container.item? i = none ↔ length ≤ i := by
  rw [length?_eq] at h
  obtain ⟨items, hitems, rfl⟩ := Option.map_eq_some_iff.mp h
  rw [item?_of_items? hitems, List.getElem?_eq_none_iff]

/-- What goes wrong with a token that leads nowhere. -/
inductive StepFault (container : Value) : Token → ReadFault → Prop
  | outOfBounds {i length : Nat} : container.length? = some length → length ≤ i →
      StepFault container (.index i) (.outOfBounds container i)
  | mismatch {t : Token} : (¬ ∃ i, t = .index i ∧ container.isArray = true) →
      StepFault container t (.mismatch container t)

/-- A step that fails has the fault that fits the container and the token. -/
theorem stepFault_of_step (hrange : container.isLongRange = false)
    (h : container.step t = .error fault) : StepFault container t fault := by
  cases t with
  | key name =>
      rw [step] at h
      split at h <;> cases h
      exact .mismatch (by simp)
  | index i =>
      rw [step, if_neg (by simp [hrange])] at h
      split at h
      · cases h
      · next hitem =>
        split at h <;> cases h
        · next harray =>
          obtain ⟨length, hlength⟩ := Option.isSome_iff_exists.mp harray
          exact .outOfBounds hlength ((item?_eq_none_iff hlength).mp hitem)
        · next harray => exact .mismatch (by simpa using harray)

/-- The error for the fault names the container and the token. -/
theorem StepFault.locates (h : StepFault container t fault) (p : Pointer) :
    (Error.read fault p).Locates p container t := by
  cases h with
  | @outOfBounds i length hlength hle =>
      exact ⟨rfl, by simp [Error.errorClass, ReadFault.errorClass, ErrorClass.lineage],
        .inl ⟨rfl, i, length, rfl, hlength, hle⟩⟩
  | mismatch hno =>
      exact ⟨rfl, by simp [Error.errorClass, ReadFault.errorClass, ErrorClass.lineage],
        .inr ⟨rfl, hno⟩⟩

/-! ### Along the tokens -/

/-- The beginning of a way that leads somewhere leads somewhere. -/
theorem exists_follow_of_append (h : tree.follow (ts ++ us) = .ok x) :
    ∃ y, tree.follow ts = .ok y := by
  induction ts generalizing tree with
  | nil => exact ⟨tree, rfl⟩
  | cons t ts ih =>
      rw [List.cons_append] at h
      obtain ⟨child, hstep, hchild⟩ := follow_cons_eq_ok_iff.mp h
      obtain ⟨y, hy⟩ := ih hchild
      exact ⟨y, (follow_cons_of_step hstep ts).trans hy⟩

theorem exists_follow_take (h : tree.follow ts = .ok x) (k : Nat) :
    ∃ y, tree.follow (ts.take k) = .ok y := by
  rw [← List.take_append_drop k ts] at h
  exact exists_follow_of_append h

/-- What more tokens lead to, fewer tokens lead on the way to. -/
theorem exists_follow_take_of_le {j : Nat} (h : tree.follow (ts.take k) = .ok x) (hjk : j ≤ k) :
    ∃ y, tree.follow (ts.take j) = .ok y := by
  obtain ⟨y, hy⟩ := exists_follow_take h j
  rw [List.take_take, Nat.min_eq_left hjk] at hy
  exact ⟨y, hy⟩

/-- A way that leads nowhere has come to a container and a token that leads no further. -/
theorem exists_step_of_follow (hrange : tree.Along ts (·.isLongRange = false))
    (h : tree.follow ts = .error fault) :
    ∃ k container t, ts[k]? = some t ∧ tree.follow (ts.take k) = .ok container ∧
      (∀ x, tree.follow (ts.take (k + 1)) ≠ .ok x) ∧ StepFault container t fault := by
  -- along the tokens, up to the one that leads nowhere
  induction ts generalizing tree with
  | nil => cases h
  | cons t ts ih =>
      cases hstep : tree.step t with
      | error fault' =>
          -- the way ends right here
          rw [follow, hstep] at h
          cases h
          refine ⟨0, tree, t, rfl, rfl, ?_, stepFault_of_step hrange.head hstep⟩
          intro x hx
          obtain ⟨child, hchild, _⟩ := follow_cons_eq_ok_iff.mp hx
          rw [hstep] at hchild
          cases hchild
      | ok child =>
          -- it goes on in the child, and there it ends
          rw [follow_cons_of_step hstep] at h
          obtain ⟨k, container, s, hs, hreached, hlost, hfault⟩ := ih (hrange.tail hstep) h
          refine ⟨k + 1, container, s, hs, ?_, ?_, hfault⟩
          · rw [List.take_succ_cons, follow_cons_of_step hstep]
            exact hreached
          · intro x
            rw [List.take_succ_cons, follow_cons_of_step hstep]
            exact hlost x

/-! ### Along a pointer -/

/-- A read that fails has come to an end at a token. -/
theorem exists_endsAt (hrange : tree.Along p.tokens (·.isLongRange = false))
    (h : tree.follow p.tokens = .error fault) :
    ∃ k container t, tree.EndsAt p k container t ∧ StepFault container t fault := by
  obtain ⟨k, container, t, ht, hreached, hlost, hfault⟩ := exists_step_of_follow hrange h
  refine ⟨k, container, t, ⟨ht, read_eq_ok_iff.mpr hreached, ?_⟩, hfault⟩
  intro x hx
  exact hlost x (read_eq_ok_iff.mp hx)

theorem exists_read_upTo {j : Nat} (h : tree.read (p.upTo k) = .ok x) (hjk : j ≤ k) :
    ∃ y, tree.read (p.upTo j) = .ok y := by
  obtain ⟨y, hy⟩ := exists_follow_take_of_le (read_eq_ok_iff.mp h) hjk
  exact ⟨y, read_eq_ok_iff.mpr hy⟩

/-- A way ends at one token only. -/
theorem EndsAt.index_unique {container' : Value} {t' : Token} {j : Nat}
    (h : tree.EndsAt p k container t) (h' : tree.EndsAt p j container' t') : j = k := by
  -- the later end would be reached past the earlier one
  rcases Nat.lt_trichotomy j k with hlt | heq | hgt
  · obtain ⟨y, hy⟩ := exists_read_upTo h.reached hlt
    exact absurd hy (h'.lost y)
  · exact heq
  · obtain ⟨y, hy⟩ := exists_read_upTo h'.reached hgt
    exact absurd hy (h.lost y)

/-- There is one end, with one container and one token. -/
theorem EndsAt.unique {container' : Value} {t' : Token} {j : Nat}
    (h : tree.EndsAt p k container t) (h' : tree.EndsAt p j container' t') :
    j = k ∧ container' = container ∧ t' = t := by
  obtain rfl := h.index_unique h'
  exact ⟨rfl, Except.ok.inj (h'.reached.symm.trans h.reached),
    Option.some.inj (h'.token.symm.trans h.token)⟩

/-! ### The three ways to ask -/

theorem readD_of_read (h : tree.read p = .ok x) (default : Value) :
    tree.readD p default = .ok x := by
  rw [readD, h]

/-- The text of the fault shows the container, unless an array is too short. -/
theorem StepFault.isPrintable_iff (h : StepFault container t fault) :
    fault.isPrintable = true ↔
      container.isPrintable = true ∨ ∃ i, t = .index i ∧ container.isArray = true := by
  cases h with
  | @outOfBounds i length hlength _ =>
      have harray : container.isArray = true := Option.isSome_of_eq_some hlength
      exact iff_of_true rfl (.inr ⟨i, rfl, harray⟩)
  | mismatch hno => simp [hno]

/-- The fault of a token that leads nowhere is told. -/
theorem StepFault.at_of_isTellable (h : StepFault container t fault)
    (htell : IsTellable p container t) : fault.at p = .read fault p :=
  ReadFault.at_of_isPrintable htell.1 (h.isPrintable_iff.mpr htell.2)

/-- Where that cannot be, the error is about the text. -/
theorem StepFault.at_of_not_isTellable (h : StepFault container t fault)
    (htell : ¬ IsTellable p container t) : fault.at p = .unprintable := by
  refine ReadFault.at_of_not_isPrintable (by cases h <;> rfl) ?_
  rintro ⟨hp, hprint⟩
  exact htell ⟨hp, h.isPrintable_iff.mp hprint⟩

theorem StepFault.has_eq (h : StepFault container t fault)
    (hfollow : tree.follow p.tokens = .error fault) : tree.has p = .ok false := by
  rw [has, hfollow]
  cases h <;> rfl

theorem StepFault.readD_eq (h : StepFault container t fault)
    (hread : tree.read p = .error (.read fault p)) (default : Value) :
    tree.readD p default = .ok default := by
  rw [readD, hread]
  cases h <;> rfl

/-- **Where a read ends.** On a way without ranges that are too long to be counted, `has` always
answers, and says whether `read` does. If it does, the same is said of the parent, and `readD`
answers the same value. If it does not, there is one token at which the way ends. The error tells it
together with the container, and `readD` answers its default; only where it cannot be told, because
the pointer or the container cannot be written, the error is the one for that, and `readD` answers
it as well. -/
theorem read_located (hrange : tree.Along p.tokens (·.isLongRange = false)) :
    (∃ b, tree.has p = .ok b ∧ (b = true ↔ ∃ x, tree.read p = .ok x)) ∧
    (∀ x, tree.read p = .ok x →
      tree.has p.parent = .ok true ∧ ∀ default, tree.readD p default = .ok x) ∧
    (∀ e, tree.read p = .error e →
      ∃ k container t, tree.EndsAt p k container t ∧
        (∀ j container' t', tree.EndsAt p j container' t' → j = k) ∧
        (IsTellable p container t → e.Locates p container t ∧
          ∀ default, tree.readD p default = .ok default) ∧
        (¬ IsTellable p container t → e = .unprintable ∧
          ∀ default, tree.readD p default = .error .unprintable)) := by
  -- either the way leads somewhere, or it has an end
  cases hfollow : tree.follow p.tokens with
  | ok x =>
      have hread : tree.read p = .ok x := read_eq_ok_iff.mpr hfollow
      refine ⟨⟨true, ?_, by simp [hread]⟩, ?_, ?_⟩
      · rw [has, hfollow]
      · intro y hy
        refine ⟨?_, readD_of_read hy⟩
        obtain ⟨z, hz⟩ := exists_follow_take hfollow (p.tokens.length - 1)
        rw [← List.dropLast_eq_take] at hz
        rw [has, Pointer.parent, hz]
      · intro e he
        rw [hread] at he
        cases he
  | error fault =>
      obtain ⟨k, container, t, hends, hfault⟩ := exists_endsAt hrange hfollow
      have hread : tree.read p = .error (fault.at p) := by
        rw [read, hfollow]
        rfl
      refine ⟨⟨false, hfault.has_eq hfollow, by simp [hread]⟩, ?_, ?_⟩
      · intro x hx
        rw [hread] at hx
        cases hx
      · intro e he
        obtain rfl := Except.error.inj (hread.symm.trans he)
        refine ⟨k, container, t, hends, fun j _ _ hj => hends.index_unique hj, ?_, ?_⟩
        · intro htell
          rw [hfault.at_of_isTellable htell] at hread ⊢
          exact ⟨hfault.locates p, hfault.readD_eq hread⟩
        · intro htell
          rw [hfault.at_of_not_isTellable htell] at hread ⊢
          refine ⟨rfl, fun default => ?_⟩
          rw [readD, hread]

/-- A read at `/a/2/3` of `{"a": [0, (1, 2)]}` ends in the tuple, which is too short. -/
theorem read_located_in_tuple :
    let holder := Value.array .tuple [.int 1, .int 2]
    let tree := Value.object .plain [(.text "a", .array .list [.int 0, holder])]
    let p : Pointer := { tokens := [.key "a", .index 1, .index 2] }
    tree.Along p.tokens (·.isLongRange = false) ∧ tree.has p = .ok false ∧
    ∃ e, tree.read p = .error e ∧ tree.EndsAt p 2 holder (.index 2) ∧
      e.Locates p holder (.index 2) ∧ ∀ default, tree.readD p default = .ok default := by
  intro holder tree p
  have hrange : tree.Along p.tokens (·.isLongRange = false) := by
    intro us x hus hx
    have hprefix : us = [] ∨ us = [.key "a"] ∨ us = [.key "a", .index 1] ∨ us = p.tokens := by
      simpa [p] using (List.mem_inits us p.tokens).mpr hus
    rcases hprefix with rfl | rfl | rfl | rfl <;> cases hx <;> rfl
  have hp : p.IsPrintable := by
    apply Pointer.IsAddressable.isPrintable
    intro offset h
    have hoffset : offset = 1 ∨ offset = 2 := by simpa [p] using h
    rcases hoffset with rfl | rfl <;> decide
  obtain ⟨_, _, herror⟩ := read_located hrange
  obtain ⟨k, container, t, hends, _, htold, _⟩ := herror _ rfl
  have hhere : tree.EndsAt p 2 holder (.index 2) := ⟨rfl, rfl, fun _ hx => by cases hx⟩
  -- the token that the theorem finds is this one
  obtain ⟨rfl, rfl, rfl⟩ := hhere.unique hends
  obtain ⟨hlocates, hdefault⟩ := htold ⟨hp, .inr ⟨2, rfl, rfl⟩⟩
  exact ⟨hrange, rfl, _, rfl, hhere, hlocates, hdefault⟩

/-- In an empty object nothing can be read at the greatest position, and `has` says so. But the
error is not one about that, and `readD` does not answer its default. -/
theorem readD_ne_default :
    let tree := Value.object .plain []
    let p : Pointer := { tokens := [Pointer.greatestIndex] }
    tree.has p = .ok false ∧
    (∃ e, tree.read p = .error e ∧ .pointerMismatch ∉ e.errorClass.lineage) ∧
    ∀ default, tree.readD p default ≠ .ok default := by
  intro tree p
  have hp : ¬ p.IsPrintable := Pointer.not_isPrintable_of_mem (List.mem_singleton.mpr rfl)
  have hread : tree.read p = .error .unprintable := by
    have hat : (ReadFault.mismatch tree Pointer.greatestIndex).at p = .unprintable :=
      ReadFault.at_of_not_isPrintable rfl fun htell => hp htell.1
    exact congrArg Except.error hat
  refine ⟨rfl, ⟨_, hread, by decide⟩, ?_⟩
  intro default h
  rw [readD, hread] at h
  cases h

end Value
end JsonPointer
