import JsonPointer.Proofs.Lookup
import JsonPointer.Proofs.Obstacles
import JsonPointer.Proofs.WellFormed

/-!
# What stops a read and what stops a write

In a tree of plain objects, lists and scalars a write without a policy is stopped by what stops a
read, unless it can put there what is missing. A read ends where a token leads nowhere. If that is
for a member that the object does not have, an element behind the end of a list, or a place where
nothing is stored, a write makes what it needs; any other end of a read is a clash (`IsClash`), and
there the write ends as well, at the same container and token.

* `takes_eq_false_iff` — for one container, the two ways to classify a token that leads nowhere;
* `not_obstructs_of_follow` — what a read has passed is not in the way of a write, so that the first
  obstacle can only be where the read ends;
* `ClashesAt.told` — the two errors tell of a clash alike, or neither can show the container.
-/

namespace JsonPointer
namespace Value

/-- The value is made of plain objects, lists and values that hold no others. -/
inductive IsCommon : Value → Prop
  | scalar {v : Value} : v.isAtom = true → v.isArray = false → IsCommon v
  | list {items : List Value} : (∀ x ∈ items, IsCommon x) → IsCommon (.array .list items)
  | object {members : Members} : (∀ m ∈ members, IsCommon m.1) → (∀ m ∈ members, IsCommon m.2) →
      IsCommon (.object .plain members)

end Value

/-- The error is that a token does not fit the value that was reached. That value is stored there,
and it is not an object without such a member, nor an array without such an element. -/
def Error.IsClash (e : Error) : Prop :=
  e.errorClass = .pointerMismatch ∧ ∃ container t p, e.place? = some ⟨container, some t, p⟩ ∧
    container ≠ .missing ∧ ¬ (container.isObject = true ∧ ∃ name, t = .key name)

namespace Value

/-- The way of the pointer ends in a clash: at a container that is stored there, but is neither an
object that lacks a member of the name nor an array that lacks an element at the position. -/
structure ClashesAt (tree : Value) (p : Pointer) (container : Value) (t : Token) : Prop where
  ends : ∃ k, tree.EndsAt p k container t
  stored : container ≠ .missing
  noMember : ¬ (container.isObject = true ∧ ∃ name, t = .key name)
  noElement : ¬ (container.isArray = true ∧ ∃ i, t = .index i)

variable {tree container x y : Value} {t s : Token} {ts us : List Token} {fault : ReadFault}
  {items : List Value} {members : Members} {p : Pointer} {k j : Nat}

/-! ### Common values -/

theorem anyItem_eq_false_iff :
    hasTyped.anyItem items = false ↔ ∀ x ∈ items, x.hasTyped = false := by
  induction items with
  | nil => simp [hasTyped.anyItem]
  | cons item items ih => simp [hasTyped.anyItem, ih]

theorem anyMember_eq_false_iff : hasTyped.anyMember members = false ↔
    ∀ m ∈ members, m.1.hasTyped = false ∧ m.2.hasTyped = false := by
  induction members with
  | nil => simp [hasTyped.anyMember]
  | cons member members ih => simp [hasTyped.anyMember, ih]

/-- What holds no other values takes no tokens: nothing can be written even into a range. -/
theorem takes_of_isAtom (h : container.isAtom = true) (t : Token) :
    container.takes t = false := by
  cases container <;> cases t <;> first | rfl | cases h

/-- What holds no other values has no children, unless it is a range. -/
theorem child?_of_isAtom (h : container.isAtom = true) (harray : container.isArray = false)
    (t : Token) : container.child? t = none := by
  cases container with
  | range start stop step => cases harray
  | _ => cases t <;> first | rfl | cases h

theorem isObject_of_isAtom (h : container.isAtom = true) : container.isObject = false := by
  cases container <;> first | rfl | cases h

namespace IsCommon

theorem hasTyped_eq_false (h : container.IsCommon) : container.hasTyped = false := by
  induction h with
  | @scalar v hatom _ => cases v <;> first | rfl | cases hatom
  | list _ ih => exact anyItem_eq_false_iff.mpr ih
  | object _ _ ihnames ihvalues =>
      exact anyMember_eq_false_iff.mpr fun m hm => ⟨ihnames m hm, ihvalues m hm⟩

theorem of_child? (h : container.IsCommon) (hx : container.child? t = some x) : x.IsCommon := by
  cases h with
  | scalar hatom harray =>
      rw [child?_of_isAtom hatom harray] at hx
      cases hx
  | list hitems =>
      cases t with
      | key name => cases hx
      | index i => exact hitems x (List.mem_of_getElem? hx)
  | object _ hvalues =>
      cases t with
      | key name =>
          obtain ⟨member, hmember, rfl⟩ := Option.map_eq_some_iff.mp hx
          exact hvalues member (List.mem_of_find?_eq_some hmember)
      | index i => cases hx

theorem of_follow (h : tree.IsCommon) (hx : tree.follow ts = .ok x) : x.IsCommon := by
  induction ts generalizing tree with
  | nil =>
      cases hx
      exact h
  | cons t ts ih =>
      obtain ⟨child, hstep, hchild⟩ := follow_cons_eq_ok_iff.mp hx
      exact ih (h.of_child? (step_eq_ok_iff.mp hstep).2) hchild

/-- In a common value there are no ranges at all. -/
theorem isLongRange_eq_false (h : container.IsCommon) : container.isLongRange = false := by
  rcases h with ⟨_, harray⟩ | _ | _
  · cases container <;> first | rfl | cases harray
  · rfl
  · rfl

/-- All objects and arrays of a common value can be written to. -/
theorem takes_iff (h : container.IsCommon) : container.takes t = true ↔
    (container.isObject = true ∧ ∃ name, t = .key name) ∨
    (container.isArray = true ∧ ∃ i, t = .index i) := by
  rcases h with ⟨hatom, harray⟩ | _ | _
  · simp [takes_of_isAtom hatom, isObject_of_isAtom hatom, harray]
  · cases t with
    | key name => exact iff_of_false Bool.false_ne_true (by simp [isObject])
    | index i => exact iff_of_true rfl (.inr ⟨rfl, i, rfl⟩)
  · cases t with
    | key name => exact iff_of_true rfl (.inl ⟨rfl, name, rfl⟩)
    | index i => exact iff_of_false Bool.false_ne_true (by simp [isArray, length?])

/-- A token that leads on is taken. -/
theorem takes_of_step (h : container.IsCommon) (hx : container.step t = .ok x) :
    container.takes t = true := by
  obtain ⟨_, hchild⟩ := step_eq_ok_iff.mp hx
  cases t with
  | key name =>
      cases container with
      | object flavour members => exact h.takes_iff.mpr (.inl ⟨rfl, name, rfl⟩)
      | _ => cases hchild
  | index i =>
      have hlength := lt_length_of_child? hchild
      refine h.takes_iff.mpr (.inr ⟨?_, i, rfl⟩)
      unfold isArray
      cases hl : container.length? with
      | none =>
          rw [hl] at hlength
          cases hlength
      | some length => rfl

/-- A token that leads nowhere is refused by a write exactly if the read does not end behind an
array or at a member that an object does not have. -/
theorem takes_eq_false_iff (h : container.IsCommon) (hfault : StepFault container t fault) :
    container.takes t = false ↔ fault = .mismatch container t ∧
      ¬ (container.isObject = true ∧ ∃ name, t = .key name) := by
  rw [← Bool.not_eq_true, h.takes_iff]
  cases hfault with
  | @outOfBounds i length hlength _ =>
      have harray : container.isArray = true := by rw [isArray, hlength]; rfl
      simp [harray]
  | mismatch hno =>
      have hno : ¬ (container.isArray = true ∧ ∃ i, t = .index i) :=
        fun ⟨harray, i, hi⟩ => hno ⟨i, hi, harray⟩
      simp [hno]

/-- What a read has passed is not in the way of a write. -/
theorem not_obstructs_of_follow (h : tree.IsCommon) (hy : tree.follow (ts.take (k + 1)) = .ok y) :
    ¬ Obstructs tree ts k x t := by
  intro ho
  obtain ⟨hlt, rfl⟩ := List.getElem?_eq_some_iff.mp ho.token
  rw [List.take_succ_eq_append_getElem hlt, follow_append ho.reached] at hy
  obtain ⟨z, hstep, _⟩ := follow_cons_eq_ok_iff.mp hy
  have htakes := (h.of_follow ho.reached).takes_of_step hstep
  rw [ho.refuses] at htakes
  cases htakes

/-- Where a read ends is the only place that can be in the way of a write. -/
theorem obstructs_iff (h : tree.IsCommon) (hs : ts[k]? = some s)
    (hreached : tree.follow (ts.take k) = .ok container)
    (hlost : ∀ z, tree.follow (ts.take (k + 1)) ≠ .ok z) :
    Obstructs tree ts j x t ↔ j = k ∧ x = container ∧ t = s ∧ (k = 0 ∨ container ≠ .missing) ∧
      container.takes s = false := by
  constructor
  · intro ho
    obtain rfl : j = k := by
      rcases Nat.lt_trichotomy j k with hlt | heq | hgt
      · obtain ⟨y, hy⟩ := exists_follow_take_of_le hreached hlt
        exact absurd ho (h.not_obstructs_of_follow hy)
      · exact heq
      · obtain ⟨y, hy⟩ := exists_follow_take_of_le ho.reached hgt
        exact absurd hy (hlost y)
    obtain rfl : s = t := Option.some.inj (hs.symm.trans ho.token)
    obtain rfl : container = x := Except.ok.inj (hreached.symm.trans ho.reached)
    exact ⟨rfl, rfl, rfl, ho.stored, ho.refuses⟩
  · rintro ⟨rfl, rfl, rfl, hstored, hrefuses⟩
    exact ⟨hs, hreached, hstored, hrefuses⟩

/-- The error for a token that leads nowhere is a clash exactly if something is stored there that
does not take the token. -/
theorem isClash_iff (h : container.IsCommon) (hfault : StepFault container t fault) (p : Pointer) :
    (Error.read fault p).IsClash ↔ container ≠ .missing ∧ container.takes t = false := by
  rw [h.takes_eq_false_iff hfault]
  -- an index that is out of bounds is told by another error
  cases hfault with
  | outOfBounds _ _ => exact iff_of_false (fun hclash => by cases hclash.1) (by simp)
  | mismatch _ =>
      constructor
      · rintro ⟨_, container', t', p', hplace, hne, hno⟩
        cases hplace
        exact ⟨hne, rfl, hno⟩
      · rintro ⟨hne, _, hno⟩
        exact ⟨rfl, container, t, p, rfl, hne, hno⟩

theorem along_isLongRange (h : tree.IsCommon) (ts : List Token) :
    tree.Along ts (·.isLongRange = false) := by
  intro us x _ hx
  exact (h.of_follow hx).isLongRange_eq_false

/-- In a common tree a clash is a read that ends at a container that is stored there and refuses the
token. -/
theorem clashesAt_iff (h : tree.IsCommon) : tree.ClashesAt p container t ↔
    (∃ k, tree.EndsAt p k container t) ∧ container ≠ .missing ∧ container.takes t = false := by
  constructor
  · rintro ⟨⟨k, hends⟩, hne, hmember, helement⟩
    have hc := h.of_follow (read_eq_ok_iff.mp hends.reached)
    refine ⟨⟨k, hends⟩, hne, ?_⟩
    rw [← Bool.not_eq_true, hc.takes_iff]
    rintro (h | h)
    · exact hmember h
    · exact helement h
  · rintro ⟨⟨k, hends⟩, hne, hrefuses⟩
    have hc := h.of_follow (read_eq_ok_iff.mp hends.reached)
    rw [← Bool.not_eq_true, hc.takes_iff, not_or] at hrefuses
    exact ⟨⟨k, hends⟩, hne, hrefuses.1, hrefuses.2⟩

end IsCommon

/-! ### The whole write -/

/-- A way clashes at one token only. -/
theorem ClashesAt.unique (h : tree.ClashesAt p container t) (h' : tree.ClashesAt p x s) :
    x = container ∧ s = t := by
  obtain ⟨k, hends⟩ := h.ends
  obtain ⟨j, hends'⟩ := h'.ends
  exact (hends.unique hends').2

/-- The errors say that the way of the pointer ends at the same container and token, in a write and
in a read. -/
def ClashAlike (p : Pointer) (e e' : Error) : Prop :=
  e.errorClass = .structuralMismatch ∧ e'.IsClash ∧
    ∃ container t, e.place? = some ⟨container, some t, p⟩ ∧ e'.place? = some ⟨container, some t, p⟩

theorem exists_read_of_has (h : tree.has p = .ok true) : ∃ x, tree.read p = .ok x := by
  unfold has at h
  split at h
  · next x hx => exact ⟨x, read_eq_ok_iff.mpr hx⟩
  · cases h
  · cases h

/-- An error of a read that is a clash comes from one. -/
theorem exists_clashesAt_of_isClash {e : Error} (ht : tree.IsCommon)
    (hread : tree.read p = .error e) (he : e.IsClash) :
    ∃ container t, tree.ClashesAt p container t := by
  cases hfollow : tree.follow p.tokens with
  | ok x =>
      rw [read_eq_ok_iff.mpr hfollow] at hread
      cases hread
  | error fault =>
      obtain ⟨k, container, t, hends, hfault⟩ :=
        exists_endsAt (ht.along_isLongRange p.tokens) hfollow
      have hc := ht.of_follow (read_eq_ok_iff.mp hends.reached)
      obtain rfl : fault.at p = e := by
        rw [read, hfollow] at hread
        exact Except.error.inj hread
      -- an error whose text cannot be made is about no clash
      by_cases htell : IsTellable p container t
      · rw [hfault.at_of_isTellable htell, hc.isClash_iff hfault] at he
        exact ⟨container, t, ht.clashesAt_iff.mpr ⟨⟨k, hends⟩, he⟩⟩
      · rw [hfault.at_of_not_isTellable htell] at he
        cases he.1

/-- Where everything can be read there is no clash. -/
theorem not_clashesAt_of_follow (h : tree.follow p.tokens = .ok x) :
    ¬ ∃ container t, tree.ClashesAt p container t := by
  rintro ⟨container, t, ⟨k, hends⟩, _⟩
  obtain ⟨y, hy⟩ := exists_follow_take h (k + 1)
  exact hends.lost y (read_eq_ok_iff.mpr hy)

/-- What stands in the way of a write is stored there, also if it is the root. -/
theorem Obstructs.ne_missing (h : Obstructs tree ts k x t)
    (hroot : tree.isObject = true ∨ tree.isArray = true) : x ≠ .missing := by
  rcases h.stored with rfl | hne
  · obtain rfl : tree = x := Except.ok.inj h.reached
    rintro rfl
    rcases hroot with h | h <;> cases h
  · exact hne

/-- A write succeeds where a read does not end in a clash, and otherwise both find that the
container does not take the token. -/
theorem write_succeeds_or_clashes {c v : Value} (ht : tree.IsCommon)
    (hroot : tree.isObject = true ∨ tree.isArray = true) (hp : p.IsAddressable)
    (htokens : p.tokens ≠ []) (hv : v.coerce p = .ok c) :
    ((tree.write p v {}).2 = none ∧ ¬ ∃ container t, tree.ClashesAt p container t) ∨
    ∃ container t, ∃ fault : WriteFault, tree.ClashesAt p container t ∧
      (tree.write p v {}).2 = some (fault.at p) ∧
      (fault = .rootNotWritable container t ∨ fault = .mismatch container t) ∧
      tree.read p = .error ((ReadFault.mismatch container t).at p) := by
  have hobstacle := attempt_obstacle ht.hasTyped_eq_false hp htokens hv
  show ((tree.attempt p v {}).fault?.map _ = none ∧ _) ∨
    ∃ container t, ∃ fault : WriteFault, _ ∧ (tree.attempt p v {}).fault?.map _ = _ ∧ _
  -- a read that succeeds, and one that ends somewhere
  cases hfollow : tree.follow p.tokens with
  | ok x =>
      rcases hobstacle with ⟨hnone, _⟩ | ⟨k, y, t, _, hfirst, _⟩
      · exact .inl ⟨by rw [hnone]; rfl, not_clashesAt_of_follow hfollow⟩
      · -- the read has passed everything
        obtain ⟨z, hz⟩ := exists_follow_take hfollow (k + 1)
        exact absurd hfirst.toObstructs (ht.not_obstructs_of_follow hz)
  | error fault =>
      obtain ⟨k, container, t, hends, hfault⟩ :=
        exists_endsAt (ht.along_isLongRange p.tokens) hfollow
      have hreached := read_eq_ok_iff.mp hends.reached
      have hlost (z : Value) : tree.follow (p.tokens.take (k + 1)) ≠ .ok z :=
        fun hz => hends.lost z (read_eq_ok_iff.mpr hz)
      rcases hobstacle with ⟨hnone, hclear⟩ | ⟨k', y, s, fault', hfirst, hsome, hmismatch⟩
      · -- nothing stops the write: then the read has ended where something was missing
        refine .inl ⟨by rw [hnone]; rfl, ?_⟩
        rintro ⟨x, s, hclash⟩
        obtain ⟨⟨j, hends'⟩, hne, hrefuses⟩ := ht.clashesAt_iff.mp hclash
        exact hclear j x s
          ⟨hends'.token, read_eq_ok_iff.mp hends'.reached, .inr hne, hrefuses⟩
      · right
        have hne := hfirst.toObstructs.ne_missing hroot
        obtain ⟨rfl, rfl, rfl, _, hrefuses⟩ :=
          (ht.obstructs_iff hends.token hreached hlost).mp hfirst.toObstructs
        obtain ⟨rfl, _⟩ := ((ht.of_follow hreached).takes_eq_false_iff hfault).mp hrefuses
        refine ⟨y, s, fault', ht.clashesAt_iff.mpr ⟨⟨k', hends⟩, hne, hrefuses⟩, ?_, hmismatch, ?_⟩
        · rw [hsome]
          rfl
        · rw [read, hfollow]
          rfl

/-- The errors for a clash tell of it alike, or neither can show the container. -/
theorem ClashesAt.told {fault : WriteFault} (h : tree.ClashesAt p container t)
    (hp : p.IsAddressable)
    (hfault : fault = .rootNotWritable container t ∨ fault = .mismatch container t) :
    (container.isPrintable = true ∧
      ClashAlike p (fault.at p) ((ReadFault.mismatch container t).at p)) ∨
    (container.isPrintable = false ∧ fault.at p = .unprintable ∧
      (ReadFault.mismatch container t).at p = .unprintable) := by
  have hshown : fault.isPrintable = container.isPrintable := by rcases hfault with rfl | rfl <;> simp
  have hclass : fault.errorClass = .structuralMismatch := by rcases hfault with rfl | rfl <;> rfl
  cases hprint : container.isPrintable with
  | true =>
      rw [WriteFault.at_of_isPrintable hp.isPrintable (hshown.trans hprint),
        ReadFault.at_of_isPrintable hp.isPrintable (by simpa using hprint)]
      refine .inl ⟨rfl, hclass, ⟨rfl, container, t, p, rfl, h.stored, h.noMember⟩,
        container, t, ?_, rfl⟩
      rcases hfault with rfl | rfl <;> rfl
  | false =>
      have hsilent : fault.errorClass.isSilent = false := by rw [hclass]; rfl
      exact .inr ⟨rfl, WriteFault.at_of_not_isPrintable hsilent (by simp [hshown, hprint]),
        ReadFault.mismatch_at hprint⟩

/-- **Where reads and writes disagree with a tree.** In a tree of plain objects, lists and scalars,
whose root is an object or a list, a write without a policy of a value that fits the constraint
fails with a structural mismatch exactly if a read ends in the error for a clash, and then the
errors name the same container and token. It fails for no other reason than a clash, and never at a
place that is there. But a clash with a container that cannot be written is told by neither. -/
theorem write_fails_iff_read_clashes {c v : Value} (ht : tree.IsCommon)
    (hroot : tree.isObject = true ∨ tree.isArray = true) (hp : p.IsAddressable)
    (htokens : p.tokens ≠ []) (hv : v.coerce p = .ok c) :
    ((∃ e, (tree.write p v {}).2 = some e ∧ e.errorClass = .structuralMismatch) ↔
      ∃ e, tree.read p = .error e ∧ e.IsClash) ∧
    (∀ e, (tree.write p v {}).2 = some e → e.errorClass = .structuralMismatch →
      ∃ e', tree.read p = .error e' ∧ ClashAlike p e e') ∧
    ((tree.write p v {}).2 = none ↔ ¬ ∃ container t, tree.ClashesAt p container t) ∧
    (∀ container t, tree.ClashesAt p container t →
      (container.isPrintable = true →
        ∃ e, (tree.write p v {}).2 = some e ∧ e.errorClass = .structuralMismatch) ∧
      (container.isPrintable = false →
        (tree.write p v {}).2 = some .unprintable ∧ tree.read p = .error .unprintable)) ∧
    (tree.has p = .ok true → (tree.write p v {}).2 = none) := by
  rcases write_succeeds_or_clashes ht hroot hp htokens hv with
    ⟨hdone, hno⟩ | ⟨container, t, fault, hclash, hfails, hfault, hread⟩
  · have hnoclash : ¬ ∃ e, tree.read p = .error e ∧ e.IsClash :=
      fun ⟨e, hread, he⟩ => hno (exists_clashesAt_of_isClash ht hread he)
    refine ⟨iff_of_false (by simp [hdone]) hnoclash, by simp [hdone], iff_of_true hdone hno, ?_,
      fun _ => hdone⟩
    intro container t hclash
    exact absurd ⟨container, t, hclash⟩ hno
  · have hhas : tree.has p ≠ .ok true := by
      intro hhas
      obtain ⟨x, hx⟩ := exists_read_of_has hhas
      cases hread.symm.trans hx
    have hstops : ¬ ¬ ∃ container t, tree.ClashesAt p container t :=
      not_not_intro ⟨container, t, hclash⟩
    -- there is one clash, one error of the write and one of the read
    have htold := hclash.told hp hfault
    generalize fault.at p = e at hfails htold
    generalize (ReadFault.mismatch container t).at p = e' at hread htold
    have hsame {f : Error} (hf : (tree.write p v {}).2 = some f) : e = f :=
      Option.some.inj (hfails.symm.trans hf)
    have hsame' {f : Error} (hf : tree.read p = .error f) : e' = f :=
      Except.error.inj (hread.symm.trans hf)
    rcases htold with ⟨hprint, halike⟩ | ⟨hprint, rfl, rfl⟩
    · refine ⟨iff_of_true ⟨e, hfails, halike.1⟩ ⟨e', hread, halike.2.1⟩, ?_,
        iff_of_false (by simp [hfails]) hstops, ?_, fun hyes => absurd hyes hhas⟩
      · intro f hf _
        obtain rfl := hsame hf
        exact ⟨e', hread, halike⟩
      · intro container' t' h'
        obtain ⟨rfl, rfl⟩ := hclash.unique h'
        exact ⟨fun _ => ⟨e, hfails, halike.1⟩,
          fun hno => absurd (hprint.symm.trans hno) (by decide)⟩
    · have hother (f : Error) (hf : (tree.write p v {}).2 = some f) :
          f.errorClass ≠ .structuralMismatch := by
        obtain rfl := hsame hf
        exact ErrorClass.noConfusion
      have hnoclash : ¬ ∃ f, tree.read p = .error f ∧ f.IsClash := by
        rintro ⟨f, hf, hclash⟩
        obtain rfl := hsame' hf
        cases hclash.1
      refine ⟨iff_of_false (fun ⟨f, hf, hclass⟩ => hother f hf hclass) hnoclash,
        fun f hf hclass => absurd hclass (hother f hf), iff_of_false (by simp [hfails]) hstops, ?_,
        fun hyes => absurd hyes hhas⟩
      intro container' t' h'
      obtain ⟨rfl, rfl⟩ := hclash.unique h'
      exact ⟨fun hyes => absurd (hprint.symm.trans hyes) (by decide), fun _ => ⟨hfails, hread⟩⟩

/-- In `{"a": [{"x": 1}]}` both a read and a write at `/a/1/x/y` end at the number. -/
theorem write_fails_iff_read_clashes_at_number :
    let tree := Value.object .plain
      [(.text "a", .array .list [.object .plain [(.text "x", .int 1)]])]
    let p : Pointer := { tokens := [.key "a", .index 0, .key "x", .key "y"] }
    tree.IsCommon ∧ tree.isObject = true ∧ p.IsAddressable ∧ p.tokens ≠ [] ∧
    Value.null.coerce p = .ok .null ∧ tree.ClashesAt p (.int 1) (.key "y") ∧
    ∃ e e', (tree.write p .null {}).2 = some e ∧ tree.read p = .error e' ∧ ClashAlike p e e' := by
  intro tree p
  have htext (s : String) : (Value.text s).IsCommon := .scalar rfl rfl
  have hitem : (Value.object .plain [(.text "x", .int 1)]).IsCommon := by
    refine .object ?_ ?_
    · simpa using htext "x"
    · simpa using IsCommon.scalar (v := .int 1) rfl rfl
  have ht : tree.IsCommon := by
    refine .object ?_ ?_
    · simpa [tree] using htext "a"
    · simpa using IsCommon.list (by simpa using hitem)
  have hp : p.IsAddressable := by
    intro offset h
    obtain rfl : offset = 0 := by simpa [p] using h
    decide
  have htokens : p.tokens ≠ [] := List.cons_ne_nil _ _
  have hv : Value.null.coerce p = .ok .null := rfl
  have hends : tree.EndsAt p 3 (.int 1) (.key "y") := ⟨rfl, rfl, fun _ hx => by cases hx⟩
  have hclash : tree.ClashesAt p (.int 1) (.key "y") :=
    ⟨⟨3, hends⟩, Value.noConfusion, by simp [isObject], by simp⟩
  obtain ⟨_, halike, _, htold, _⟩ := write_fails_iff_read_clashes ht (.inl rfl) hp htokens hv
  obtain ⟨e, hfails, hclass⟩ := (htold _ _ hclash).1 (by decide +kernel)
  obtain ⟨e', hread, hsame⟩ := halike e hfails hclass
  exact ⟨ht, rfl, hp, htokens, hv, hclash, e, e', hfails, hread, hsame⟩

/-- In `{"a": [10 ^ 4300]}` both a read and a write at `/a/b` end at the list. But neither error is
about that, as its text would have to show the number in it. -/
theorem write_fails_without_structuralMismatch :
    let holder := Value.array .list [.int (tenPow Digits.maxDigits)]
    let tree := Value.object .plain [(.text "a", holder)]
    let p : Pointer := { tokens := [.key "a", .key "b"] }
    tree.IsCommon ∧ tree.isObject = true ∧ p.IsAddressable ∧ p.tokens ≠ [] ∧
    (Value.int 1).coerce p = .ok (.int 1) ∧
    (¬ ∃ e, tree.read p = .error e ∧ .pointerMismatch ∈ e.errorClass.lineage) ∧
    ∃ e, (tree.write p (.int 1) {}).2 = some e ∧ e.errorClass ≠ .structuralMismatch := by
  intro holder tree p
  have hitems : holder.IsCommon := by
    refine .list fun x hx => ?_
    obtain rfl := List.mem_singleton.mp hx
    exact .scalar rfl rfl
  have ht : tree.IsCommon := by
    refine .object (fun m hm => ?_) (fun m hm => ?_)
    · obtain rfl := List.mem_singleton.mp hm
      exact .scalar rfl rfl
    · obtain rfl := List.mem_singleton.mp hm
      exact hitems
  have hp : p.IsAddressable := by
    intro offset h
    simp [p] at h
  have hholder : holder.isPrintable = false := by
    rw [← Bool.not_eq_true, isPrintable_array_iff]
    intro h
    have hnumber := h _ (List.mem_singleton.mpr rfl)
    exact absurd (Digits.isPrintable_tenPow.symm.trans hnumber) Bool.false_ne_true
  have hread : tree.read p = .error .unprintable :=
    congrArg Except.error (ReadFault.mismatch_at hholder)
  have hwrite : (tree.write p (.int 1) {}).2 = some .unprintable :=
    congrArg some (WriteFault.mismatch_at hholder)
  refine ⟨ht, rfl, hp, List.cons_ne_nil _ _, rfl, ?_, _, hwrite, ErrorClass.noConfusion⟩
  rintro ⟨e, he, hlineage⟩
  obtain rfl := Except.error.inj (hread.symm.trans he)
  revert hlineage
  decide

end Value
end JsonPointer
