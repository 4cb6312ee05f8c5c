import JsonPointer.Proofs.Constraints

/-!
# What a conversion keeps

A value is converted by one of three ways: `missing` has its null value, a value of the kind stays
as it is, and only for the others there is a conversion that makes a new value. The three agree:
what comes out is taken as it is the next time (`coerce?_of_hasKind`), and whatever could be read
below the value can be read below what was made of it.

The last is nearly always so because nothing can be read at all: of the values that are made anew,
only an array has something in it, and it becomes the list of its elements (`item?_of_items?`).
-/

namespace JsonPointer
namespace Value

variable {v r x : Value} {kind : Kind} {items : List Value} {t : Token} {ts : List Token}

/-! ### Taken as it is -/

/-- Only a pointer without a constraint takes `missing` as it is. -/
theorem nullValue_eq_missing_of_hasKind (h : Value.missing.hasKind kind = true) :
    kind.nullValue = .missing := by
  cases kind with
  | any => rfl
  | _ => cases h

/-- A value of the kind stays as it is, also `missing`, which is of no kind but `any`. -/
theorem coerce?_of_hasKind (h : r.hasKind kind = true) :
    coerce? kind r = some r ∧ r.isKept kind = true := by
  unfold coerce? isKept
  split
  · next hmissing =>
    obtain rfl := isMissing_iff.mp hmissing
    simp [nullValue_eq_missing_of_hasKind h, isMissing]
  · simp [h]

/-! ### The elements of an array -/

/-- The element at an offset is that of the list of the elements. -/
theorem item?_of_items? (h : v.items? = some items) (i : Nat) : v.item? i = items[i]? := by
  cases v with
  | array flavour xs =>
      obtain rfl : xs = items := Option.some.inj h
      rfl
  | typed content =>
      obtain rfl : content.values = items := Option.some.inj h
      rfl
  | range start stop step =>
      obtain rfl := Option.some.inj h
      rw [item?, List.getElem?_map]
      split
      · next hlt => simp [hlt]
      · next hle => simp [Nat.le_of_not_lt hle]
  | _ => cases h

theorem exists_items?_of_item? {i : Nat} (h : v.item? i = some x) :
    ∃ items, v.items? = some items ∧ items[i]? = some x := by
  cases hitems : v.items? with
  | some items => exact ⟨items, rfl, (item?_of_items? hitems i).symm.trans h⟩
  | none =>
      cases v with
      | array flavour xs => cases hitems
      | typed content => cases hitems
      | range start stop step => cases hitems
      | _ => cases h

/-- What can be read in an array can be read in the list of its elements. -/
theorem step_list_of_items? (h : v.items? = some items) (hx : v.step t = .ok x) :
    (Value.array .list items).step t = .ok x := by
  obtain ⟨_, hchild⟩ := step_eq_ok_iff.mp hx
  refine step_eq_ok_iff.mpr ⟨rfl, ?_⟩
  cases t with
  | index i => exact (item?_of_items? h i).symm.trans hchild
  | key name =>
      -- an array has no members
      cases v with
      | object flavour members => cases h
      | _ => cases hchild

/-! ### Reading below what was made -/

/-- A value that is not of the kind holds nothing, or it is an array that becomes a list. -/
theorem leaf_or_list_of_adapter? {f : Value → Option Value} (hf : kind.adapter? = some f)
    (hno : ¬ v.hasKind kind = true) (h : f v = some r) :
    (∀ t, v.child? t = none) ∧ v.items? = none ∨
      ∃ items, v.items? = some items ∧ r = .array .list items := by
  cases kind with
  | any => cases hf
  | number =>
      cases hf
      cases v with
      | decimal d => exact .inl ⟨fun t => by cases t <;> rfl, rfl⟩
      | int n => exact absurd rfl hno
      | float y => exact absurd rfl hno
      | fraction q => exact absurd rfl hno
      | _ => cases h
  | object =>
      cases hf
      cases v with
      | object flavour members => exact absurd rfl hno
      | _ => cases h
  | array =>
      cases hf
      change v.asList? = some r at h
      unfold asList? at h
      split at h
      · exact .inl ⟨fun t => by cases t <;> rfl, rfl⟩
      · obtain ⟨items, hitems, rfl⟩ := Option.map_eq_some_iff.mp h
        exact .inr ⟨items, hitems, rfl⟩
  | _ =>
      -- the other conversions take only what is of the kind
      cases hf
      cases v <;> first | exact absurd rfl hno | cases h

/-- What is below a value is below what it is converted to. -/
theorem follow_of_coerce? (hv : v ≠ .missing) (h : coerce? kind v = some r) (hts : ts ≠ [])
    (hx : v.follow ts = .ok x) : r.follow ts = .ok x := by
  rcases coerce?_cases h with ⟨hmissing, _⟩ | ⟨_, rfl⟩ | ⟨hno, f, hf, hr⟩
  · exact absurd hmissing hv
  · exact hx
  · rcases leaf_or_list_of_adapter? hf hno hr with ⟨hleaf, _⟩ | ⟨items, hitems, rfl⟩
    · -- nothing could be read below the value, so nothing is lost
      exact absurd hx (follow_ne_ok_of_child?_eq_none hleaf hts x)
    · obtain ⟨t, us, rfl⟩ := List.exists_cons_of_ne_nil hts
      obtain ⟨child, hstep, hchild⟩ := follow_cons_eq_ok_iff.mp hx
      rw [follow_cons_of_step (step_list_of_items? hitems hstep)]
      exact hchild

theorem items?_of_coerce? (hv : v ≠ .missing) (h : coerce? kind v = some r)
    (hitems : v.items? = some items) : r.items? = some items := by
  rcases coerce?_cases h with ⟨hmissing, _⟩ | ⟨_, rfl⟩ | ⟨hno, f, hf, hr⟩
  · exact absurd hmissing hv
  · exact hitems
  · rcases leaf_or_list_of_adapter? hf hno hr with ⟨_, hnone⟩ | ⟨items', hitems', rfl⟩
    · rw [hnone] at hitems
      cases hitems
    · exact hitems'.symm.trans hitems

/-! ### The whole conversion -/

/-- **What a conversion keeps.** What is stored for a value has the kind of the pointer, or it is
`missing` under `null`; it is stored for itself, the very value; and it has everything that can be
read below the value, in an array each element at its position. -/
theorem coerce_sound {p : Pointer} (h : v.coerce p = .ok r) :
    (r.hasKind p.kind = true ∨ (v = .missing ∧ p.kind = .null ∧ r = .missing)) ∧
    (r.coerce p = .ok r ∧ r.isKept p.kind = true) ∧
    (v ≠ .missing →
      (∀ q : Pointer, q.tokens ≠ [] → ∀ x, v.read q = .ok x → r.read q = .ok x) ∧
      (∀ items, v.items? = some items → r.items? = some items)) := by
  have hr := coerce_eq_ok_iff.mp h
  have hkind := hasKind_of_coerce? hr
  refine ⟨?_, ?_, ?_⟩
  · exact hkind.imp_right fun ⟨hnull, hv, hmissing⟩ => ⟨hv, hnull, hmissing⟩
  · rw [coerce_eq_ok_iff]
    rcases hkind with hkind | ⟨hnull, _, rfl⟩
    · exact coerce?_of_hasKind hkind
    · rw [hnull]
      exact ⟨rfl, rfl⟩
  · intro hv
    refine ⟨?_, fun items => items?_of_coerce? hv hr⟩
    intro q hq x hx
    rw [read_eq_ok_iff] at hx ⊢
    exact follow_of_coerce? hv hr hq hx

/-- The range of `2, 4` becomes a list under `array`, with both elements where they were. -/
theorem coerce_sound_of_range :
    let v := Value.range 2 6 2
    let r := Value.array .list [.int 2, .int 4]
    let p : Pointer := { tokens := [.key "a"], kind := .array }
    let q : Pointer := { tokens := [.index 1] }
    v.coerce p = .ok r ∧ r.hasKind .array = true ∧ r.coerce p = .ok r ∧
    v.read q = .ok (.int 4) ∧ r.read q = .ok (.int 4) := by
  intro v r p q
  have h : v.coerce p = .ok r := rfl
  have hx : v.read q = .ok (.int 4) := rfl
  obtain ⟨hkind, ⟨hagain, _⟩, hkeeps⟩ := coerce_sound h
  refine ⟨h, ?_, hagain, hx, ?_⟩
  · exact hkind.resolve_right fun hmissing => by simp [v] at hmissing
  · exact (hkeeps (by simp [v])).1 q (by simp [q]) _ hx

end Value
end JsonPointer
