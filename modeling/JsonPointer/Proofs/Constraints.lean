import JsonPointer.Proofs.Written

/-!
# What a constraint says about what is stored

Under a constraint, a value is converted before the write goes down, and the container at its end
may make something else of it. So it takes two steps that what is read afterwards has the kind of
the pointer: a conversion gives a value of the kind (`hasKind_of_coerce?`), and the element that a
typed array has for a value is of the kinds that the value is of (`IsElementFor.hasKind`). Truth
values are the exception: an array of numbers keeps them as the numbers zero and one.
-/

namespace JsonPointer

open FloatFormat

namespace Value

variable {kind : Kind} {v c : Value}

/-! ### Conversions -/

theorem hasKind_of_asString? (h : v.asString? = some c) : c.hasKind .string = true := by
  cases v with
  | text s =>
      cases h
      rfl
  | _ => cases h

theorem hasKind_of_asBoolean? (h : v.asBoolean? = some c) : c.hasKind .boolean = true := by
  cases v with
  | bool b =>
      cases h
      rfl
  | _ => cases h

theorem hasKind_of_asNull? (h : v.asNull? = some c) : c.hasKind .null = true := by
  cases v with
  | null =>
      cases h
      rfl
  | _ => cases h

theorem hasKind_of_asNumber? (h : v.asNumber? = some c) : c.hasKind .number = true := by
  cases v with
  | int n =>
      cases h
      rfl
  | float x =>
      cases h
      rfl
  | fraction r =>
      simp only [asNumber?] at h
      split at h <;> cases h
      rfl
  | decimal d =>
      obtain ⟨x, _, rfl⟩ := Option.map_eq_some_iff.mp h
      rfl
  | _ => cases h

theorem hasKind_of_asObject? (h : v.asObject? = some c) : c.hasKind .object = true := by
  cases v with
  | object flavour members =>
      obtain ⟨plain, _, rfl⟩ := Option.map_eq_some_iff.mp h
      rfl
  | _ => cases h

theorem hasKind_of_asList? (h : v.asList? = some c) : c.hasKind .array = true := by
  unfold asList? at h
  split at h
  · cases h
    rfl
  · obtain ⟨items, _, rfl⟩ := Option.map_eq_some_iff.mp h
    rfl

/-- A conversion to a kind gives a value of the kind. -/
theorem hasKind_of_adapter? {f : Value → Option Value} (hf : kind.adapter? = some f)
    (h : f v = some c) : c.hasKind kind = true := by
  cases kind with
  | any => cases hf
  | string =>
      cases hf
      exact hasKind_of_asString? h
  | number =>
      cases hf
      exact hasKind_of_asNumber? h
  | object =>
      cases hf
      exact hasKind_of_asObject? h
  | array =>
      cases hf
      exact hasKind_of_asList? h
  | boolean =>
      cases hf
      exact hasKind_of_asBoolean? h
  | null =>
      cases hf
      exact hasKind_of_asNull? h

/-- The null value of a kind is of the kind, apart from that of `null`. -/
theorem hasKind_nullValue (hkind : kind ≠ .null) : kind.nullValue.hasKind kind = true := by
  cases kind with
  | null => exact absurd rfl hkind
  | _ => rfl

/-- What is stored under a constraint meets it, unless `missing` is stored under `null`. -/
theorem hasKind_of_coerce? (h : coerce? kind v = some c) :
    c.hasKind kind = true ∨ kind = .null ∧ v = .missing ∧ c = .missing := by
  rcases coerce?_cases h with ⟨hv, rfl⟩ | ⟨hkind, rfl⟩ | ⟨_, f, hf, hc⟩
  · by_cases hkind : kind = .null
    · subst hkind
      exact .inr ⟨rfl, hv, rfl⟩
    · exact .inl (hasKind_nullValue hkind)
  · exact .inl hkind
  · exact .inl (hasKind_of_adapter? hf hc)

/-! ### Elements -/

/-- A value that stands for a number is of the kind of numbers, or it is a truth value. -/
theorem kind_of_number? {number : Exact} (hnumber : c.number? = some number)
    (hc : c.hasKind kind = true) :
    kind = .any ∨ kind = .number ∨ kind = .boolean ∧ ∃ b, c = .bool b := by
  -- no number is of one of the other kinds
  cases kind with
  | any => exact .inl rfl
  | number => exact .inr (.inl rfl)
  | boolean =>
      cases c with
      | bool b => exact .inr (.inr ⟨rfl, b, rfl⟩)
      | _ => cases hc
  | _ => cases c <;> simp_all [hasKind, number?]

end Value

namespace TypedArray

variable {content : TypedArray} {c e : Value} {kind : Kind} {b : Bool}

/-- An element is the value that it is the element for, or both stand for numbers. -/
theorem IsElementFor.eq_or_number (h : content.IsElementFor c e) :
    e = c ∨ (∃ number, c.number? = some number) ∧ e.hasKind .number = true := by
  cases content with
  | chars items => exact .inl h
  | ints format items =>
      obtain ⟨n, rfl, _, hnumber⟩ := h
      exact .inr ⟨⟨_, hnumber⟩, rfl⟩
  | floats single items =>
      cases single with
      | false =>
          obtain ⟨number, x, rfl, hnumber, _⟩ := h
          exact .inr ⟨⟨number, hnumber⟩, rfl⟩
      | true =>
          obtain ⟨number, _, y, rfl, hnumber, _⟩ := h
          exact .inr ⟨⟨number, hnumber⟩, rfl⟩

/-- The element for a value is of the kinds of the value, except for a truth value. -/
theorem IsElementFor.hasKind (h : content.IsElementFor c e) (hc : c.hasKind kind = true) :
    e.hasKind kind = true ∨ kind = .boolean ∧ ∃ b, c = .bool b := by
  rcases h.eq_or_number with rfl | ⟨⟨number, hnumber⟩, he⟩
  · exact .inl hc
  · rcases Value.kind_of_number? hnumber hc with rfl | rfl | hbool
    · exact .inl rfl
    · exact .inl he
    · exact .inr hbool

/-- No element stands for `missing`. -/
theorem IsElementFor.eq_missing (h : content.IsElementFor .missing e) : e = .missing := by
  rcases h.eq_or_number with rfl | ⟨⟨number, hnumber⟩, _⟩
  · rfl
  · cases hnumber

/-- The element for a truth value is the number that it stands for. -/
theorem IsElementFor.number?_eq (h : content.IsElementFor (.bool b) e) :
    e.number? = (Value.bool b).number? := by
  -- zero and one are values of both formats
  have hdouble := Double.represents_bit (k := 52) isProper_double (by decide) b
  have hsingle := Double.represents_bit (k := 23) isProper_single (by decide) b
  cases content with
  | chars items =>
      obtain rfl : e = .bool b := h
      rfl
  | ints format items =>
      obtain ⟨n, rfl, _, hnumber⟩ := h
      exact hnumber.symm
  | floats single items =>
      cases single with
      | false =>
          obtain ⟨number, x, rfl, hnumber, hx⟩ := h
          cases hnumber
          exact congrArg some (hx.exact_eq hdouble)
      | true =>
          obtain ⟨number, x, y, rfl, hnumber, hx, hy⟩ := h
          cases hnumber
          -- single precision is reached through the double, which is the number already
          rw [hx.exact_eq hdouble] at hy
          exact congrArg some (hy.exact_eq hsingle)

end TypedArray

namespace Value

/-- **A constraint is met by what is stored.** After a write that succeeds, what the pointer leads
to has the kind of the pointer. It may be `missing` under `null`, if that was to be written; and
under `boolean`, in an array of numbers, it is the element for the converted truth value, which is
the number that the truth value stands for. -/
theorem hasKind_of_write {tree tree' v : Value} {p : Pointer} {policy : Policy}
    (h : tree.write p v policy = (tree', none)) :
    ∃ x, tree'.read p = .ok x ∧
      (x.hasKind p.kind = true ∨ (p.kind = .null ∧ v = .missing ∧ x = .missing) ∨
        (p.kind = .boolean ∧ ∃ content b, tree'.read p.parent = .ok (.typed content) ∧
          v.coerce p = .ok (.bool b) ∧ content.IsElementFor (.bool b) x ∧
          x.number? = (Value.bool b).number?)) := by
  obtain ⟨t, ts, c, hadmitted, hw⟩ := exists_admitted_of_write h
  have hcoerce : v.coerce p = .ok c := coerce_eq_ok_iff.mpr hadmitted.coerced
  obtain ⟨holder, hholder, hread⟩ := follow_writeBelow hw
  rw [← hadmitted.tokens] at hholder hread
  have hkind := hasKind_of_coerce? hadmitted.coerced
  rcases hread with ⟨_, hrest⟩ | ⟨content, x, rfl, hx, helement⟩
  · -- the converted value itself is stored
    have hc : tree'.follow p.tokens = .ok c :=
      (List.append_nil p.tokens ▸ hrest []).trans (follow_nil c)
    exact ⟨c, read_eq_ok_iff.mpr hc, hkind.imp_right .inl⟩
  · refine ⟨x, read_eq_ok_iff.mpr hx, ?_⟩
    rcases hkind with hc | ⟨hnull, hv, rfl⟩
    · rcases helement.hasKind hc with hkind | ⟨hboolean, b, rfl⟩
      · exact .inl hkind
      · exact .inr (.inr ⟨hboolean, content, b, read_eq_ok_iff.mpr hholder, hcoerce, helement,
          helement.number?_eq⟩)
    · exact .inr (.inl ⟨hnull, hv, helement.eq_missing⟩)

/-- A queue under `array` at `/a/2` of `{"a": [1]}` is stored as the list of its elements. -/
theorem hasKind_of_write_queue :
    let tree := Value.object .plain [(.text "a", .array .list [.int 1])]
    let p : Pointer := { tokens := [.key "a", .index 1], kind := .array }
    let tree' := Value.object .plain [(.text "a", .array .list [.int 1, .array .list [.null]])]
    tree.write p (.array .deque [.null]) {} = (tree', none) ∧
    ∃ x, tree'.read p = .ok x ∧
      (x.hasKind p.kind = true ∨
        (p.kind = .null ∧ Value.array .deque [.null] = .missing ∧ x = .missing) ∨
        (p.kind = .boolean ∧ ∃ content b, tree'.read p.parent = .ok (.typed content) ∧
          (Value.array .deque [.null]).coerce p = .ok (.bool b) ∧
          content.IsElementFor (.bool b) x ∧ x.number? = (Value.bool b).number?)) := by
  intro tree p tree'
  have h : tree.write p (.array .deque [.null]) {} = (tree', none) := rfl
  exact ⟨h, hasKind_of_write h⟩

/-- A truth value in an array of integers is read back as the number one. -/
theorem hasKind_eq_false_of_bit :
    let tree := Value.typed (.ints ⟨.int, true⟩ [])
    let p : Pointer := { tokens := [.index 0], kind := .boolean }
    let tree' := Value.typed (.ints ⟨.int, true⟩ [1])
    p.kind ≠ .any ∧ p.kind ≠ .null ∧ tree.write p (.bool true) {} = (tree', none) ∧
    tree'.read p = .ok (.int 1) ∧ (Value.int 1).hasKind p.kind = false := by
  intro tree p tree'
  exact ⟨by decide, by decide, rfl, rfl, rfl⟩

end Value
end JsonPointer
