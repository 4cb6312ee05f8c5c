import JsonPointer.Proofs.Conversion
import JsonPointer.Proofs.Extension
import JsonPointer.Proofs.Limits

/-!
# Values that need no conversion

A value that has the kind of a pointer is stored as it is, and the conversion to the kind is not
asked. It would not have refused the value: the conversion makes its plain form (`PlainForm`), which
is the value itself but for objects, of which only the flavour is lost, and for typed arrays, which
become the list of their elements. Exact fractions are the exception, as they become doubles.

That nothing else is lost is seen by reading: token by token, the plain form leads where the value
leads (`PlainForm.step_iff`).
-/

namespace JsonPointer

/-! ### Members -/

namespace Members

variable {name : String} {members acc rest : Members}

theorem find?_eq_none_of_notMem (h : .text name ∉ members.map Prod.fst) :
    members.find? name = none := by
  simp only [find?, Option.map_eq_none_iff, List.find?_eq_none]
  intro member hmember htext
  apply h
  rw [← Value.eq_text_of_isText htext]
  exact List.mem_map_of_mem hmember

/-- Members whose names are different texts stay as they are, behind those that are there. -/
theorem textMembers?_eq_append (hnames : ((acc ++ rest).map Prod.fst).Nodup)
    (htext : ∀ m ∈ rest, ∃ s, m.1 = .text s) :
    Value.textMembers? acc rest = some (acc ++ rest) := by
  induction rest generalizing acc with
  | nil => exact congrArg some (List.append_nil acc).symm
  | cons member rest ih =>
      obtain ⟨name, v⟩ := member
      rw [List.forall_mem_cons] at htext
      obtain ⟨⟨s, rfl⟩, htext⟩ := htext
      -- the name is new, so it does not replace one that is there
      have hnew : .text s ∉ acc.map Prod.fst := by
        rw [List.map_append, List.map_cons, List.nodup_append] at hnames
        intro hmem
        exact hnames.2.2 _ hmem _ List.mem_cons_self rfl
      show Value.textMembers? (put s v acc) rest = _
      rw [put_of_none (find?_eq_none_of_notMem hnew), List.append_cons acc _ rest]
      rw [List.append_cons] at hnames
      exact ih hnames htext

end Members

namespace Value

/-! ### Plain forms -/

/-- The value without its flavour. -/
inductive PlainForm : Value → Value → Prop
  | scalar {v : Value} : v.isScalar = true → PlainForm v v
  | object (flavour : ObjectFlavour) (members : Members) :
      PlainForm (.object flavour members) (.object .plain members)
  | list (items : List Value) : PlainForm (.array .list items) (.array .list items)
  | typed (content : TypedArray) : PlainForm (.typed content) (.array .list content.values)

variable {kind : Kind} {v r x : Value} {t : Token} {ts : List Token}

namespace PlainForm

theorem hasKind (h : PlainForm v r) (hv : v.hasKind kind = true) : r.hasKind kind = true := by
  cases h with
  | scalar _ => exact hv
  | object flavour members => cases kind <;> first | rfl | cases hv
  | list items => exact hv
  | typed content => cases kind <;> first | rfl | cases hv

/-- A token leads from the plain form to what it leads to from the value. -/
theorem step_iff (h : PlainForm v r) : r.step t = .ok x ↔ v.step t = .ok x := by
  cases h with
  | scalar _ => rfl
  | list items => rfl
  | object flavour members => cases t <;> simp [step_eq_ok_iff, isLongRange]
  | typed content => cases t <;> simp [step_eq_ok_iff, isLongRange]

/-- Every token after the first is followed from the same value. -/
theorem follow_iff (h : PlainForm v r) (hts : ts ≠ []) :
    r.follow ts = .ok x ↔ v.follow ts = .ok x := by
  obtain ⟨t, us, rfl⟩ := List.exists_cons_of_ne_nil hts
  simp only [follow_cons_eq_ok_iff, h.step_iff]

end PlainForm

/-! ### The conversion that is not asked -/

/-- Of the numbers only exact fractions become something else. -/
theorem plainForm_asNumber? (hv : v.hasKind .number = true) (hfraction : ∀ q, v ≠ .fraction q) :
    ∃ r, v.asNumber? = some r ∧ PlainForm v r := by
  cases v with
  | int n => exact ⟨_, rfl, .scalar rfl⟩
  | float y => exact ⟨_, rfl, .scalar rfl⟩
  | fraction q => exact absurd rfl (hfraction q)
  | _ => cases hv

/-- An object whose names are different texts keeps all its members, in their order. -/
theorem plainForm_asObject? (hv : v.hasKind .object = true) (hnames : v.names.Nodup)
    (htext : ∀ name ∈ v.names, ∃ s, name = .text s) :
    ∃ r, v.asObject? = some r ∧ PlainForm v r := by
  cases v with
  | object flavour members =>
      have hmembers : textMembers? [] members = some ([] ++ members) := by
        apply Members.textMembers?_eq_append
        · exact hnames
        · intro m hm
          exact htext m.1 (List.mem_map_of_mem hm)
      refine ⟨.object .plain members, ?_, .object flavour members⟩
      rw [asObject?, hmembers]
      rfl
  | _ => cases hv

theorem plainForm_asList? (hv : v.hasKind .array = true) :
    ∃ r, v.asList? = some r ∧ PlainForm v r := by
  cases v with
  | array flavour items =>
      cases flavour with
      | list => exact ⟨_, rfl, .list items⟩
      | _ => cases hv
  | typed content => exact ⟨_, rfl, .typed content⟩
  | _ => cases hv

theorem plainForm_asString? (hv : v.hasKind .string = true) :
    ∃ r, v.asString? = some r ∧ PlainForm v r := by
  cases v with
  | text s => exact ⟨.text s, rfl, .scalar rfl⟩
  | _ => cases hv

theorem plainForm_asBoolean? (hv : v.hasKind .boolean = true) :
    ∃ r, v.asBoolean? = some r ∧ PlainForm v r := by
  cases v with
  | bool b => exact ⟨.bool b, rfl, .scalar rfl⟩
  | _ => cases hv

theorem plainForm_asNull? (hv : v.hasKind .null = true) :
    ∃ r, v.asNull? = some r ∧ PlainForm v r := by
  cases v with
  | null => exact ⟨.null, rfl, .scalar rfl⟩
  | _ => cases hv

theorem plainForm_adapter? (hkind : kind ≠ .any) (hv : v.hasKind kind = true)
    (hfraction : ∀ q, v ≠ .fraction q) (hnames : v.names.Nodup)
    (htext : kind = .object → ∀ name ∈ v.names, ∃ s, name = .text s) :
    ∃ f r, kind.adapter? = some f ∧ f v = some r ∧ PlainForm v r := by
  -- each kind has a conversion of its own
  cases kind with
  | any => exact absurd rfl hkind
  | string =>
      obtain ⟨r, hr⟩ := plainForm_asString? hv
      exact ⟨_, r, rfl, hr⟩
  | number =>
      obtain ⟨r, hr⟩ := plainForm_asNumber? hv hfraction
      exact ⟨_, r, rfl, hr⟩
  | object =>
      obtain ⟨r, hr⟩ := plainForm_asObject? hv hnames (htext rfl)
      exact ⟨_, r, rfl, hr⟩
  | array =>
      obtain ⟨r, hr⟩ := plainForm_asList? hv
      exact ⟨_, r, rfl, hr⟩
  | boolean =>
      obtain ⟨r, hr⟩ := plainForm_asBoolean? hv
      exact ⟨_, r, rfl, hr⟩
  | null =>
      obtain ⟨r, hr⟩ := plainForm_asNull? hv
      exact ⟨_, r, rfl, hr⟩

/-- **The conversion agrees with being of the kind.** A value that has the kind of a pointer is
stored as it is. The conversion to the kind, which is not asked for it, would accept it: if the
value is no exact fraction, and, under `object`, an object whose names are texts, then the
conversion makes its plain form. That has the kind as well, and every pointer but the root leads
from it to what it leads to from the value, if it leads anywhere. -/
theorem adapter?_of_hasKind (hkind : kind ≠ .any) (hv : v.hasKind kind = true)
    (hfraction : ∀ q, v ≠ .fraction q) (hnames : v.names.Nodup)
    (htext : kind = .object → ∀ name ∈ v.names, ∃ s, name = .text s) :
    coerce? kind v = some v ∧
    ∃ f r, kind.adapter? = some f ∧ f v = some r ∧ r.hasKind kind = true ∧ PlainForm v r ∧
      ∀ q : Pointer, q.tokens ≠ [] → ∀ x, r.read q = .ok x ↔ v.read q = .ok x := by
  obtain ⟨f, r, hf, hr, hform⟩ := plainForm_adapter? hkind hv hfraction hnames htext
  refine ⟨(coerce?_of_hasKind hv).1, f, r, hf, hr, hform.hasKind hv, hform, ?_⟩
  intro q hq x
  rw [read_eq_ok_iff, read_eq_ok_iff, hform.follow_iff hq]

/-- An ordered object would become a plain one, in which the typed array is the one that it was. -/
theorem adapter?_of_hasKind_ordered :
    let bytes := Value.typed (.ints ⟨.byte, false⟩ [7, 8])
    let v := Value.object .ordered [(.text "b", bytes), (.text "a", .missing)]
    let r := Value.object .plain [(.text "b", bytes), (.text "a", .missing)]
    let q : Pointer := { tokens := [.key "b", .index 1] }
    Kind.object ≠ .any ∧ v.hasKind .object = true ∧ (∀ c, v ≠ .fraction c) ∧ v.names.Nodup ∧
    (Kind.object = .object → ∀ name ∈ v.names, ∃ s, name = .text s) ∧
    coerce? .object v = some v ∧ v.asObject? = some r ∧ PlainForm v r ∧
    v.read q = .ok (.int 8) ∧ r.read q = .ok (.int 8) := by
  intro bytes v r q
  have hfraction : ∀ c, v ≠ .fraction c := by simp [v]
  have hnames : v.names.Nodup := by simp [v, names]
  have htext : Kind.object = .object → ∀ name ∈ v.names, ∃ s, name = .text s := by simp [v, names]
  have hkind : v.hasKind .object = true := rfl
  have hr : v.asObject? = some r := rfl
  have hx : v.read q = .ok (.int 8) := rfl
  obtain ⟨hkept, f, r', ⟨⟩, hr', _, hform, hread⟩ :=
    adapter?_of_hasKind (by decide) hkind hfraction hnames htext
  obtain rfl : r = r' := Option.some.inj (hr.symm.trans hr')
  have hq : q.tokens ≠ [] := List.cons_ne_nil _ _
  exact ⟨by decide, hkind, hfraction, hnames, htext, hkept, hr, hform, hx,
    (hread q hq _).mpr hx⟩

end Value
end JsonPointer
