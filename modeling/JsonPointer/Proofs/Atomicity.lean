import JsonPointer.Proofs.Descent
import JsonPointer.Proofs.Telling

/-!
# Failed writes that change nothing

A write makes containers and lets arrays grow before it knows that it will succeed, and takes
nothing back. Without typed arrays this does not show. Once something was changed, the write goes on
in a container that it has just put there, of the sort that the next token asks for, so the only
thing that can still stop it is the growth of an array (`isGrowth_of_slot_missing`). Any other fault
is met while the way still leads through what was there before (`tree_eq_of_fault`).
-/

namespace JsonPointer

namespace Value

/-! ### Trees without typed arrays -/

/-- Does a typed array stand anywhere in the value? -/
def hasTyped : Value → Bool
  | .typed _ => true
  | .set _ items => anyItem items
  | .array _ items => anyItem items
  | .object _ members => anyMember members
  | _ => false
where
  /-- Does one stand in an element? -/
  anyItem : List Value → Bool
    | [] => false
    | item :: items => item.hasTyped || anyItem items
  /-- Does one stand in a member? -/
  anyMember : List (Value × Value) → Bool
    | [] => false
    | (name, v) :: members => name.hasTyped || v.hasTyped || anyMember members

theorem hasTyped_of_mem_items {items : List Value} (h : hasTyped.anyItem items = false)
    {x : Value} (hx : x ∈ items) : x.hasTyped = false := by
  induction items with
  | nil => cases hx
  | cons item items ih =>
      simp only [hasTyped.anyItem, Bool.or_eq_false_iff] at h
      rcases List.mem_cons.mp hx with rfl | hx
      · exact h.1
      · exact ih h.2 hx

theorem hasTyped_of_find? {members : Members} (h : hasTyped.anyMember members = false)
    {name : String} {x : Value} (hx : members.find? name = some x) : x.hasTyped = false := by
  induction members with
  | nil => cases hx
  | cons member rest ih =>
      simp only [hasTyped.anyMember, Bool.or_eq_false_iff] at h
      rw [Members.find?_cons] at hx
      split at hx
      · cases hx
        exact h.1.2
      · exact ih h.2 hx

theorem isTyped_of_hasTyped {container : Value} (h : container.hasTyped = false) :
    container.isTyped = false := by
  cases container <;> first | rfl | cases h

theorem hasTyped_of_child? {container x : Value} {t : Token} (h : container.hasTyped = false)
    (hx : container.child? t = some x) : x.hasTyped = false := by
  cases container with
  | object flavour members =>
      cases t with
      | key name => exact hasTyped_of_find? h hx
      | index offset => cases hx
  | array flavour items =>
      cases t with
      | key name => cases hx
      | index offset => exact hasTyped_of_mem_items h (List.mem_of_getElem? hx)
  | range start stop step =>
      cases t with
      | key name => cases hx
      | index offset =>
          simp only [child?, item?] at hx
          split at hx <;> cases hx
          rfl
  | typed content => cases h
  | _ => cases t <;> cases hx

/-! ### Once something was changed -/

variable {limit : Option Int} {v container : Value} {t next : Token} {ts : List Token}
  {fault : WriteFault}

/-- A new container takes the token that it was made for. -/
theorem takes_fresh (h : container.takes t = true) (next : Token) :
    (container.fresh next).takes next = true := by
  cases next with
  | index offset => rfl
  | key name =>
      cases container with
      | object flavour members =>
          cases t with
          | key _ => exact h
          | index _ => cases h
      | _ => rfl

theorem isTyped_fresh (container : Value) (next : Token) :
    (container.fresh next).isTyped = false := by
  cases next <;> cases container <;> rfl

/-- A container that is made on the way is empty. -/
theorem slot_fresh (container : Value) (next s : Token) :
    (container.fresh next).slot s = .missing := by
  rw [slot_eq, child?_fresh]
  rfl

end Value
end JsonPointer
