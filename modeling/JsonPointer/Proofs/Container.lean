import JsonPointer.Tree.Session

/-!
# One container

What a write does to a single container, before anything is said about trees. A container is looked
at through `child?`, what it holds at a token, and each operation of a write is described by what it
does to that view:

* `reserve_eq_ok_iff` — making room succeeds exactly as `Reserved` says, which only appends padding;
* `child?_put_self`, `child?_put_ne` — putting a value changes one child and no other;
* `child?_assign_ne` — storing a value changes no other child either.
-/

namespace JsonPointer

/-! ### Members -/

theorem Value.eq_text_of_isText {name : String} {v : Value} (h : v.isText name = true) :
    v = .text name := by
  cases v with
  | text s => exact congrArg Value.text (of_decide_eq_true h)
  | _ => cases h

theorem Value.eq_of_isText {a b : String} {v : Value} (ha : v.isText a = true)
    (hb : v.isText b = true) : a = b :=
  Value.text.inj ((eq_text_of_isText ha).symm.trans (eq_text_of_isText hb))

@[simp] theorem Value.isText_text (a b : String) : (Value.text a).isText b = decide (a = b) := rfl

namespace Members

@[simp] theorem find?_nil (name : String) : find? name [] = none := rfl

theorem find?_cons (name : String) (member : Value × Value) (rest : Members) :
    find? name (member :: rest) =
      if member.1.isText name then some member.2 else find? name rest := by
  unfold find?
  rw [List.find?_cons]
  cases member.1.isText name <;> simp

theorem find?_put_self (name : String) (v : Value) (members : Members) :
    find? name (put name v members) = some v := by
  induction members with
  | nil => simp [put, find?_cons]
  | cons member rest ih =>
      rw [put]
      split
      · next h => rw [find?_cons, if_pos h]
      · next h => rw [find?_cons, if_neg h, ih]

theorem find?_put_ne {a b : String} (h : a ≠ b) (v : Value) (members : Members) :
    find? b (put a v members) = find? b members := by
  induction members with
  | nil => simp [put, find?_cons, h]
  | cons member rest ih =>
      rw [put]
      split
      · next ha =>
          -- the member that is replaced has the name `a`, so it is not found under `b` before or
          -- after
          have hb : ¬ member.1.isText b = true := fun hb => h (Value.eq_of_isText ha hb)
          rw [find?_cons, find?_cons, if_neg hb, if_neg hb]
      · rw [find?_cons, find?_cons, ih]

/-- Putting back what is there changes nothing. -/
theorem put_find? {name : String} {v : Value} {members : Members}
    (h : find? name members = some v) : put name v members = members := by
  induction members with
  | nil => simp at h
  | cons member rest ih =>
      rw [find?_cons] at h
      rw [put]
      split
      · next hm =>
          -- the member in front is the one that is found, and gets the value that it has
          rw [if_pos hm] at h
          cases h
          rfl
      · next hm =>
          rw [if_neg hm] at h
          rw [ih h]

/-- Of two values that are put under one name the second one stays. -/
theorem put_put (name : String) (v w : Value) (members : Members) :
    put name v (put name w members) = put name v members := by
  induction members with
  | nil => simp [put]
  | cons member rest ih =>
      by_cases h : member.1.isText name = true
      · rw [put, if_pos h, put, if_pos h, put, if_pos h]
      · rw [put, if_neg h, put, if_neg h, put, if_neg h, ih]

section Append

variable {name : String} {front : Members}

/-- Members are looked for from the front, so that what comes behind a member of the name plays no
part. -/
theorem find?_append_of_some {x : Value} (h : front.find? name = some x) (rest : Members) :
    Members.find? name (front ++ rest) = some x := by
  induction front with
  | nil => cases h
  | cons member front ih =>
      rw [find?_cons] at h
      rw [List.cons_append, find?_cons]
      split
      · next hm => rw [if_pos hm] at h; exact h
      · next hm => rw [if_neg hm] at h; exact ih h

theorem find?_append_of_none (h : front.find? name = none) (rest : Members) :
    Members.find? name (front ++ rest) = Members.find? name rest := by
  induction front with
  | nil => rfl
  | cons member front ih =>
      rw [find?_cons] at h
      rw [List.cons_append, find?_cons]
      split
      · next hm => rw [if_pos hm] at h; cases h
      · next hm => rw [if_neg hm] at h; exact ih h

theorem put_append_of_some {x : Value} (h : front.find? name = some x) (v : Value)
    (rest : Members) : Members.put name v (front ++ rest) = Members.put name v front ++ rest := by
  induction front with
  | nil => cases h
  | cons member front ih =>
      rw [find?_cons] at h
      rw [List.cons_append, put, put]
      split
      · rfl
      · next hm =>
          rw [if_neg hm] at h
          rw [ih h, List.cons_append]

theorem put_append_of_none (h : front.find? name = none) (v : Value) (rest : Members) :
    Members.put name v (front ++ rest) = front ++ Members.put name v rest := by
  induction front with
  | nil => rfl
  | cons member front ih =>
      rw [find?_cons] at h
      rw [List.cons_append, put]
      split
      · next hm => rw [if_pos hm] at h; cases h
      · next hm =>
          rw [if_neg hm] at h
          rw [ih h, List.cons_append]

/-- A new member goes to the end. -/
theorem put_of_none (h : front.find? name = none) (v : Value) :
    Members.put name v front = front ++ [(.text name, v)] := by
  have := put_append_of_none h v []
  rwa [List.append_nil] at this

/-- A member that is there keeps its name and its place. -/
theorem map_fst_put_of_some {x : Value} (h : front.find? name = some x) (v : Value) :
    (Members.put name v front).map Prod.fst = front.map Prod.fst := by
  induction front with
  | nil => cases h
  | cons member front ih =>
      rw [find?_cons] at h
      rw [put]
      split
      · rfl
      · next hm =>
          rw [if_neg hm] at h
          rw [List.map_cons, List.map_cons, ih h]

end Append

end Members

/-! ### Typed arrays as lists of values -/

namespace TypedArray

/-- The element that a typed array is padded with. -/
def padding : TypedArray → Value
  | .ints _ _ => .int 0
  | .floats _ _ => .float zero
  | .chars _ => .text (String.singleton (Char.ofNat 0))

/-- A typed array without its elements. -/
def blank : TypedArray → TypedArray
  | .ints f _ => .ints f []
  | .floats single _ => .floats single []
  | .chars _ => .chars []

@[simp] theorem padding_blank (content : TypedArray) : content.blank.padding = content.padding := by
  cases content <;> rfl

@[simp] theorem length_values (content : TypedArray) : content.values.length = content.size := by
  cases content <;> simp [values, size]

theorem values_pad (n : Nat) (content : TypedArray) :
    (content.pad n).values = content.values ++ List.replicate n content.padding := by
  cases content <;> simp [values, pad, padding]

@[simp] theorem blank_pad (n : Nat) (content : TypedArray) :
    (content.pad n).blank = content.blank := by
  cases content <;> rfl

@[simp] theorem size_pad (n : Nat) (content : TypedArray) :
    (content.pad n).size = content.size + n := by
  cases content <;> simp [size, pad]

@[simp] theorem pad_zero (content : TypedArray) : content.pad 0 = content := by
  cases content <;> simp [pad]

/-- A typed array like `content` keeps the value `v` as the element `e`. -/
inductive Keeps : TypedArray → Value → Value → Prop
  | int {f items v n} : elementInt f v = .ok n → Keeps (.ints f items) v (.int n)
  | float {single items v x} : elementDouble v = .ok x →
      Keeps (.floats single items) v (.float (if single then x.toSingle else x))
  | char {items v c} : elementChar v = .ok c →
      Keeps (.chars items) v (.text (String.singleton c))

/-- `stored` is `content` with what it keeps of the value `v` at the offset. -/
inductive Stored (offset : Nat) (v : Value) : TypedArray → TypedArray → Prop
  | int {f items n} : elementInt f v = .ok n →
      Stored offset v (.ints f items) (.ints f (items.set offset n))
  | float {single items x} : elementDouble v = .ok x →
      Stored offset v (.floats single items)
        (.floats single (items.set offset (if single then x.toSingle else x)))
  | char {items c} : elementChar v = .ok c →
      Stored offset v (.chars items) (.chars (items.set offset c))

/-- A value is stored exactly as the type of the elements says. -/
theorem store_eq_ok_iff {offset : Nat} {v : Value} {content stored : TypedArray} :
    content.store offset v = .ok stored ↔ Stored offset v content stored := by
  constructor
  · intro h
    cases content with
    | ints f items =>
        simp only [store] at h
        cases he : elementInt f v <;> rw [he] at h <;> cases h
        exact .int he
    | floats single items =>
        simp only [store] at h
        cases he : elementDouble v <;> rw [he] at h <;> cases h
        exact .float he
    | chars items =>
        simp only [store] at h
        cases he : elementChar v <;> rw [he] at h <;> cases h
        exact .char he
  · intro h
    cases h with
    | int he => rw [store, he]; rfl
    | float he => rw [store, he]; rfl
    | char he => rw [store, he]; rfl

namespace Stored

variable {offset : Nat} {v : Value} {content stored : TypedArray}

/-- One element is replaced. -/
theorem values_eq (h : Stored offset v content stored) :
    ∃ e, content.Keeps v e ∧ stored.values = content.values.set offset e := by
  cases h with
  | int he => exact ⟨_, .int he, by simp only [values, List.map_set]⟩
  | float he => exact ⟨_, .float he, by simp only [values, List.map_set]⟩
  | char he => exact ⟨_, .char he, by simp only [values, List.map_set]⟩

theorem blank_eq (h : Stored offset v content stored) : stored.blank = content.blank := by
  cases h <;> rfl

theorem size_eq (h : Stored offset v content stored) : stored.size = content.size := by
  cases h <;> exact List.length_set

end Stored

end TypedArray

/-! ### Growth -/

/-- May an array grow from `length` elements to `size`? Where it need not grow, it always may. -/
def MayGrow (limit : Option Int) (length size : Nat) : Prop :=
  length < size → (∀ l, limit = some l → (size : Int) ≤ l) ∧ size - length < lengthLimit

theorem MayGrow.of_le {limit : Option Int} {length size : Nat} (h : size ≤ length) :
    MayGrow limit length size := fun hlt => absurd h (Nat.not_le_of_lt hlt)

/-- Why an array may not grow from `length` elements to `size`. -/
inductive GrowthFault (limit : Option Int) (length size : Nat) : WriteFault → Prop
  | tooLong {l : Int} : limit = some l → length < size → l < size →
      GrowthFault limit length size (.tooLong size l)
  | growthTooGreat : lengthLimit ≤ size - length → GrowthFault limit length size .growthTooGreat

/-- Is the fault that of an array that would grow too much? -/
def WriteFault.isGrowth : WriteFault → Bool
  | .tooLong _ _ => true
  | .growthTooGreat => true
  | _ => false

theorem GrowthFault.isGrowth {limit : Option Int} {length size : Nat} {fault : WriteFault}
    (h : GrowthFault limit length size fault) : fault.isGrowth = true := by
  cases h <;> rfl

namespace Value

theorem growth_of_mayGrow {limit : Option Int} {length size : Nat}
    (h : MayGrow limit length size) : growth limit length size = .ok (size - length) := by
  unfold growth
  by_cases hm : size - length = 0
  · rw [if_pos hm, hm]
  · -- both checks are passed: the one of the policy and the one on new elements
    obtain ⟨hl, hb⟩ := h (by omega)
    have hok : growth.bounded (size - length) = .ok (size - length) := by
      unfold growth.bounded
      rw [if_neg (by omega)]
    rw [if_neg hm]
    cases limit with
    | none => exact hok
    | some l =>
        have := hl l rfl
        simp only [hok]
        rw [if_neg (by omega)]

theorem growth_of_not_mayGrow {limit : Option Int} {length size : Nat}
    (h : ¬ MayGrow limit length size) :
    ∃ fault, growth limit length size = .error fault ∧ GrowthFault limit length size fault := by
  unfold MayGrow at h
  rw [Classical.not_imp] at h
  obtain ⟨hlt, hno⟩ := h
  -- a policy that allows the size leaves only the limit on new elements
  have hbounded (hb : ¬ size - length < lengthLimit) :
      growth.bounded (size - length) = .error .growthTooGreat := by
    unfold growth.bounded
    rw [if_pos (by omega)]
  unfold growth
  rw [if_neg (by omega)]
  cases limit with
  | none =>
      have hb : ¬ size - length < lengthLimit := fun hb => hno ⟨by simp, hb⟩
      exact ⟨_, hbounded hb, .growthTooGreat (Nat.le_of_not_lt hb)⟩
  | some l =>
      by_cases hl : (size : Int) > l
      · exact ⟨_, if_pos hl, .tooLong rfl hlt hl⟩
      · have hb : ¬ size - length < lengthLimit := by
          refine fun hb => hno ⟨?_, hb⟩
          rintro _ ⟨⟩
          omega
        exact ⟨_, (if_neg hl).trans (hbounded hb), .growthTooGreat (Nat.le_of_not_lt hb)⟩

/-! ### What a container holds -/

def child? (container : Value) : Token → Option Value
  | .key name => container.member? name
  | .index offset => container.item? offset

@[simp] theorem child?_object_key (flavour : ObjectFlavour) (members : Members) (name : String) :
    (Value.object flavour members).child? (.key name) = members.find? name := rfl

@[simp] theorem child?_object_index (flavour : ObjectFlavour) (members : Members) (offset : Nat) :
    (Value.object flavour members).child? (.index offset) = none := rfl

@[simp] theorem child?_array_key (flavour : ArrayFlavour) (items : List Value) (name : String) :
    (Value.array flavour items).child? (.key name) = none := rfl

@[simp] theorem child?_array_index (flavour : ArrayFlavour) (items : List Value) (offset : Nat) :
    (Value.array flavour items).child? (.index offset) = items[offset]? := rfl

@[simp] theorem child?_typed_key (content : TypedArray) (name : String) :
    (Value.typed content).child? (.key name) = none := rfl

@[simp] theorem child?_typed_index (content : TypedArray) (offset : Nat) :
    (Value.typed content).child? (.index offset) = content.values[offset]? := rfl

theorem slot_eq (container : Value) (t : Token) :
    container.slot t = (container.child? t).getD .missing := by
  cases t <;> rfl

/-- Nothing is stored where nothing stands, or only `missing`. -/
theorem slot_eq_missing_iff {container : Value} {t : Token} :
    container.slot t = .missing ↔ ∀ x, container.child? t = some x → x = .missing := by
  rw [slot_eq]
  cases container.child? t <;> simp

/-- Positions that lead somewhere are below the length. -/
theorem lt_length_of_child? {container x : Value} {i : Nat}
    (h : container.child? (.index i) = some x) : i < container.length?.getD 0 := by
  cases container with
  | array flavour items => exact (List.getElem?_eq_some_iff.mp h).1
  | typed content =>
      have hi := (List.getElem?_eq_some_iff.mp h).1
      rwa [TypedArray.length_values] at hi
  | range start stop step =>
      -- the elements of a range are computed, and there are `rangeSize` of them
      simp only [child?, item?] at h
      split at h
      · assumption
      · cases h
  | _ => cases h

def isTyped : Value → Bool
  | .typed _ => true
  | _ => false

theorem untyped_or_typed (container : Value) :
    container.isTyped = false ∨ ∃ content, container = .typed content := by
  cases container <;> first | exact .inl rfl | exact .inr ⟨_, rfl⟩

/-- What an array is padded with at its end. -/
def padding : Value → Value
  | .typed content => content.padding
  | _ => .missing

/-- Does the container take tokens of that sort, in a write? -/
def takes (container : Value) : Token → Bool
  | .key _ => container.isWritableObject
  | .index _ => container.isWritableArray

/-- Only a container that can be written to takes tokens. -/
theorem isWritable_of_takes {container : Value} {t : Token} (h : container.takes t = true) :
    container.isWritable = true := by
  cases t with
  | key name => exact Bool.or_eq_true_iff.mpr (.inl h)
  | index offset => exact Bool.or_eq_true_iff.mpr (.inr h)

/-- A container that can be written to takes the tokens that lead on from it. -/
theorem takes_of_child? {container x : Value} {t : Token} (hw : container.isWritable = true)
    (hx : container.child? t = some x) : container.takes t = true := by
  cases container with
  | object flavour members =>
      cases t with
      | key name => simpa [takes, isWritable, isWritableArray] using hw
      | index i => cases hx
  | array flavour items =>
      cases t with
      | key name => cases hx
      | index i => exact hw
  | typed content =>
      cases t with
      | key name => cases hx
      | index i => rfl
  | _ => cases hw

theorem isMissing_eq_false_of_isWritable {v : Value} (h : v.isWritable = true) :
    v.isMissing = false := by
  cases v <;> first | rfl | cases h

/-- A container with nothing in it: what no write to the container changes. -/
def blank : Value → Value
  | .object flavour _ => .object flavour []
  | .array flavour _ => .array flavour []
  | .typed content => .typed content.blank
  | v => v

@[simp] theorem isTyped_blank (v : Value) : v.blank.isTyped = v.isTyped := by
  cases v <;> rfl

@[simp] theorem isArray_blank (v : Value) : v.blank.isArray = v.isArray := by
  cases v <;> rfl

@[simp] theorem isLongRange_blank (v : Value) : v.blank.isLongRange = v.isLongRange := by
  cases v <;> rfl

@[simp] theorem padding_blank (v : Value) : v.blank.padding = v.padding := by
  cases v with
  | typed content => exact content.padding_blank
  | _ => rfl

@[simp] theorem isMissing_blank (v : Value) : v.blank.isMissing = v.isMissing := by
  cases v <;> rfl

@[simp] theorem takes_blank (v : Value) (t : Token) : v.blank.takes t = v.takes t := by
  cases v <;> cases t <;> rfl

@[simp] theorem fresh_blank (v : Value) (next : Token) : v.blank.fresh next = v.fresh next := by
  cases v <;> cases next <;> rfl

@[simp] theorem isWritable_blank (v : Value) : v.blank.isWritable = v.isWritable := by
  cases v <;> rfl

/-! ### Making room -/

/-- `grown` is `container` with room for the token. -/
inductive Reserved (limit : Option Int) : Value → Token → Value → Prop
  | member {flavour members name} : flavour.isWritable = true →
      Reserved limit (.object flavour members) (.key name) (.object flavour members)
  | element {flavour items offset} : flavour.isWritable = true →
      MayGrow limit items.length (offset + 1) →
      Reserved limit (.array flavour items) (.index offset)
        (.array flavour (items ++ List.replicate (offset + 1 - items.length) .missing))
  | typed {content offset} : MayGrow limit content.size (offset + 1) →
      Reserved limit (.typed content) (.index offset)
        (.typed (content.pad (offset + 1 - content.size)))

/-- Making room fails where the container does not take the token, or would grow too much. -/
inductive Refused (limit : Option Int) : Value → Token → WriteFault → Prop
  | mismatch {container t} : container.takes t = false →
      Refused limit container t (.mismatch container t)
  | growth {container offset fault} : container.takes (.index offset) = true →
      GrowthFault limit (container.length?.getD 0) (offset + 1) fault →
      Refused limit container (.index offset) fault

/-- A container that takes the token can only refuse to grow. -/
theorem Refused.isGrowth {limit : Option Int} {container : Value} {t : Token} {fault : WriteFault}
    (h : Refused limit container t fault) (ht : container.takes t = true) :
    fault.isGrowth = true := by
  cases h with
  | mismatch hno => rw [ht] at hno; cases hno
  | growth _ hcause => exact hcause.isGrowth

/-- Making room succeeds as `Reserved` says, or fails as `Refused` says. -/
theorem reserve_spec (limit : Option Int) (container : Value) (t : Token) :
    (∃ grown, container.reserve limit t = .ok grown ∧ Reserved limit container t grown) ∨
    (∃ fault, container.reserve limit t = .error fault ∧ Refused limit container t fault) := by
  cases container with
  | object flavour members =>
      cases t with
      | key name =>
          by_cases hf : flavour.isWritable = true
          · exact .inl ⟨_, if_pos hf, .member hf⟩
          · exact .inr ⟨_, if_neg hf, .mismatch (by simpa [takes, isWritableObject] using hf)⟩
      | index offset => exact .inr ⟨_, rfl, .mismatch rfl⟩
  | array flavour items =>
      cases t with
      | key name => exact .inr ⟨_, rfl, .mismatch rfl⟩
      | index offset =>
          by_cases hf : flavour.isWritable = true
          · -- a list that can be written to is refused for its length only
            by_cases hg : MayGrow limit items.length (offset + 1)
            · refine .inl ⟨_, ?_, .element hf hg⟩
              rw [reserve, if_pos hf, growth_of_mayGrow hg]
              rfl
            · obtain ⟨fault, hfault, hcause⟩ := growth_of_not_mayGrow hg
              refine .inr ⟨fault, ?_, .growth hf hcause⟩
              rw [reserve, if_pos hf, hfault]
              rfl
          · exact .inr ⟨_, if_neg hf, .mismatch (by simpa [takes, isWritableArray] using hf)⟩
  | typed content =>
      cases t with
      | key name => exact .inr ⟨_, rfl, .mismatch rfl⟩
      | index offset =>
          by_cases hg : MayGrow limit content.size (offset + 1)
          · refine .inl ⟨_, ?_, .typed hg⟩
            rw [reserve, growth_of_mayGrow hg]
            rfl
          · obtain ⟨fault, hfault, hcause⟩ := growth_of_not_mayGrow hg
            refine .inr ⟨fault, ?_, .growth rfl hcause⟩
            rw [reserve, hfault]
            rfl
  | _ => exact .inr ⟨_, rfl, .mismatch (by cases t <;> rfl)⟩

/-- The two sides of `reserve_spec` exclude each other, so success is the first of them. -/
theorem reserve_eq_ok_iff {limit : Option Int} {container grown : Value} {t : Token} :
    container.reserve limit t = .ok grown ↔ Reserved limit container t grown := by
  constructor
  · intro h
    rcases reserve_spec limit container t with ⟨grown', h', hr⟩ | ⟨fault, h', _⟩
    · rw [h] at h'
      cases h'
      exact hr
    · rw [h] at h'
      cases h'
  · intro h
    cases h with
    | member hf => exact if_pos hf
    | element hf hg =>
        rw [reserve, if_pos hf, growth_of_mayGrow hg]
        rfl
    | typed hg =>
        rw [reserve, growth_of_mayGrow hg]
        rfl

namespace Reserved

variable {limit : Option Int} {container grown : Value} {t s : Token}

theorem takes (h : Reserved limit container t grown) : container.takes t = true := by
  cases h with
  | member hf => exact hf
  | element hf _ => exact hf
  | typed _ => rfl

theorem blank_eq (h : Reserved limit container t grown) : grown.blank = container.blank := by
  cases h with
  | typed _ => exact congrArg Value.typed (TypedArray.blank_pad _ _)
  | _ => rfl

theorem isLongRange_eq_false (h : Reserved limit container t grown) :
    container.isLongRange = false := by
  cases h <;> rfl

theorem isMissing_eq_false (h : Reserved limit container t grown) :
    container.isMissing = false := by
  cases h <;> rfl

/-- Nothing that a container holds is lost by making room. -/
theorem child?_some (h : Reserved limit container t grown) {x : Value}
    (hx : container.child? s = some x) : grown.child? s = some x := by
  cases h with
  | member _ => exact hx
  | element _ _ =>
      cases s with
      | key name => exact hx
      | index j =>
          rw [child?_array_index] at hx ⊢
          obtain ⟨hj, rfl⟩ := List.getElem?_eq_some_iff.mp hx
          -- the old elements stand in front of the new ones
          rw [List.getElem?_append_left hj, hx]
  | @typed content _ _ =>
      cases s with
      | key name => exact hx
      | index j =>
          rw [child?_typed_index] at hx ⊢
          obtain ⟨hj, rfl⟩ := List.getElem?_eq_some_iff.mp hx
          rw [TypedArray.values_pad, List.getElem?_append_left hj, hx]

/-- What a container holds only after making room is padding, and lies behind its old end. -/
theorem child?_new (h : Reserved limit container t grown) {y : Value}
    (hs : container.child? s = none) (hy : grown.child? s = some y) :
    ∃ i j, t = .index i ∧ s = .index j ∧ container.length?.getD 0 ≤ j ∧ j ≤ i ∧
      y = container.padding := by
  cases h with
  | member _ =>
      rw [hs] at hy
      cases hy
  | @element _ items i _ _ =>
      cases s with
      | key name => cases hy
      | index j =>
          rw [child?_array_index] at hs hy
          have hj : items.length ≤ j := List.getElem?_eq_none_iff.mp hs
          -- past the old end there are only copies of the padding
          rw [List.getElem?_append_right hj, List.getElem?_replicate] at hy
          split at hy
          · next hlt =>
              cases hy
              exact ⟨i, j, rfl, rfl, hj, by omega, rfl⟩
          · cases hy
  | @typed content i _ =>
      cases s with
      | key name => cases hy
      | index j =>
          rw [child?_typed_index] at hs hy
          have hj : content.size ≤ j := by
            rw [← content.length_values]
            exact List.getElem?_eq_none_iff.mp hs
          rw [TypedArray.values_pad, List.getElem?_append_right (by simpa using hj),
            List.getElem?_replicate, TypedArray.length_values] at hy
          split at hy
          · next hlt =>
              cases hy
              exact ⟨i, j, rfl, rfl, hj, by omega, rfl⟩
          · cases hy

/-- Where something stands there is room already. -/
theorem eq_of_child? (h : Reserved limit container t grown) {x : Value}
    (hx : container.child? t = some x) : grown = container := by
  cases h with
  | member _ => rfl
  | @element _ items offset _ _ =>
      obtain ⟨hlt, _⟩ := List.getElem?_eq_some_iff.mp hx
      -- a position that holds something lies within the length, so nothing is added
      have hzero : offset + 1 - items.length = 0 := by omega
      rw [hzero, List.replicate_zero, List.append_nil]
  | @typed content offset _ =>
      obtain ⟨hlt, _⟩ := List.getElem?_eq_some_iff.mp hx
      rw [TypedArray.length_values] at hlt
      have hzero : offset + 1 - content.size = 0 := by omega
      rw [hzero, TypedArray.pad_zero]

/-- There is room already for a token that leads somewhere. -/
theorem of_child? {x : Value} (ht : container.takes t = true) (hx : container.child? t = some x) :
    Reserved limit container t container := by
  cases container with
  | object flavour members =>
      cases t with
      | key name => exact .member ht
      | index i => cases hx
  | array flavour items =>
      cases t with
      | key name => cases hx
      | index i =>
          obtain ⟨hi, _⟩ := List.getElem?_eq_some_iff.mp hx
          -- growing to a position within the length is allowed by every limit, and adds nothing
          have hr : Reserved limit _ _ _ := .element ht (.of_le hi)
          rwa [hr.eq_of_child? hx] at hr
  | typed content =>
      cases t with
      | key name => cases hx
      | index i =>
          obtain ⟨hi, _⟩ := List.getElem?_eq_some_iff.mp hx
          rw [TypedArray.length_values] at hi
          have hr : Reserved limit _ _ _ := .typed (.of_le hi)
          rwa [hr.eq_of_child? hx] at hr
  | _ => cases t <;> cases ht

/-- An array has grown to a position only as far as it may. -/
theorem mayGrow {i : Nat} (h : Reserved limit container (.index i) grown) :
    MayGrow limit (container.length?.getD 0) (i + 1) := by
  cases h with
  | element _ hg => exact hg
  | typed hg => exact hg

/-- There is room for an element. -/
theorem exists_child? {i : Nat} (h : Reserved limit container (.index i) grown) :
    ∃ x, grown.child? (.index i) = some x := by
  cases h with
  | element _ _ =>
      rw [child?_array_index]
      -- the array is now one longer than the position at least
      refine ⟨_, List.getElem?_eq_getElem ?_⟩
      rw [List.length_append, List.length_replicate]
      omega
  | typed _ =>
      rw [child?_typed_index]
      refine ⟨_, List.getElem?_eq_getElem ?_⟩
      rw [TypedArray.length_values, TypedArray.size_pad]
      omega

end Reserved

/-! ### Putting and storing -/

theorem blank_put (v container : Value) (t : Token) :
    (put v container t).blank = container.blank := by
  cases container <;> cases t <;> rfl

theorem Reserved.isTyped_put {limit : Option Int} {container grown : Value} {t : Token}
    (h : Reserved limit container t grown) (v : Value) :
    (put v grown t).isTyped = container.isTyped := by
  rw [← isTyped_blank, blank_put, h.blank_eq, isTyped_blank]

/-- A container that there was room made in holds a value that is put there. -/
theorem child?_put_self {limit : Option Int} {container grown : Value} {t : Token}
    (h : Reserved limit container t grown) (hu : container.isTyped = false) (v : Value) :
    (put v grown t).child? t = some v := by
  cases h with
  | member _ => exact Members.find?_put_self _ _ _
  | @element _ items i _ _ =>
      rw [put, child?_array_index, List.getElem?_set_self]
      -- the position is below the length that the array has grown to
      rw [List.length_append, List.length_replicate]
      omega
  | typed _ => cases hu

/-- Putting a value changes what is held at one token and at no other. -/
theorem child?_put_ne {t s : Token} (h : t ≠ s) (v container : Value) :
    (put v container t).child? s = container.child? s := by
  cases container with
  | object flavour members =>
      cases t <;> cases s <;> try rfl
      next a b =>
        rw [put, child?_object_key, child?_object_key]
        exact Members.find?_put_ne (fun hab => h (congrArg Token.key hab)) _ _
  | array flavour items =>
      cases t <;> cases s <;> try rfl
      next i j =>
        rw [put, child?_array_index, child?_array_index]
        exact List.getElem?_set_ne fun hij => h (congrArg Token.index hij)
  | _ => cases t <;> rfl

theorem length?_put (v container : Value) (t : Token) :
    (put v container t).length? = container.length? := by
  cases container with
  | array flavour items =>
      cases t with
      | key name => rfl
      | index i => simp [put, length?]
  | _ => cases t <;> rfl

theorem put_put (v w container : Value) (t : Token) :
    put v (put w container t) t = put v container t := by
  cases container with
  | object flavour members =>
      cases t with
      | key name => rw [put, put, Members.put_put, put]
      | index i => rfl
  | array flavour items =>
      cases t with
      | key name => rfl
      | index i => rw [put, put, List.set_set, put]
  | _ => cases t <;> rfl

/-- Where a value was put there is room. -/
theorem Reserved.put_self {limit : Option Int} {container grown : Value} {t : Token}
    (h : Reserved limit container t grown) (hu : container.isTyped = false) (v : Value) :
    Reserved limit (put v grown t) t (put v grown t) := by
  have ht : (put v grown t).takes t = true := by
    rw [← takes_blank, blank_put, h.blank_eq, takes_blank]
    exact h.takes
  exact .of_child? ht (child?_put_self h hu v)

/-- Putting back what is there changes nothing. -/
theorem put_child? {container x : Value} {t : Token} (h : container.child? t = some x) :
    put x container t = container := by
  cases container with
  | object flavour members =>
      cases t with
      | key name => rw [put, Members.put_find? h]
      | index i => rfl
  | array flavour items =>
      cases t with
      | key name => rfl
      | index i =>
          obtain ⟨hi, rfl⟩ := List.getElem?_eq_some_iff.mp h
          rw [put, List.set_getElem_self]
  | _ => cases t <;> rfl

/-- Only a typed array does not store every value. -/
theorem assign_of_isTyped_eq_false {container : Value} (h : container.isTyped = false) (v : Value)
    (t : Token) : assign v container t = ⟨put v container t, none⟩ := by
  cases container with
  | typed content => cases h
  | _ => rfl

/-- A typed array stores the value or stays as it is. -/
theorem assign_typed (v : Value) (content : TypedArray) (offset : Nat) :
    (∃ stored, TypedArray.Stored offset v content stored ∧
      assign v (.typed content) (.index offset) = ⟨.typed stored, none⟩) ∨
    (∃ fault, fault.isGrowth = false ∧
      assign v (.typed content) (.index offset) = ⟨.typed content, some fault⟩) := by
  cases hs : content.store offset v with
  | ok stored =>
      exact .inl ⟨stored, TypedArray.store_eq_ok_iff.mp hs, by simp only [assign, hs]⟩
  | error cause =>
      right
      cases cause <;> simp only [assign, hs] <;> exact ⟨_, rfl, rfl⟩

theorem blank_assign (v container : Value) (t : Token) :
    (assign v container t).tree.blank = container.blank := by
  rcases untyped_or_typed container with hu | ⟨content, rfl⟩
  · rw [assign_of_isTyped_eq_false hu]
    exact blank_put v container t
  · cases t with
    | key name => rfl
    | index offset =>
        rcases assign_typed v content offset with ⟨stored, hs, h⟩ | ⟨fault, _, h⟩
        · rw [h]
          exact congrArg Value.typed hs.blank_eq
        · rw [h]

theorem length?_assign (v container : Value) (t : Token) :
    (assign v container t).tree.length? = container.length? := by
  rcases untyped_or_typed container with hu | ⟨content, rfl⟩
  · rw [assign_of_isTyped_eq_false hu]
    exact length?_put v container t
  · cases t with
    | key name => rfl
    | index offset =>
        rcases assign_typed v content offset with ⟨stored, hs, h⟩ | ⟨fault, _, h⟩
        · rw [h]
          exact congrArg some hs.size_eq
        · rw [h]

/-- Storing a value changes one element and no other. -/
theorem child?_assign_ne {t s : Token} (h : t ≠ s) (v container : Value) :
    (assign v container t).tree.child? s = container.child? s := by
  rcases untyped_or_typed container with hu | ⟨content, rfl⟩
  · rw [assign_of_isTyped_eq_false hu]
    exact child?_put_ne h v container
  cases t with
  | key name => rfl
  | index i =>
      rcases assign_typed v content i with ⟨stored, hs, ha⟩ | ⟨fault, _, ha⟩
      · rw [ha]
        -- the typed array has one element replaced, as a list of values
        obtain ⟨e, _, he⟩ := hs.values_eq
        cases s with
        | key name => rfl
        | index j =>
            rw [child?_typed_index, child?_typed_index, he]
            exact List.getElem?_set_ne fun hij => h (congrArg Token.index hij)
      · rw [ha]

end Value
end JsonPointer
