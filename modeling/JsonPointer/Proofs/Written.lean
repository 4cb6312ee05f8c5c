import JsonPointer.Proofs.Descent
import JsonPointer.Proofs.Exact
import JsonPointer.Proofs.Telling

/-!
# Reading what was written

After a write that succeeds, the pointer leads to the value that was stored, and a read that goes on
from there sees that value and nothing else. A typed array is the exception: it keeps an element of
its own type, which for integers and characters is as good as the value, and for floating-point
numbers is the nearest that the type has. `Value.read_write` states both.
-/

namespace JsonPointer

/-! ### Elements -/

/-- What a number stands for; truth values are the numbers zero and one. -/
def Value.number? : Value → Option Exact
  | .bool b => some (.finite (if b then 1 else 0))
  | .int n => some (.finite n)
  | .float x => some x.exact
  | .fraction r => some (.finite r)
  | .decimal d => some d.exact
  | _ => none

namespace TypedArray

/-- The value `e` is the element that the array has for `c`: the same integer, the nearest
floating-point number, or the same character. Single precision is reached through the double. -/
def IsElementFor (c e : Value) : TypedArray → Prop
  | .ints format _ => ∃ n, e = .int n ∧ format.Holds n ∧ c.number? = some (.finite n)
  | .floats false _ => ∃ number x, e = .float x ∧ c.number? = some number ∧
      number.IsRounded FloatFormat.double x
  | .floats true _ => ∃ number x y, e = .float y ∧ c.number? = some number ∧
      number.IsRounded FloatFormat.double x ∧ x.exact.IsRounded FloatFormat.single y
  | .chars _ => e = c

theorem holds_bit (format : IntFormat) (b : Bool) : format.Holds (if b then 1 else 0) := by
  rcases format with ⟨width, signed⟩
  cases width <;> cases signed <;> cases b <;> decide

/-- An integer element is the number itself, and in range. -/
theorem number?_of_elementInt {format : IntFormat} {c : Value} {n : Int}
    (h : elementInt format c = .ok n) : format.Holds n ∧ c.number? = some (.finite n) := by
  cases c with
  | bool b =>
      cases h
      refine ⟨holds_bit format b, ?_⟩
      cases b <;> simp [Value.number?]
  | int k =>
      rw [elementInt] at h
      split at h <;> cases h
      next hholds => exact ⟨hholds, rfl⟩
  | _ => cases h

theorem eq_of_finite {x y : Double} (h : elementDouble.finite x = .ok y) : x = y := by
  rw [elementDouble.finite] at h
  split at h <;> cases h
  rfl

/-- A decimal that is stored is rounded to the nearest double. -/
theorem isRounded_of_toDouble? {d : Decimal} {x : Double} (h : d.toDouble? = some x) :
    d.exact.IsRounded FloatFormat.double x := by
  cases d with
  | finite negative coefficient exponent =>
      cases h
      exact Double.ofScientific_isRounded negative coefficient exponent
  | infinite negative =>
      cases h
      exact .infinite negative
  | nan negative signaling payload =>
      cases signaling <;> cases h
      exact .undefined

/-- A floating-point element is the number rounded to the nearest double. -/
theorem isRounded_of_elementDouble {c : Value} {x : Double} (h : elementDouble c = .ok x) :
    ∃ number, c.number? = some number ∧ number.IsRounded FloatFormat.double x := by
  cases c with
  | bool b =>
      cases h
      refine ⟨_, rfl, ?_⟩
      have hbit := Double.ofInt_isRounded (if b then 1 else 0)
      cases b <;> simpa using hbit
  | int n =>
      obtain rfl := eq_of_finite h
      exact ⟨_, rfl, Double.ofInt_isRounded n⟩
  | float y =>
      cases h
      exact ⟨_, rfl, x.exact_isRounded⟩
  | fraction r =>
      obtain rfl := eq_of_finite h
      exact ⟨_, rfl, Double.ofRat_isRounded r⟩
  | decimal d =>
      rw [elementDouble] at h
      split at h <;> cases h
      next hd => exact ⟨_, rfl, isRounded_of_toDouble? hd⟩
  | _ => cases h

/-- A character element is the text of that character. -/
theorem text_of_elementChar {c : Value} {char : Char} (h : elementChar c = .ok char) :
    c = .text (String.singleton char) := by
  cases c with
  | text s =>
      rw [elementChar] at h
      split at h <;> cases h
      next hs => rw [← String.ofList_toList (s := s), hs]; rfl
  | _ => cases h

/-- What an array keeps of a value is its element for it. -/
theorem Keeps.isElementFor {content : TypedArray} {c e : Value} (h : content.Keeps c e) :
    content.IsElementFor c e := by
  cases h with
  | int he =>
      obtain ⟨hholds, hc⟩ := number?_of_elementInt he
      exact ⟨_, rfl, hholds, hc⟩
  | @float single items _ x he =>
      obtain ⟨number, hc, hx⟩ := isRounded_of_elementDouble he
      cases single with
      | false => exact ⟨number, x, rfl, hc, hx⟩
      | true => exact ⟨number, x, x.toSingle, rfl, hc, hx, x.toSingle_isRounded⟩
  | char he => exact (text_of_elementChar he).symm

/-- The element that was stored stands at the offset. -/
theorem Stored.item? {content stored : TypedArray} {offset : Nat} {c : Value}
    (h : Stored offset c content stored) (hlt : offset < content.size) :
    ∃ e, content.Keeps c e ∧ stored.values[offset]? = some e := by
  obtain ⟨e, hkeeps, hvalues⟩ := h.values_eq
  refine ⟨e, hkeeps, ?_⟩
  rw [hvalues, List.getElem?_set_self]
  rwa [length_values]

/-- Which element an array has for a value depends on the type of its elements alone. -/
theorem IsElementFor.of_blank_eq {content other : TypedArray} {c e : Value}
    (h : content.IsElementFor c e) (hb : other.blank = content.blank) : other.IsElementFor c e := by
  cases content <;> cases other <;> cases hb
  · exact h
  · next single _ _ => cases single <;> exact h
  · exact h

end TypedArray

/-! ### What is read -/

namespace Value

variable {limit : Option Int} {v container grown : Value} {t : Token} {ts : List Token}

/-- The value `c` is what the tree has at the pointer, as far as the container there allows. Errors
name the pointer, so reads are compared for one that can be written; `follow` compares them all. -/
inductive Stores (tree : Value) (p : Pointer) (c : Value) : Prop
  | value (holder : Value) (parent : tree.read p.parent = .ok holder)
      (untyped : holder.isTyped = false)
      (follow : ∀ ts, tree.follow (p.tokens ++ ts) = c.follow ts)
      (read : p.IsPrintable → ∀ q r : Pointer, q.tokens = p.tokens ++ r.tokens →
        (tree.read q).mapError Error.report = (c.read r).mapError Error.report)
  | element (content : TypedArray) (e : Value) (parent : tree.read p.parent = .ok (.typed content))
      (read : tree.read p = .ok e) (element : content.IsElementFor c e)

/-- Where the ways below agree, the reads do. -/
theorem report_read_eq {tree c : Value} {p q r : Pointer} (hp : p.IsPrintable)
    (h : q.tokens = p.tokens ++ r.tokens)
    (hfollow : tree.follow (p.tokens ++ r.tokens) = c.follow r.tokens) :
    (tree.read q).mapError Error.report = (c.read r).mapError Error.report := by
  unfold read
  rw [h, hfollow]
  cases c.follow r.tokens with
  | ok x => rfl
  | error fault => exact congrArg Except.error (fault.report_at (hp.append_iff h))

/-- After a write below a container, the tokens lead to the value, or to the element that a typed
array keeps of it. -/
theorem follow_writeBelow {c' : Value} (h : writeBelow limit v container t ts = ⟨c', none⟩) :
    ∃ holder, c'.follow (t :: ts).dropLast = .ok holder ∧
      ((holder.isTyped = false ∧ ∀ rest, c'.follow (t :: ts ++ rest) = v.follow rest) ∨
        ∃ content e, holder = .typed content ∧ c'.follow (t :: ts) = .ok e ∧
          content.IsElementFor v e) := by
  -- along the tokens; only at the last one the value is stored
  induction ts generalizing container t c' with
  | nil =>
      rcases untyped_or_typed container with hu | ⟨content, rfl⟩
      · obtain ⟨g, hr⟩ := exists_reserved_of_writeBelow h
        have hstep := step_writeBelow v [] hr hu
        rw [h] at hstep
        have hu' : c'.isTyped = false := by
          rw [← isTyped_blank, blank_eq_of_writeBelow h, isTyped_blank, hu]
        exact ⟨c', rfl, .inl ⟨hu', fun rest => follow_cons_of_step hstep rest⟩⟩
      · obtain ⟨i, stored, rfl, _, rfl, _, hs⟩ := exists_stored_of_writeBelow h
        obtain ⟨e, hkeeps, hitem⟩ := hs.item? (by rw [TypedArray.size_pad]; omega)
        refine ⟨.typed stored, rfl, .inr ⟨stored, e, rfl, ?_, ?_⟩⟩
        · have hstep : (Value.typed stored).step (.index i) = .ok e :=
            step_eq_ok_iff.mpr ⟨rfl, hitem⟩
          exact follow_cons_of_step hstep []
        · exact hkeeps.isElementFor.of_blank_eq hs.blank_eq
  | cons next ts ih =>
      rcases untyped_or_typed container with hu | ⟨content, rfl⟩
      · obtain ⟨g, hr⟩ := exists_reserved_of_writeBelow h
        have hstep := step_writeBelow v (next :: ts) hr hu
        obtain ⟨m, hm, hput⟩ := (writeBelow_untyped_eq_iff hr hu).mp h
        rw [h, hm] at hstep
        -- the level below has become `m`, and the way goes on there
        obtain ⟨holder, hholder, hread⟩ := ih hm
        refine ⟨holder, (follow_cons_of_step hstep _).trans hholder, ?_⟩
        rcases hread with ⟨hu', hrest⟩ | ⟨content, e, rfl, he, helement⟩
        · exact .inl ⟨hu', fun rest => (follow_cons_of_step hstep _).trans (hrest rest)⟩
        · exact .inr ⟨content, e, rfl, (follow_cons_of_step hstep _).trans he, helement⟩
      · obtain ⟨i, stored, _, hnil, _⟩ := exists_stored_of_writeBelow h
        cases hnil

/-- **Reading what was written.** A write that succeeds has converted the value for the pointer; the
pointer then leads somewhere, and what is read there and below is the converted value, or in a typed
array the element for it. -/
theorem read_write {tree tree' : Value} {p : Pointer} {policy : Policy}
    (h : tree.write p v policy = (tree', none)) :
    ∃ c, v.coerce p = .ok c ∧ tree'.has p = .ok true ∧ tree'.Stores p c := by
  obtain ⟨t, ts, c, hadmitted, hw⟩ := exists_admitted_of_write h
  have hcoerce : v.coerce p = .ok c := by rw [coerce, hadmitted.coerced]
  have hhas {x : Value} (hx : tree'.follow p.tokens = .ok x) : tree'.has p = .ok true := by
    rw [has, hx]
  obtain ⟨holder, hholder, hread⟩ := follow_writeBelow hw
  rw [← hadmitted.tokens] at hholder hread
  refine ⟨c, hcoerce, ?_, ?_⟩
  · rcases hread with ⟨_, hrest⟩ | ⟨_, e, _, he, _⟩
    · exact hhas ((List.append_nil p.tokens ▸ hrest []).trans (follow_nil c))
    · exact hhas he
  · -- the holder stands at the parent, and its sort decides what was stored
    have hparent : tree'.read p.parent = .ok holder := read_eq_ok_iff.mpr hholder
    rcases hread with ⟨hu, hrest⟩ | ⟨content, e, rfl, he, helement⟩
    · exact .value holder hparent hu hrest
        fun hp q r hq => report_read_eq hp hq (hrest r.tokens)
    · exact .element content e hparent (read_eq_ok_iff.mpr he) helement

/-- A write to `/a/2/b` of `{"a": [1]}` makes the object that holds the value. -/
theorem read_write_of_fresh :
    let tree := Value.object .plain [(.text "a", .array .list [.int 1])]
    let p : Pointer := { tokens := [.key "a", .index 1, .key "b"] }
    let made := Value.object .plain [(.text "b", .int 7)]
    let tree' := Value.object .plain [(.text "a", .array .list [.int 1, made])]
    tree.write p (.int 7) {} = (tree', none) ∧
    ∃ c, (Value.int 7).coerce p = .ok c ∧ tree'.has p = .ok true ∧ tree'.Stores p c := by
  intro tree p made tree'
  have h : tree.write p (.int 7) {} = (tree', none) := rfl
  exact ⟨h, read_write h⟩

/-- The element for `2 ^ 53 + 1` in an array of doubles is another number. -/
theorem number?_ne_of_element :
    let tree := Value.typed (.floats false [])
    let p : Pointer := { tokens := [.index 0] }
    let v := Value.int (2 ^ 53 + 1)
    let x := Double.ofInt (2 ^ 53 + 1)
    tree.write p v {} = (.typed (.floats false [x]), none) ∧ v.coerce p = .ok v ∧
    (Value.typed (.floats false [x])).read p = .ok (.float x) ∧
    (Value.float x).number? ≠ v.number? := by
  intro tree p v x
  refine ⟨rfl, rfl, rfl, ?_⟩
  have hx : x = .finite false (2 ^ 52) 1 (by decide) := by decide +kernel
  rw [hx]
  intro h
  have heq : (4503599627370496 : ℚ) * 2 = 9007199254740993 := by simpa [number?, v, signed] using h
  norm_num at heq

end Value
end JsonPointer
