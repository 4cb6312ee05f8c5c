import JsonPointer.Error
import JsonPointer.Pointer.Parse
import JsonPointer.Proofs.Escapes
import JsonPointer.Proofs.Numerals
import Mathlib.Data.List.Forall2

/-!
# The grammar of pointers

`ofChars` reads a pointer from characters: it splits them at the slashes, splits a tag off the last
segment, and then reads the segments one by one. Here stands, without the steps, what it reads and
what it refuses:

    ofChars_eq_ok_iff    : ofChars shift u = .ok p    ↔  u is empty, or decomposes into p
    ofChars_eq_error_iff : ofChars shift u = .error e ↔  Rejects shift u e e.errorClass

A `Decomposition` of a text names its segments, the kind whose tag ends it, and what each segment
denotes; `Spells` is the part of it that is about the whole text, `Denotes` the part about one
segment. A text has at most one decomposition. That is not clear from the relation, where a `::` may
stand in a segment as well as before a tag, but it follows from `parts_eq_ok_iff`, as `parts` is a
function.

Each of the three steps has its two equations, for success and for failure, of the same form:
`token_eq_ok_iff` for a segment, `constraint_eq_ok_iff` for a tag and `parts_eq_ok_iff` for a text.
-/

namespace JsonPointer

/-! ### Reading one thing after the other -/

section Except

variable {α β ε : Type} {f : α → Except ε β}

theorem bind_eq_ok_iff {x : Except ε α} {b : β} :
    x.bind f = .ok b ↔ ∃ a, x = .ok a ∧ f a = .ok b := by
  cases x <;> simp [Except.bind]

theorem bind_eq_error_iff {x : Except ε α} {e : ε} :
    x.bind f = .error e ↔ x = .error e ∨ ∃ a, x = .ok a ∧ f a = .error e := by
  cases x <;> simp [Except.bind]

theorem mapM_cons_of_error {x : α} {e : ε} (h : f x = .error e) (xs : List α) :
    (x :: xs).mapM f = .error e := by
  rw [List.mapM_cons, h]
  rfl

theorem mapM_cons_of_ok {x : α} {y : β} (h : f x = .ok y) (xs : List α) :
    (x :: xs).mapM f = (xs.mapM f).map (y :: ·) := by
  rw [List.mapM_cons, h]
  cases xs.mapM f <;> rfl

/-- A list is read exactly if each thing in it is, one after the other. -/
theorem mapM_eq_ok_iff {xs : List α} {ys : List β} :
    xs.mapM f = .ok ys ↔ List.Forall₂ (fun x y => f x = .ok y) xs ys := by
  induction xs generalizing ys with
  | nil => cases ys <;> simp [pure, Except.pure]
  | cons x xs ih =>
      cases hx : f x with
      | error e => cases ys <;> simp [mapM_cons_of_error hx, hx]
      | ok y =>
          rw [mapM_cons_of_ok hx]
          cases hxs : xs.mapM f with
          | error e => cases ys <;> simp [Except.map, ← ih, hxs]
          | ok zs => cases ys <;> simp [Except.map, ← ih, hxs, hx]

/-- The leftmost failure decides. -/
theorem mapM_eq_error_iff {xs : List α} {e : ε} :
    xs.mapM f = .error e ↔
      ∃ good bad rest, xs = good ++ bad :: rest ∧ (∀ x ∈ good, ∃ y, f x = .ok y) ∧
        f bad = .error e := by
  constructor
  · intro h
    induction xs with
    | nil => cases h
    | cons x xs ih =>
        cases hx : f x with
        | error e' =>
            rw [mapM_cons_of_error hx] at h
            cases h
            exact ⟨[], x, xs, rfl, by simp, hx⟩
        | ok y =>
            rw [mapM_cons_of_ok hx] at h
            cases hxs : xs.mapM f with
            | ok ys => rw [hxs] at h; cases h
            | error e' =>
                rw [hxs] at h
                cases h
                obtain ⟨good, bad, rest, rfl, hgood, hbad⟩ := ih hxs
                exact ⟨x :: good, bad, rest, rfl, List.forall_mem_cons.mpr ⟨⟨y, hx⟩, hgood⟩, hbad⟩
  · -- what comes behind the first failure is not looked at
    rintro ⟨good, bad, rest, rfl, hgood, hbad⟩
    induction good with
    | nil => exact mapM_cons_of_error hbad rest
    | cons x good ih =>
        rw [List.forall_mem_cons] at hgood
        obtain ⟨⟨y, hx⟩, hgood⟩ := hgood
        rw [List.cons_append, mapM_cons_of_ok hx, ih hgood]
        rfl

end Except

namespace Pointer

open Digits Tilde

variable {shift : Bool} {segment cs before tag : List Char} {kind : Kind} {e : PointerError}

/-! ### One segment -/

/-- The token that a segment stands for. -/
inductive Denotes (shift : Bool) : List Char → Token → Prop
  /-- Digits are a position; `shift` makes it one more. Counted from one, it is `offset + 1`. -/
  | position {digits : List Char} {offset : Nat} (numeral : isNumeral digits = true)
      (short : digits.length ≤ maxDigits)
      (value : natOfDigits digits + shift.toNat = offset + 1) :
      Denotes shift digits (.index offset)
  /-- A backslash before digits makes a name of them. -/
  | literal {digits : List Char} (numeral : isNumeral digits = true) :
      Denotes shift ('\\' :: digits) (.key (String.ofList digits))
  /-- Anything else is a name, with its escapes. -/
  | name {segment : List Char} (numeral : isNumeral segment = false)
      (literal : isLiteral segment = false) :
      Denotes shift segment (.key (String.ofList (scan segment)))

/-- The error, and its class, for a segment that stands for no token. -/
inductive Faulty (shift : Bool) (segment : List Char) : PointerError → ErrorClass → Prop
  /-- There are too many digits. -/
  | tooManyDigits (numeral : isNumeral segment = true) (long : maxDigits < segment.length) :
      Faulty shift segment (.tooManyDigits segment.length) .value
  /-- All digits are zero, where positions are counted from one. -/
  | positionZero (unshifted : shift = false) (numeral : isNumeral segment = true)
      (short : segment.length ≤ maxDigits) (zeros : ∀ c ∈ segment, c = '0') :
      Faulty shift segment .positionZero .malformedPointer

/-- Digits are a position unless there are too many of them, or they make zero where positions are
counted from one. -/
theorem position_eq_ok_iff {t : Token} :
    position shift segment = .ok t ↔
      segment.length ≤ maxDigits ∧
        ∃ offset, natOfDigits segment + shift.toNat = offset + 1 ∧ t = .index offset := by
  unfold position
  split
  · next h => simp [Nat.not_le.mpr h]
  · next h =>
      rw [Nat.not_lt] at h
      cases shift <;> cases natOfDigits segment <;> simp [h, eq_comm]

theorem position_eq_error_iff :
    position shift segment = .error e ↔
      (maxDigits < segment.length ∧ e = .tooManyDigits segment.length) ∨
      (segment.length ≤ maxDigits ∧ shift = false ∧ natOfDigits segment = 0 ∧
        e = .positionZero) := by
  unfold position
  split
  · next h => simp [h, Nat.not_le.mpr h, eq_comm]
  · next h =>
      rw [Nat.not_lt] at h
      cases shift <;> cases natOfDigits segment <;> simp [h, Nat.not_lt.mpr h, eq_comm]

theorem token_of_isNumeral (h : isNumeral segment = true) (shift : Bool) :
    token shift segment = position shift segment := by
  unfold token
  rw [if_pos h]

theorem token_of_literal {digits : List Char} (h : isNumeral digits = true) (shift : Bool) :
    token shift ('\\' :: digits) = .ok (.key (String.ofList digits)) := by
  have hb : isNumeral ('\\' :: digits) = false := rfl
  unfold token
  simp only [hb, h, Bool.false_eq_true, if_false, if_true]

theorem token_of_name (h : isNumeral segment = false) (h' : isLiteral segment = false)
    (shift : Bool) : token shift segment = .ok (.key (String.ofList (scan segment))) := by
  unfold token
  simp only [h, Bool.false_eq_true, if_false, unescape_eq_scan]
  -- a backslash alone makes no literal, only one before a numeral does
  split
  · next digits =>
      have hd : isNumeral digits = false := h'
      rw [hd]
      rfl
  · rfl

/-- A segment is a numeral, a literal or a name. -/
theorem segment_cases (segment : List Char) :
    isNumeral segment = true ∨
    (∃ digits, segment = '\\' :: digits ∧ isNumeral digits = true) ∨
    (isNumeral segment = false ∧ isLiteral segment = false) := by
  cases hn : isNumeral segment with
  | true => exact .inl rfl
  | false =>
      cases hl : isLiteral segment with
      | true => exact .inr (.inl (isLiteral_iff.mp hl))
      | false => exact .inr (.inr ⟨rfl, rfl⟩)

/-- A segment is read as the token that it denotes. -/
theorem token_eq_ok_iff {t : Token} : token shift segment = .ok t ↔ Denotes shift segment t := by
  constructor
  · intro h
    rcases segment_cases segment with hn | ⟨digits, rfl, hd⟩ | ⟨hn, hl⟩
    · rw [token_of_isNumeral hn, position_eq_ok_iff] at h
      obtain ⟨hshort, offset, hvalue, rfl⟩ := h
      exact .position hn hshort hvalue
    · rw [token_of_literal hd] at h
      cases h
      exact .literal hd
    · rw [token_of_name hn hl] at h
      cases h
      exact .name hn hl
  · intro h
    cases h with
    | position hn hshort hvalue =>
        rw [token_of_isNumeral hn, position_eq_ok_iff]
        exact ⟨hshort, _, hvalue, rfl⟩
    | literal hd => exact token_of_literal hd shift
    | name hn hl => exact token_of_name hn hl shift

/-- A segment is refused for the reason that `Faulty` gives. -/
theorem token_eq_error_iff :
    token shift segment = .error e ↔ Faulty shift segment e e.errorClass := by
  constructor
  · intro h
    rcases segment_cases segment with hn | ⟨digits, rfl, hd⟩ | ⟨hn, hl⟩
    · rw [token_of_isNumeral hn, position_eq_error_iff] at h
      rcases h with ⟨hlong, rfl⟩ | ⟨hshort, hshift, hzero, rfl⟩
      · exact .tooManyDigits hn hlong
      · exact .positionZero hshift hn hshort
          ((natOfDigits_eq_zero_iff (isNumeral_iff.mp hn).2).mp hzero)
    · rw [token_of_literal hd] at h
      cases h
    · rw [token_of_name hn hl] at h
      cases h
  · intro h
    -- the class is an index of `Faulty`, which only a variable can be matched with
    generalize e.errorClass = c at h
    cases h with
    | tooManyDigits hn hlong =>
        rw [token_of_isNumeral hn, position_eq_error_iff]
        exact .inl ⟨hlong, rfl⟩
    | positionZero hshift hn hshort hzeros =>
        rw [token_of_isNumeral hn, position_eq_error_iff]
        exact .inr ⟨hshort, hshift,
          (natOfDigits_eq_zero_iff (isNumeral_iff.mp hn).2).mpr hzeros, rfl⟩

/-! ### The tag -/

def IsTag (tag : List Char) : Prop := ∃ kind : Kind, kind ≠ .any ∧ kind.name.toList = tag

/-- A tag stands for the kind that it names. The kind without a constraint has no tag. -/
theorem ofTag?_eq_some_iff :
    Kind.ofTag? (String.ofList tag) = some kind ↔ kind ≠ .any ∧ kind.name.toList = tag := by
  have hname : kind.name.toList = tag ↔ kind.name = String.ofList tag := by
    rw [← String.toList_inj, String.toList_ofList]
  rw [hname]
  constructor
  · intro h
    -- the search goes through the kinds that are constraints
    have hk : kind ∈ Kind.constraints := List.mem_of_find?_eq_some h
    refine ⟨?_, by simpa using List.find?_some h⟩
    rintro rfl
    simp [Kind.constraints] at hk
  · rintro ⟨hk, hname⟩
    rw [← hname]
    cases kind <;> first | rfl | exact absurd rfl hk

theorem ofTag?_eq_none_iff : Kind.ofTag? (String.ofList tag) = none ↔ ¬ IsTag tag := by
  rw [Option.eq_none_iff_forall_ne_some]
  simp only [ne_eq, ofTag?_eq_some_iff, IsTag, not_exists]

theorem tagChars_any : tagChars .any = [] := rfl

theorem tagChars_of_ne_any (h : kind ≠ .any) : tagChars kind = ':' :: ':' :: kind.name.toList :=
  if_neg h

theorem slash_notMem_tagChars (kind : Kind) : '/' ∉ tagChars kind := by
  cases kind <;> decide

/-- The separator of a tag is the last one. -/
theorem not_isTagged_tag (kind : Kind) : ¬ IsTagged (':' :: kind.name.toList) := by
  cases kind <;> simp [Kind.name, isTagged_cons, not_isTagged_nil]

/-- The first character belongs to the last separator, or to what stands before it. -/
theorem splitTag_cons (c : Char) (cs : List Char) :
    splitTag (c :: cs) =
      match splitTag cs with
      | some (before, tag) => some (c :: before, tag)
      | none => if c = ':' ∧ cs.head? = some ':' then some ([], cs.tail) else none := by
  conv_lhs => unfold splitTag
  cases splitTag cs with
  | some parts => rfl
  | none =>
      -- no separator stands further right, so the first one is the last if it begins here
      by_cases h : c = ':' ∧ cs.head? = some ':'
      · obtain ⟨rfl, hhead⟩ := h
        obtain ⟨tag, rfl⟩ := List.head?_eq_some_iff.mp hhead
        rfl
      · simp only [if_neg h]
        split
        · simp at h
        · rfl

/-- A text is split if there is a separator in it. -/
theorem splitTag_eq_none_iff : splitTag cs = none ↔ ¬ IsTagged cs := by
  induction cs with
  | nil => simp [splitTag, not_isTagged_nil]
  | cons c cs ih =>
      rw [isTagged_cons, splitTag_cons]
      cases h : splitTag cs <;> simp_all

/-- A text is split at its last separator: none begins in the tag, not even at the second colon. -/
theorem splitTag_eq_some_iff :
    splitTag cs = some (before, tag) ↔
      cs = before ++ ':' :: ':' :: tag ∧ ¬ IsTagged (':' :: tag) := by
  constructor
  · intro h
    induction cs generalizing before with
    | nil => cases h
    | cons c cs ih =>
        rw [splitTag_cons] at h
        cases hs : splitTag cs with
        | some parts =>
            rw [hs] at h
            cases h
            obtain ⟨rfl, htag⟩ := ih hs
            exact ⟨rfl, htag⟩
        | none =>
            rw [hs] at h
            -- behind this separator there is no other
            obtain ⟨⟨rfl, hhead⟩, hparts⟩ := Option.ite_none_right_eq_some.mp h
            cases hparts
            obtain ⟨tag, rfl⟩ := List.head?_eq_some_iff.mp hhead
            exact ⟨rfl, splitTag_eq_none_iff.mp hs⟩
  · rintro ⟨rfl, htag⟩
    induction before with
    | nil =>
        rw [List.nil_append, splitTag_cons, splitTag_eq_none_iff.mpr htag]
        rfl
    | cons c before ih => rw [List.cons_append, splitTag_cons, ih]

/-- A last segment ends in the tag of a kind, or it has no separator. -/
theorem constraint_eq_ok_iff :
    constraint segment = .ok (before, kind) ↔
      segment = before ++ tagChars kind ∧ (kind = .any → ¬ IsTagged before) := by
  constructor
  · intro h
    unfold constraint at h
    split at h
    · next hnone =>
        cases h
        exact ⟨(List.append_nil _).symm, fun _ => splitTag_eq_none_iff.mp hnone⟩
    · next before' tag hsome =>
        split at h
        · next kind' hkind =>
            cases h
            obtain ⟨hne, rfl⟩ := ofTag?_eq_some_iff.mp hkind
            refine ⟨?_, fun hany => absurd hany hne⟩
            rw [tagChars_of_ne_any hne, (splitTag_eq_some_iff.mp hsome).1]
        · cases h
  · rintro ⟨rfl, huntagged⟩
    unfold constraint
    -- without a tag the segment must not be split, with one it is split right before it
    by_cases hany : kind = .any
    · subst hany
      rw [tagChars_any, List.append_nil, splitTag_eq_none_iff.mpr (huntagged rfl)]
    · rw [tagChars_of_ne_any hany, splitTag_eq_some_iff.mpr ⟨rfl, not_isTagged_tag kind⟩]
      simp only [ofTag?_eq_some_iff.mpr ⟨hany, rfl⟩]

/-- A last segment is refused for what stands behind its last separator. -/
theorem constraint_eq_error_iff :
    constraint segment = .error e ↔
      ∃ before tag, segment = before ++ ':' :: ':' :: tag ∧ ¬ IsTagged (':' :: tag) ∧
        ¬ IsTag tag ∧ e = .unknownTag (String.ofList tag) := by
  unfold constraint
  cases h : splitTag segment with
  | none =>
      simp only [reduceCtorEq, false_iff]
      rintro ⟨before, tag, hs, htag, _⟩
      rw [splitTag_eq_some_iff.mpr ⟨hs, htag⟩] at h
      cases h
  | some parts =>
      obtain ⟨before, tag⟩ := parts
      -- the last separator is the only one at which the text can be split
      have hiff (before' tag' : List Char) :
          segment = before' ++ ':' :: ':' :: tag' ∧ ¬ IsTagged (':' :: tag') ↔
            before = before' ∧ tag = tag' := by
        rw [← splitTag_eq_some_iff, h, Option.some_inj, Prod.mk.injEq]
      simp only [← and_assoc, hiff]
      cases hk : Kind.ofTag? (String.ofList tag) with
      | some kind =>
          simp only [reduceCtorEq, false_iff]
          rintro ⟨_, _, ⟨⟨rfl, rfl⟩, hunknown⟩, _⟩
          rw [ofTag?_eq_none_iff.mpr hunknown] at hk
          cases hk
      | none =>
          rw [ofTag?_eq_none_iff] at hk
          simp [hk, eq_comm]

/-! ### The text -/

def joined (segments : List (List Char)) : List Char := segments.flatMap fun s => '/' :: s

theorem joined_cons (s : List Char) (segments : List (List Char)) :
    joined (s :: segments) = '/' :: s ++ joined segments := rfl

theorem joined_concat (init : List (List Char)) (last : List Char) :
    joined (init ++ [last]) = joined init ++ '/' :: last := by
  rw [joined, List.flatMap_append, List.flatMap_singleton, joined]

/-- What ends the last segment ends the text. -/
theorem joined_concat_append (init : List (List Char)) (last rest : List Char) :
    joined (init ++ [last ++ rest]) = joined (init ++ [last]) ++ rest := by
  rw [joined_concat, joined_concat, List.append_assoc, List.cons_append]

/-- The text is made of the segments, and the tag of the kind behind the last of them. -/
structure Spells (u : List Char) (segments : List (List Char)) (kind : Kind) : Prop where
  text : u = joined segments ++ tagChars kind
  ne_nil : segments ≠ []
  /-- A slash always separates two segments. -/
  slashless : ∀ s ∈ segments, '/' ∉ s
  /-- Without a tag, there is no separator in the last segment. -/
  untagged : kind = .any → ∀ s ∈ segments.getLast?, ¬ IsTagged s

/-- The segments of the text behind the first slash, and the kind. -/
def parts (cs : List Char) : Except PointerError (List (List Char) × Kind) :=
  constrained (segments cs).1 (segments cs).2

theorem segments_of_notMem (h : '/' ∉ cs) : segments cs = (cs, []) := by
  induction cs with
  | nil => rfl
  | cons c cs ih =>
      rw [List.mem_cons, not_or] at h
      rw [segments, ih h.2]
      exact if_neg (Ne.symm h.1)

/-- A slash ends a segment. -/
theorem segments_append {s : List Char} (h : '/' ∉ s) (cs : List Char) :
    segments (s ++ '/' :: cs) = (s, (segments cs).1 :: (segments cs).2) := by
  induction s with
  | nil =>
      rw [List.nil_append, segments]
      exact if_pos rfl
  | cons c s ih =>
      rw [List.mem_cons, not_or] at h
      rw [List.cons_append, segments, ih h.2]
      exact if_neg (Ne.symm h.1)

/-- Segments without slashes are what their text is split into. -/
theorem segments_joined {first : List Char} {others : List (List Char)}
    (h : ∀ s ∈ first :: others, '/' ∉ s) : segments (first ++ joined others) = (first, others) := by
  induction others generalizing first with
  | nil =>
      rw [List.forall_mem_singleton] at h
      rw [joined, List.flatMap_nil, List.append_nil, segments_of_notMem h]
  | cons s others ih =>
      rw [List.forall_mem_cons] at h
      rw [joined_cons, List.cons_append, segments_append h.1, ih h.2]

/-- Every text behind a slash is made of segments. -/
theorem exists_joined (cs : List Char) :
    ∃ init last, '/' :: cs = joined (init ++ [last]) ∧ ∀ s ∈ init ++ [last], '/' ∉ s := by
  induction cs with
  | nil => exact ⟨[], [], rfl, by simp⟩
  | cons c cs ih =>
      obtain ⟨init, last, htext, hslash⟩ := ih
      by_cases hc : c = '/'
      · -- a slash starts a new segment, which is empty so far
        subst hc
        refine ⟨[] :: init, last, ?_, List.forall_mem_cons.mpr ⟨by simp, hslash⟩⟩
        rw [List.cons_append, joined_cons, ← htext]
        rfl
      · -- the character goes to the front of the first segment
        cases init with
        | nil =>
            rw [List.nil_append, List.forall_mem_singleton] at hslash
            refine ⟨[], c :: last, ?_, ?_⟩
            · obtain rfl : cs = last := by simpa [joined] using htext
              simp [joined]
            · simpa [Ne.symm hc] using hslash
        | cons s init =>
            rw [List.cons_append, List.forall_mem_cons] at hslash
            refine ⟨(c :: s) :: init, last, ?_, ?_⟩
            · rw [List.cons_append, joined_cons, List.cons_append, List.cons.injEq] at htext
              rw [List.cons_append, joined_cons, htext.2]
              rfl
            · rw [List.cons_append, List.forall_mem_cons]
              exact ⟨by simpa [Ne.symm hc] using hslash.1, hslash.2⟩

theorem constrained_concat {first : List Char} {others init : List (List Char)} {last : List Char}
    (h : first :: others = init ++ [last]) :
    constrained first others =
      (constraint last).map fun (before, kind) => (init ++ [before], kind) := by
  induction others generalizing first init with
  | nil =>
      obtain ⟨rfl, rfl⟩ : init = [] ∧ first = last := by
        cases init <;> simp_all
      rfl
  | cons next others ih =>
      -- the first segment is the last one too, or is passed over
      cases init with
      | nil => simp at h
      | cons s init =>
          rw [List.cons_append, List.cons.injEq] at h
          obtain ⟨rfl, h⟩ := h
          rw [constrained, ih h]
          cases constraint last <;> rfl

/-- Only the last segment is looked at for a tag. -/
theorem parts_of_joined {init : List (List Char)} {last : List Char}
    (h : '/' :: cs = joined (init ++ [last])) (hs : ∀ s ∈ init ++ [last], '/' ∉ s) :
    parts cs = (constraint last).map fun (before, kind) => (init ++ [before], kind) := by
  cases hraw : init ++ [last] with
  | nil => simp at hraw
  | cons first others =>
      rw [hraw] at h hs
      rw [joined_cons, List.cons_append, List.cons.injEq] at h
      rw [parts, h.2, segments_joined hs]
      exact constrained_concat hraw.symm

theorem forall_mem_concat {p : List Char → Prop} {init : List (List Char)} {last : List Char} :
    (∀ s ∈ init ++ [last], p s) ↔ (∀ s ∈ init, p s) ∧ p last := by
  rw [List.forall_mem_append, List.forall_mem_singleton]

/-- What becomes of a text is what becomes of its last segment. -/
theorem exists_parts_eq (cs : List Char) :
    ∃ init last, '/' :: cs = joined (init ++ [last]) ∧ (∀ s ∈ init ++ [last], '/' ∉ s) ∧
      parts cs = (constraint last).map fun (before, kind) => (init ++ [before], kind) := by
  obtain ⟨init, last, htext, hslash⟩ := exists_joined cs
  exact ⟨init, last, htext, hslash, parts_of_joined htext hslash⟩

/-- A text behind a slash is split into the segments and the kind that spell it. -/
theorem parts_eq_ok_iff {segments : List (List Char)} :
    parts cs = .ok (segments, kind) ↔ Spells ('/' :: cs) segments kind := by
  constructor
  · intro h
    obtain ⟨init, last, htext, hslash, hparts⟩ := exists_parts_eq cs
    rw [hparts] at h
    cases hlast : constraint last with
    | error e => rw [hlast] at h; cases h
    | ok result =>
        rw [hlast] at h
        cases h
        obtain ⟨rfl, huntagged⟩ := constraint_eq_ok_iff.mp hlast
        -- the tag is taken off the last segment, which stays without a slash
        rw [forall_mem_concat, List.mem_append, not_or] at hslash
        rw [joined_concat_append] at htext
        refine ⟨htext, by simp, forall_mem_concat.mpr ⟨hslash.1, hslash.2.1⟩, ?_⟩
        simpa using huntagged
  · rintro ⟨htext, hne, hslash, huntagged⟩
    obtain ⟨init, before, rfl⟩ := (List.eq_nil_or_concat' segments).resolve_left hne
    rw [forall_mem_concat] at hslash
    rw [← joined_concat_append] at htext
    have hlast : constraint (before ++ tagChars kind) = .ok (before, kind) :=
      constraint_eq_ok_iff.mpr ⟨rfl, by simpa using huntagged⟩
    have hslash' : '/' ∉ before ++ tagChars kind := by
      rw [List.mem_append, not_or]
      exact ⟨hslash.2, slash_notMem_tagChars kind⟩
    rw [parts_of_joined htext (forall_mem_concat.mpr ⟨hslash.1, hslash'⟩), hlast]
    rfl

/-- A tag that is none is refused, whatever stands before it. -/
theorem parts_eq_error_iff :
    parts cs = .error e ↔
      ∃ front tag, cs = front ++ ':' :: ':' :: tag ∧ '/' ∉ tag ∧ ¬ IsTagged (':' :: tag) ∧
        ¬ IsTag tag ∧ e = .unknownTag (String.ofList tag) := by
  constructor
  · intro h
    obtain ⟨init, last, htext, hslash, hparts⟩ := exists_parts_eq cs
    rw [hparts] at h
    cases hlast : constraint last with
    | ok result => rw [hlast] at h; cases h
    | error e' =>
        rw [hlast] at h
        cases h
        obtain ⟨before, tag, rfl, htag, hunknown, rfl⟩ := constraint_eq_error_iff.mp hlast
        have hslash' : '/' ∉ tag := fun hmem => (forall_mem_concat.mp hslash).2 (by simp [hmem])
        -- the text starts with a slash, which `front` lacks
        obtain ⟨front, hfront⟩ : ∃ front, joined (init ++ [before]) = '/' :: front := by
          cases init <;> exact ⟨_, rfl⟩
        refine ⟨front, tag, ?_, hslash', htag, hunknown, rfl⟩
        rw [joined_concat_append, hfront, List.cons_append, List.cons.injEq] at htext
        exact htext.2
  · rintro ⟨front, tag, rfl, hslash', htag, hunknown, rfl⟩
    obtain ⟨init, last, htext, hslash⟩ := exists_joined front
    rw [forall_mem_concat] at hslash
    -- the separator and the tag belong to the last segment, as no slash stands in the tag
    have htext' : '/' :: (front ++ ':' :: ':' :: tag) =
        joined (init ++ [last ++ ':' :: ':' :: tag]) := by
      rw [joined_concat_append, ← htext, List.cons_append]
    have hslash'' : '/' ∉ last ++ ':' :: ':' :: tag := by
      simp [hslash.2, hslash']
    have hlast : constraint (last ++ ':' :: ':' :: tag) =
        .error (.unknownTag (String.ofList tag)) :=
      constraint_eq_error_iff.mpr ⟨last, tag, rfl, htag, hunknown, rfl⟩
    rw [parts_of_joined htext' (forall_mem_concat.mpr ⟨hslash.1, hslash''⟩), hlast]
    rfl

theorem Spells.exists_cons {u : List Char} {segments : List (List Char)}
    (h : Spells u segments kind) : ∃ cs, u = '/' :: cs := by
  cases segments with
  | nil => exact absurd rfl h.ne_nil
  | cons s segments => exact ⟨_, h.text⟩

/-! ### Decompositions and rejections -/

/-- The segments of a text, what they denote, and the kind whose tag ends the text. -/
structure Decomposition (shift : Bool) (u : List Char) where
  segments : List (List Char)
  kind : Kind
  tokens : List Token
  spells : Spells u segments kind
  denotes : List.Forall₂ (Denotes shift) segments tokens

/-- The error, and its class, for a text that is refused. -/
inductive Rejects (shift : Bool) (u : List Char) : PointerError → ErrorClass → Prop
  /-- The text does not start with a slash. -/
  | noLeadingSlash (ne_nil : u ≠ []) (unrooted : u.head? ≠ some '/') :
      Rejects shift u (.noLeadingSlash (String.ofList u)) .malformedPointer
  /-- Behind the last separator of the last segment stands no tag. -/
  | unknownTag {front tag : List Char} (text : u = '/' :: front ++ ':' :: ':' :: tag)
      (slashless : '/' ∉ tag) (last : ¬ IsTagged (':' :: tag)) (unknown : ¬ IsTag tag) :
      Rejects shift u (.unknownTag (String.ofList tag)) .unsupportedType
  /-- A segment stands for no token, but all before it do. -/
  | badSegment {good rest : List (List Char)} {bad : List Char} {kind : Kind} {e : PointerError}
      {c : ErrorClass} (spells : Spells u (good ++ bad :: rest) kind)
      (denotes : ∀ s ∈ good, ∃ t, Denotes shift s t) (faulty : Faulty shift bad e c) :
      Rejects shift u e c

theorem ofTokens_eq_of_ne_nil {tokens : List Token} (h : tokens ≠ []) (kind : Kind) :
    ofTokens tokens kind = .ok ⟨tokens, kind, fun hnil => absurd hnil h⟩ :=
  dif_pos fun hnil => absurd hnil h

theorem ofSegments_eq (shift : Bool) (cs : List Char) :
    ofSegments shift cs = (parts cs).bind fun (segments, kind) =>
      (segments.mapM (token shift)).bind fun tokens => ofTokens tokens kind := rfl

/-- A segment more, a token more. -/
theorem mapM_token_eq_ok_iff {segments : List (List Char)} {tokens : List Token} :
    segments.mapM (token shift) = .ok tokens ↔ List.Forall₂ (Denotes shift) segments tokens := by
  simp only [mapM_eq_ok_iff, token_eq_ok_iff]

/-- The first segment that denotes no token decides. -/
theorem mapM_token_eq_error_iff {segments : List (List Char)} :
    segments.mapM (token shift) = .error e ↔
      ∃ good bad rest, segments = good ++ bad :: rest ∧ (∀ s ∈ good, ∃ t, Denotes shift s t) ∧
        Faulty shift bad e e.errorClass := by
  simp only [mapM_eq_error_iff, token_eq_ok_iff, token_eq_error_iff]

theorem tokens_ne_nil {segments : List (List Char)} {tokens : List Token} {u : List Char}
    (hs : Spells u segments kind) (hd : List.Forall₂ (Denotes shift) segments tokens) :
    tokens ≠ [] := by
  rintro rfl
  exact hs.ne_nil (List.forall₂_nil_right_iff.mp hd)

/-- A text behind a slash is read as the segments that spell it denote. -/
theorem ofSegments_eq_ok_iff {p : Pointer} :
    ofSegments shift cs = .ok p ↔
      ∃ segments, Spells ('/' :: cs) segments p.kind ∧
        List.Forall₂ (Denotes shift) segments p.tokens := by
  simp only [ofSegments_eq, bind_eq_ok_iff, Prod.exists, parts_eq_ok_iff, mapM_token_eq_ok_iff]
  constructor
  · rintro ⟨segments, kind, hspells, tokens, hdenotes, h⟩
    rw [ofTokens_eq_of_ne_nil (tokens_ne_nil hspells hdenotes)] at h
    cases h
    exact ⟨segments, hspells, hdenotes⟩
  · rintro ⟨segments, hspells, hdenotes⟩
    exact ⟨segments, p.kind, hspells, p.tokens, hdenotes,
      ofTokens_eq_of_ne_nil (tokens_ne_nil hspells hdenotes) p.kind⟩

/-- A text behind a slash is refused for its tag, else for the first segment that denotes nothing.
-/
theorem ofSegments_eq_error_iff :
    ofSegments shift cs = .error e ↔ Rejects shift ('/' :: cs) e e.errorClass := by
  simp only [ofSegments_eq, bind_eq_error_iff, Prod.exists, parts_eq_ok_iff, parts_eq_error_iff,
    mapM_token_eq_ok_iff, mapM_token_eq_error_iff]
  constructor
  · rintro (⟨front, tag, rfl, hslash, hlast, hunknown, rfl⟩ |
      ⟨segments, kind, hspells, ⟨good, bad, rest, rfl, hgood, hbad⟩ | ⟨tokens, hdenotes, h⟩⟩)
    · exact .unknownTag rfl hslash hlast hunknown
    · exact .badSegment hspells hgood hbad
    · rw [ofTokens_eq_of_ne_nil (tokens_ne_nil hspells hdenotes)] at h
      cases h
  · intro h
    -- the class is an index of `Rejects`, which only a variable can be matched with
    generalize hc : e.errorClass = c at h
    cases h with
    | noLeadingSlash _ hhead => exact absurd rfl hhead
    | unknownTag htext hslash hlast hunknown =>
        exact .inl ⟨_, _, (List.cons.inj htext).2, hslash, hlast, hunknown, rfl⟩
    | badSegment hspells hgood hbad =>
        exact .inr ⟨_, _, hspells, .inl ⟨_, _, _, rfl, hgood, hc ▸ hbad⟩⟩

theorem not_spells_of_head?_ne {u : List Char} {segments : List (List Char)}
    (h : u.head? ≠ some '/') : ¬ Spells u segments kind := by
  intro hs
  obtain ⟨cs, rfl⟩ := hs.exists_cons
  exact h rfl

theorem ofChars_of_head?_ne {u : List Char} (hne : u ≠ []) (h : u.head? ≠ some '/')
    (shift : Bool) : ofChars shift u = .error (.noLeadingSlash (String.ofList u)) := by
  cases u with
  | nil => exact absurd rfl hne
  | cons c u =>
      unfold ofChars
      split <;> first | rfl | simp_all

/-- What `ofChars` reads. -/
theorem ofChars_eq_ok_iff {u : List Char} {p : Pointer} :
    ofChars shift u = .ok p ↔
      (u = [] ∧ p = root) ∨ ∃ d : Decomposition shift u, d.tokens = p.tokens ∧ d.kind = p.kind := by
  -- a decomposition is nothing but its parts
  have hd : (∃ d : Decomposition shift u, d.tokens = p.tokens ∧ d.kind = p.kind) ↔
      ∃ segments, Spells u segments p.kind ∧ List.Forall₂ (Denotes shift) segments p.tokens := by
    constructor
    · rintro ⟨⟨segments, _, _, hspells, hdenotes⟩, rfl, rfl⟩
      exact ⟨segments, hspells, hdenotes⟩
    · rintro ⟨segments, hspells, hdenotes⟩
      exact ⟨⟨segments, _, _, hspells, hdenotes⟩, rfl, rfl⟩
  rw [hd]
  by_cases hslash : u.head? = some '/'
  · obtain ⟨cs, rfl⟩ := List.head?_eq_some_iff.mp hslash
    rw [ofChars, ofSegments_eq_ok_iff]
    simp
  · simp only [not_spells_of_head?_ne hslash, false_and, exists_false, or_false]
    by_cases hnil : u = []
    · subst hnil
      simp [ofChars, eq_comm]
    · simp [ofChars_of_head?_ne hnil hslash, hnil]

/-- What `ofChars` refuses, and with which error. -/
theorem ofChars_eq_error_iff {u : List Char} :
    ofChars shift u = .error e ↔ Rejects shift u e e.errorClass := by
  by_cases hslash : u.head? = some '/'
  · obtain ⟨cs, rfl⟩ := List.head?_eq_some_iff.mp hslash
    rw [ofChars, ofSegments_eq_error_iff]
  · constructor
    · intro h
      -- only the root has no slash at its start
      by_cases hnil : u = []
      · subst hnil
        cases h
      · rw [ofChars_of_head?_ne hnil hslash] at h
        cases h
        exact .noLeadingSlash hnil hslash
    · intro h
      generalize e.errorClass = c at h
      cases h with
      | noLeadingSlash hnil _ => exact ofChars_of_head?_ne hnil hslash shift
      | unknownTag htext _ _ _ => exact absurd (by rw [htext]; rfl) hslash
      | badSegment hspells _ _ => exact absurd hspells (not_spells_of_head?_ne hslash)

/-! ### Uniqueness -/

/-- A text is spelled by one list of segments and one kind. -/
theorem Spells.unique {u : List Char} {segments segments' : List (List Char)} {kind' : Kind}
    (h : Spells u segments kind) (h' : Spells u segments' kind') :
    segments = segments' ∧ kind = kind' := by
  obtain ⟨cs, rfl⟩ := h.exists_cons
  have hparts := parts_eq_ok_iff.mpr h
  rw [parts_eq_ok_iff.mpr h'] at hparts
  cases hparts
  exact ⟨rfl, rfl⟩

/-- The tag is looked at before the segments, of which the first stands for no token. -/
example : parse "/0/a::b" none {} = .error (.unknownTag "b") := rfl

end Pointer
end JsonPointer
