import JsonPointer.Proofs.RoundTrip

/-!
# Counting from zero

Positions in a text may be counted from one or from zero. The two readings of a text are compared
here. They cut it into the same segments and give it the same tag, so they differ by what segments
of digits denote: counted from zero, the position is one further (`Denotes.shifted`). A text that
can be read one way can therefore be read the other way, but for a position that is the first one
counted from zero and none at all counted from one (`Faulty.eq_positionZero`).
-/

namespace JsonPointer

/-- The token with its position, if it has one, one further. -/
def Token.shifted : Token → Token
  | .key name => .key name
  | .index offset => .index (offset + 1)

namespace Pointer

open Digits

/-- The pointer with every position one further. -/
def shifted (p : Pointer) : Pointer where
  tokens := p.tokens.map Token.shifted
  kind := p.kind
  root_unconstrained := fun h => p.root_unconstrained (List.map_eq_nil_iff.mp h)

variable {segment u : List Char} {t : Token} {e : PointerError} {c : ErrorClass} {p p' : Pointer}

/-! ### One segment -/

/-- What a segment denotes is one further, counted from zero. -/
theorem Denotes.shifted (h : Denotes false segment t) : Denotes true segment t.shifted := by
  cases h with
  | position numeral short value => exact .position numeral short (congrArg (· + 1) value)
  | literal numeral => exact .literal numeral
  | name numeral literal => exact .name numeral literal

/-- A segment that denotes nothing, counted from one, but something, counted from zero, denotes the
first position. -/
theorem Faulty.eq_positionZero (hf : Faulty false segment e c) (h : Denotes true segment t) :
    e = .positionZero ∧ t = .index 0 := by
  have hposition (numeral : isNumeral segment = true) := by
    rw [← token_eq_ok_iff, token_of_isNumeral numeral, position_eq_ok_iff] at h
    exact h
  cases hf with
  | tooManyDigits numeral long =>
      obtain ⟨short, _⟩ := hposition numeral
      omega
  | positionZero _ numeral _ zeros =>
      obtain ⟨_, offset, value, rfl⟩ := hposition numeral
      rw [(natOfDigits_eq_zero_iff (isNumeral_iff.mp numeral).2).mpr zeros] at value
      obtain rfl : offset = 0 := (Nat.succ.inj value).symm
      exact ⟨rfl, rfl⟩

/-! ### The whole text -/

theorem Decomposition.exists_shifted (d : Decomposition false u) :
    ∃ d' : Decomposition true u, d'.tokens = d.tokens.map Token.shifted ∧ d'.kind = d.kind := by
  have hdenotes : List.Forall₂ (Denotes true) d.segments (d.tokens.map Token.shifted) :=
    List.forall₂_map_right_iff.mpr (d.denotes.imp fun _ _ => Denotes.shifted)
  exact ⟨⟨d.segments, d.kind, _, d.spells, hdenotes⟩, rfl, rfl⟩

/-- What can be read counting from one can be read counting from zero. -/
theorem ofChars_shifted (h : ofChars false u = .ok p) : ofChars true u = .ok p.shifted := by
  rw [ofChars_eq_ok_iff] at h ⊢
  rcases h with ⟨hu, rfl⟩ | ⟨d, htokens, hkind⟩
  · exact .inl ⟨hu, rfl⟩
  · obtain ⟨d', htokens', hkind'⟩ := d.exists_shifted
    rw [htokens] at htokens'
    rw [hkind] at hkind'
    exact .inr ⟨d', htokens', hkind'⟩

/-- A text that decomposes, for one way to count, is refused for the other one only because of a
segment. -/
theorem Decomposition.exists_faulty {shift shift' : Bool} (d : Decomposition shift u)
    (h : Rejects shift' u e c) : ∃ bad ∈ d.segments, Faulty shift' bad e c := by
  -- a text with a decomposition starts with a slash and ends in a tag that is known
  cases h with
  | noLeadingSlash _ unrooted => exact absurd d.spells (not_spells_of_head?_ne unrooted)
  | @unknownTag front tag text slashless last unknown =>
      subst text
      have herror := parts_eq_error_iff.mpr ⟨front, tag, rfl, slashless, last, unknown, rfl⟩
      have hok : parts (front ++ ':' :: ':' :: tag) = .ok (d.segments, d.kind) :=
        parts_eq_ok_iff.mpr d.spells
      rw [hok] at herror
      cases herror
  | badSegment spells _ faulty =>
      rw [(d.spells.unique spells).1]
      exact ⟨_, List.mem_append_right _ List.mem_cons_self, faulty⟩

/-- What can be read counting from zero only has a first position. -/
theorem eq_positionZero_of_ofChars (h : ofChars true u = .ok p') (he : ofChars false u = .error e) :
    e = .positionZero ∧ .index 0 ∈ p'.tokens := by
  rcases ofChars_eq_ok_iff.mp h with ⟨rfl, _⟩ | ⟨d, htokens, _⟩
  · cases he
  · obtain ⟨bad, hbad, hfaulty⟩ := d.exists_faulty (ofChars_eq_error_iff.mp he)
    -- counted from zero, the segment denotes a token of the pointer
    obtain ⟨t, ht, hdenotes⟩ := exists_mem_of_forall₂ d.denotes.flip hbad
    obtain ⟨rfl, rfl⟩ := hfaulty.eq_positionZero hdenotes
    exact ⟨rfl, htokens ▸ ht⟩

theorem index_zero_notMem_shifted (p : Pointer) : .index 0 ∉ p.shifted.tokens := by
  intro h
  obtain ⟨t, _, ht⟩ := List.mem_map.mp h
  cases t <;> cases ht

/-- **Counting from zero** moves every position one further and changes nothing else. A text that is
a pointer counted from one is the pointer with its positions one further counted from zero. A text
that is a pointer counted from zero is one counted from one, the same with its positions one back,
exactly if the first position is not in it, and otherwise it is malformed. How to count may be said
by the options or apart from them, and what is said apart goes before the options. -/
theorem parse_counted_from_zero (text : String) :
    (∀ p, parse text none {} = .ok p → parse text (some true) {} = .ok p.shifted) ∧
    (∀ p', parse text (some true) {} = .ok p' →
      ((∃ p, parse text none {} = .ok p ∧ p' = p.shifted) ↔ .index 0 ∉ p'.tokens) ∧
      (.index 0 ∈ p'.tokens →
        ∃ e, parse text none {} = .error e ∧ e.errorClass = .malformedPointer)) ∧
    (∀ shift, parse text none { shift } = parse text (some shift) {}) ∧
    (∀ shift options, parse text (some shift) options = parse text (some shift) {}) := by
  refine ⟨fun p => ofChars_shifted, ?_, fun shift => rfl, fun shift options => rfl⟩
  intro p' h
  -- either the other reading is this one with the positions moved, or it has failed at one
  cases hone : parse text none {} with
  | ok p =>
      obtain rfl : p' = p.shifted := Except.ok.inj (h.symm.trans (ofChars_shifted hone))
      have hno := p.index_zero_notMem_shifted
      exact ⟨iff_of_true ⟨p, rfl, rfl⟩ hno, fun hmem => absurd hmem hno⟩
  | error e =>
      obtain ⟨rfl, hmem⟩ := eq_positionZero_of_ofChars h hone
      refine ⟨iff_of_false ?_ (not_not_intro hmem), fun _ => ⟨_, rfl, rfl⟩⟩
      rintro ⟨p, hp, _⟩
      cases hp

/-- The digits behind the backslash are a name for both ways to count. In the second text, the first
position can be counted from zero only. -/
theorem parse_counted_from_zero_of_literal :
    let p : Pointer := { tokens := [.key "7", .index 6], kind := .string }
    let first : Pointer := { tokens := [.index 2, .index 0] }
    parse "/\\7/007::string" none {} = .ok p ∧
    parse "/\\7/007::string" (some true) {} = .ok p.shifted ∧
    parse "/2/00" (some true) {} = .ok first ∧ .index 0 ∈ first.tokens ∧
    ∃ e, parse "/2/00" none {} = .error e ∧ e.errorClass = .malformedPointer := by
  intro p first
  have hp : parse "/\\7/007::string" none {} = .ok p := rfl
  have hfirst : parse "/2/00" (some true) {} = .ok first := rfl
  have hmem : .index 0 ∈ first.tokens := by decide
  obtain ⟨hshifted, _⟩ := parse_counted_from_zero "/\\7/007::string"
  obtain ⟨_, hback, _⟩ := parse_counted_from_zero "/2/00"
  exact ⟨hp, hshifted p hp, hfirst, hmem, (hback first hfirst).2 hmem⟩

end Pointer
end JsonPointer
