import JsonPointer.Proofs.Grammar

/-!
# Writing pointers and reading them back

The text of a pointer does not always read as the pointer. Two things are not protected when it is
written: a name that is itself a literal, such as `\5`, which reads as the name `5`; and a `::` in
the name that ends an unconstrained pointer, behind which a tag is looked for. A pointer without
either is `Expressible`.

The statements rest on the decomposition of the text that was written, one segment for each token
(`spells_chars`, `denotes_chars`), and on what a decomposition of any text can hold
(`expressible_of_decomposition`). So the pointers that texts read as are the expressible ones, and
their own texts read as them.
-/

namespace JsonPointer

open Digits Tilde

/-! ### Lists side by side -/

section Forall₂

variable {α β : Type} {r : α → β → Prop} {xs : List α} {ys : List β} {y : β}

theorem exists_mem_of_forall₂ (h : List.Forall₂ r xs ys) (hy : y ∈ ys) : ∃ x ∈ xs, r x y := by
  induction h with
  | nil => cases hy
  | cons hxy _ ih =>
      rcases List.mem_cons.mp hy with rfl | hy
      · exact ⟨_, List.mem_cons_self, hxy⟩
      · obtain ⟨x, hx, hr⟩ := ih hy
        exact ⟨x, List.mem_cons_of_mem _ hx, hr⟩

/-- The lists end together, in things that are related. -/
theorem exists_getLast?_of_forall₂ (h : List.Forall₂ r xs ys) (hy : ys.getLast? = some y) :
    ∃ x, xs.getLast? = some x ∧ r x y := by
  rw [List.getLast?_eq_head?_reverse] at hy
  obtain ⟨ys', hys⟩ := List.head?_eq_some_iff.mp hy
  have hrev := List.rel_reverse h
  rw [hys] at hrev
  obtain ⟨x, xs', hr, _, hxs⟩ := List.forall₂_cons_right_iff.mp hrev
  exact ⟨x, by rw [List.getLast?_eq_head?_reverse, hxs]; rfl, hr⟩

end Forall₂

/-! ### Tokens -/

theorem Tilde.isNumeral_escape (cs : List Char) : isNumeral (escape cs) = isNumeral cs := by
  rw [Bool.eq_iff_iff]
  constructor
  · -- a numeral has neither `~` nor `/` in it, so nothing was escaped
    intro h
    rwa [eq_of_tilde_notMem_escape (notMem_of_isNumeral h rfl)] at h
  · intro h
    rwa [escape_eq_self (notMem_of_isNumeral h rfl) (notMem_of_isNumeral h rfl)]

theorem Tilde.isLiteral_escape (cs : List Char) : isLiteral (escape cs) = isLiteral cs := by
  rw [Bool.eq_iff_iff]
  constructor
  · intro h
    rwa [eq_of_tilde_notMem_escape (notMem_of_isLiteral h rfl (by decide))] at h
  · intro h
    rwa [escape_eq_self (notMem_of_isLiteral h rfl (by decide))
      (notMem_of_isLiteral h rfl (by decide))]

theorem not_isTagged_of_notMem {cs : List Char} (h : ':' ∉ cs) : ¬ IsTagged cs := by
  rintro ⟨s, t, rfl⟩
  simp at h

namespace Token

/-- What the text of the token reads as: a name that is a literal loses its backslash. -/
def reread : Token → Token
  | .key name =>
    if isLiteral name.toList then .key (String.ofList name.toList.tail) else .key name
  | .index offset => .index offset

theorem slash_notMem_chars (t : Token) : '/' ∉ t.chars := by
  cases t with
  | index offset => exact notMem_of_isNumeral (isNumeral_digitsOfNat _) rfl
  | key name =>
      simp only [chars]
      split
      · next h =>
          rw [List.mem_cons, not_or]
          exact ⟨by decide, notMem_of_isNumeral h rfl⟩
      · exact slash_notMem_escape _

/-- A position has no separator in its text, and a name has one in its text if it has one. -/
theorem isTagged_chars {t : Token} :
    IsTagged t.chars ↔ ∃ name, t = .key name ∧ IsTagged name.toList := by
  cases t with
  | index offset =>
      simp only [reduceCtorEq, false_and, exists_false, iff_false]
      exact not_isTagged_of_notMem (notMem_of_isNumeral (isNumeral_digitsOfNat _) rfl)
  | key name =>
      simp only [Token.key.injEq, exists_eq_left', chars]
      split
      · next h =>
          have hcolon : ':' ∉ name.toList := notMem_of_isNumeral h rfl
          exact iff_of_false (not_isTagged_of_notMem (by simp [hcolon]))
            (not_isTagged_of_notMem hcolon)
      · exact isTagged_escape

/-- The text of a token denotes what the token is reread as. -/
theorem denotes_chars {t : Token} (h : t.IsPrintable) : Pointer.Denotes false t.chars t.reread := by
  cases t with
  | index offset =>
      refine .position (isNumeral_digitsOfNat _) ?_ (natOfDigits_digitsOfNat _)
      exact (length_digitsOfNat_le_iff (by decide)).mpr h
  | key name =>
      simp only [chars, reread]
      -- a numeral is written with a backslash, a literal as it is, and any other name with its
      -- escapes
      rcases Pointer.segment_cases name.toList with hn | ⟨digits, hname, hd⟩ | ⟨hn, hl⟩
      · rw [if_pos hn, isLiteral_eq_false_of_isNumeral hn]
        simpa using Pointer.Denotes.literal hn
      · have hl : isLiteral name.toList = true := isLiteral_iff.mpr ⟨digits, hname, hd⟩
        rw [hname] at hl ⊢
        rw [escape_eq_self (notMem_of_isLiteral hl rfl (by decide))
          (notMem_of_isLiteral hl rfl (by decide)), hl]
        exact .literal hd
      · rw [hn, hl]
        -- the text of such a name is no numeral and no literal either, so it is read with its
        -- escapes
        have hdenotes : Pointer.Denotes false (escape name.toList)
            (.key (String.ofList (scan (escape name.toList)))) :=
          .name ((isNumeral_escape _).trans hn) ((isLiteral_escape _).trans hl)
        rw [scan_escape, String.ofList_toList] at hdenotes
        exact hdenotes

theorem reread_eq_self_iff {t : Token} :
    t.reread = t ↔ ∀ name, t = .key name → isLiteral name.toList = false := by
  cases t with
  | index offset => simp [reread]
  | key name =>
      simp only [reread, Token.key.injEq, forall_eq']
      cases hl : isLiteral name.toList with
      | false => simp
      | true =>
          obtain ⟨digits, hname, _⟩ := isLiteral_iff.mp hl
          simp only [if_true, Token.key.injEq, Bool.true_eq_false, iff_false]
          intro h
          -- without its backslash the name is shorter
          have := congrArg (fun s => s.toList.length) h
          simp [hname] at this

end Token

namespace Pointer

variable {p q : Pointer}

def reread (p : Pointer) : Except Error Pointer := do
  (ofText (← p.text?)).mapError .malformed

/-- Is the last token of the unconstrained pointer a name with a separator in it? -/
def EndsTagged (p : Pointer) : Prop :=
  p.kind = .any ∧ ∃ name, p.tokens.getLast? = some (.key name) ∧ IsTagged name.toList

/-- Nothing in the pointer reads as something else. -/
structure Expressible (p : Pointer) : Prop where
  /-- No name is a literal. -/
  no_literal : ∀ name, .key name ∈ p.tokens → isLiteral name.toList = false
  /-- Nothing looks like a tag. -/
  no_tag : ¬ p.EndsTagged

/-! ### What texts read as -/

/-- A name that was read is no literal: a literal holds no escaped character, so the segment would
be one too. -/
theorem Denotes.isLiteral_eq_false {shift : Bool} {segment : List Char} {name : String}
    (h : Denotes shift segment (.key name)) : isLiteral name.toList = false := by
  cases h with
  | literal hd =>
      rw [String.toList_ofList]
      exact isLiteral_eq_false_of_isNumeral hd
  | name hn hl =>
      rw [String.toList_ofList, Bool.eq_false_iff]
      intro hscan
      rw [scan_eq_self (notMem_of_isLiteral hscan rfl (by decide))
        (notMem_of_isLiteral hscan rfl (by decide)), hl] at hscan
      cases hscan

/-- A separator in a name that was read stands in the segment already. -/
theorem Denotes.isTagged {shift : Bool} {segment : List Char} {name : String}
    (h : Denotes shift segment (.key name)) (ht : IsTagged name.toList) : IsTagged segment := by
  cases h with
  | literal hd =>
      rw [String.toList_ofList] at ht
      exact absurd ht (not_isTagged_of_notMem (notMem_of_isNumeral hd rfl))
  | name hn hl =>
      rw [String.toList_ofList] at ht
      exact isTagged_of_isTagged_scan ht

/-- What a text decomposes into is expressible. -/
theorem expressible_of_decomposition {shift : Bool} {u : List Char} (d : Decomposition shift u)
    (htokens : d.tokens = p.tokens) (hkind : d.kind = p.kind) : p.Expressible := by
  constructor
  · intro name hname
    obtain ⟨segment, _, hdenotes⟩ := exists_mem_of_forall₂ d.denotes (htokens ▸ hname)
    exact hdenotes.isLiteral_eq_false
  · rintro ⟨hany, name, hlast, htagged⟩
    obtain ⟨segment, hsegment, hdenotes⟩ :=
      exists_getLast?_of_forall₂ d.denotes (htokens ▸ hlast)
    have huntagged := d.spells.untagged (hkind.trans hany) segment hsegment
    exact huntagged (hdenotes.isTagged htagged)

theorem expressible_root : root.Expressible :=
  ⟨fun _ h => absurd h (by simp [root]), fun h => by simp [root, EndsTagged] at h⟩

theorem expressible_of_parse {text : String} {shift : Option Bool} {options : ParseOptions}
    (h : parse text shift options = .ok p) : p.Expressible := by
  rcases ofChars_eq_ok_iff.mp h with ⟨_, rfl⟩ | ⟨d, htokens, hkind⟩
  · exact expressible_root
  · exact expressible_of_decomposition d htokens hkind

/-- The greatest position that can be read: a text may hold as many nines as there may be digits,
and count from zero. It has a digit too many to be written. -/
def greatestIndex : Token := .index (tenPow maxDigits - 1)

theorem eq_greatestIndex_iff {offset : Nat} :
    Token.index offset = greatestIndex ↔ offset + 1 = tenPow maxDigits := by
  have hpos := tenPow_pos maxDigits
  rw [greatestIndex, Token.index.injEq]
  omega

theorem key_ne_greatestIndex (name : String) : Token.key name ≠ greatestIndex := by
  rw [greatestIndex]
  exact fun h => by cases h

theorem isPrintable_index_iff {offset : Nat} :
    (Token.index offset).IsPrintable ↔ offset + 1 < tenPow maxDigits := Iff.rfl

/-- Counted from one, a position is short enough to be written. -/
theorem Denotes.lt {shift : Bool} {segment : List Char} {offset : Nat}
    (h : Denotes shift segment (.index offset)) : offset + 1 < tenPow maxDigits + shift.toNat := by
  cases h with
  | position hn hshort hvalue =>
      have := natOfDigits_lt_of_length_le (isNumeral_iff.mp hn).2 hshort
      omega

/-- Only the greatest position cannot be written, and it is only read where they count from zero. -/
theorem Denotes.isPrintable_iff {shift : Bool} {segment : List Char} {t : Token}
    (h : Denotes shift segment t) : t.IsPrintable ↔ t ≠ greatestIndex := by
  cases t with
  | key name => exact iff_of_true trivial (key_ne_greatestIndex name)
  | index offset =>
      have hlt := h.lt
      have hshift := shift.toNat_le
      rw [isPrintable_index_iff, ne_eq, eq_greatestIndex_iff]
      omega

theorem Denotes.shift_of_greatestIndex {shift : Bool} {segment : List Char}
    (h : Denotes shift segment greatestIndex) : shift = true := by
  -- the cases of `Denotes` are told by the token, which only a variable can be matched with
  generalize hg : greatestIndex = t at h
  cases t with
  | key name => exact absurd hg.symm (key_ne_greatestIndex name)
  | index offset =>
      have hlt := h.lt
      have heq := eq_greatestIndex_iff.mp hg.symm
      cases shift with
      | true => rfl
      | false =>
          rw [Bool.toNat_false] at hlt
          omega

theorem exists_denotes_of_parse {text : String} {shift : Option Bool} {options : ParseOptions}
    {t : Token} (h : parse text shift options = .ok p) (ht : t ∈ p.tokens) :
    ∃ segment, Denotes (shift.getD options.shift) segment t := by
  rcases ofChars_eq_ok_iff.mp h with ⟨_, rfl⟩ | ⟨d, htokens, _⟩
  · exact absurd ht List.not_mem_nil
  · obtain ⟨segment, _, hdenotes⟩ := exists_mem_of_forall₂ d.denotes (htokens ▸ ht)
    exact ⟨segment, hdenotes⟩

/-- Of the pointers that were read, those with the greatest position cannot be written. -/
theorem isPrintable_iff_of_parse {text : String} {shift : Option Bool} {options : ParseOptions}
    (h : parse text shift options = .ok p) : p.IsPrintable ↔ greatestIndex ∉ p.tokens := by
  -- whether a token can be written is told by its segment
  have hiff (t : Token) (ht : t ∈ p.tokens) : t.IsPrintable ↔ t ≠ greatestIndex := by
    obtain ⟨segment, hdenotes⟩ := exists_denotes_of_parse h ht
    exact hdenotes.isPrintable_iff
  constructor
  · intro hp hmem
    exact (hiff _ hmem).mp (hp _ hmem) rfl
  · intro hmem t ht
    apply (hiff t ht).mpr
    rintro rfl
    exact hmem ht

theorem shift_of_greatestIndex_mem {text : String} {shift : Option Bool} {options : ParseOptions}
    (h : parse text shift options = .ok p) (hg : greatestIndex ∈ p.tokens) :
    shift.getD options.shift = true := by
  obtain ⟨segment, hdenotes⟩ := exists_denotes_of_parse h hg
  exact hdenotes.shift_of_greatestIndex

/-- Where positions count from one, every pointer that is read can be written. -/
theorem isPrintable_of_ofText {text : String} (h : ofText text = .ok p) : p.IsPrintable := by
  refine (isPrintable_iff_of_parse h).mpr fun hg => ?_
  have := shift_of_greatestIndex_mem h hg
  cases this

/-! ### What the text of a pointer reads as -/

theorem chars_eq (p : Pointer) :
    p.chars = joined (p.tokens.map Token.chars) ++ tagChars p.kind := by
  rw [chars, joined, List.flatMap_map]

theorem chars_of_tokens_eq_nil (h : p.tokens = []) : p.chars = [] := by
  rw [chars_eq, h, p.root_unconstrained h]
  rfl

theorem head?_chars (h : p.tokens ≠ []) : p.chars.head? = some '/' := by
  rw [chars_eq]
  cases ht : p.tokens with
  | nil => exact absurd ht h
  | cons t ts => rfl

/-- The text of a pointer is never percent-encoded. -/
theorem ofText_text (p : Pointer) : ofText p.text = ofChars false p.chars := by
  have hdecoded : decoded p.chars = p.chars := by
    by_cases h : p.tokens = []
    · rw [chars_of_tokens_eq_nil h]
      rfl
    · obtain ⟨cs, hcs⟩ := List.head?_eq_some_iff.mp (head?_chars h)
      rw [hcs]
      rfl
  rw [ofText, parse, text, String.toList_ofList, hdecoded]
  rfl

/-- A pointer comes back if it can be written and its text can be read. -/
theorem reread_eq_ok_iff : p.reread = .ok q ↔ p.IsPrintable ∧ ofText p.text = .ok q := by
  unfold reread text?
  split
  · next h =>
      show (ofText p.text).mapError Error.malformed = .ok q ↔ _
      cases ofText p.text <;> simp [Except.mapError, h]
  · next h => exact iff_of_false (fun hq => by cases hq) (fun hq => h hq.1)

theorem reread_of_not_isPrintable (h : ¬ p.IsPrintable) : p.reread = .error .unprintable := by
  unfold reread text?
  rw [if_neg h]
  rfl

/-- The end looks like a tag exactly if the text of the last token is tagged. -/
theorem endsTagged_iff :
    p.EndsTagged ↔ p.kind = .any ∧ ∃ s ∈ (p.tokens.map Token.chars).getLast?, IsTagged s := by
  simp only [EndsTagged, List.getLast?_map, Option.mem_def, Option.map_eq_some_iff]
  refine and_congr_right fun _ => ⟨?_, ?_⟩
  · rintro ⟨name, hlast, htagged⟩
    exact ⟨_, ⟨_, hlast, rfl⟩, Token.isTagged_chars.mpr ⟨name, rfl, htagged⟩⟩
  · rintro ⟨s, ⟨t, hlast, rfl⟩, htagged⟩
    obtain ⟨name, rfl, hname⟩ := Token.isTagged_chars.mp htagged
    exact ⟨name, hlast, hname⟩

theorem slashless_map_chars (p : Pointer) : ∀ s ∈ p.tokens.map Token.chars, '/' ∉ s := by
  intro s hs
  obtain ⟨t, _, rfl⟩ := List.mem_map.mp hs
  exact t.slash_notMem_chars

/-- The texts of the tokens spell the text of the pointer, if its end does not look like a tag. -/
theorem spells_chars (hne : p.tokens ≠ []) (h : ¬ p.EndsTagged) :
    Spells p.chars (p.tokens.map Token.chars) p.kind where
  text := p.chars_eq
  ne_nil := fun hnil => hne (List.map_eq_nil_iff.mp hnil)
  slashless := p.slashless_map_chars
  untagged := fun hany s hs htagged => h (endsTagged_iff.mpr ⟨hany, s, hs, htagged⟩)

theorem denotes_map_chars (h : p.IsPrintable) :
    List.Forall₂ (Denotes false) (p.tokens.map Token.chars) (p.tokens.map Token.reread) := by
  rw [List.forall₂_map_left_iff, List.forall₂_map_right_iff, List.forall₂_same]
  exact fun t ht => Token.denotes_chars (h t ht)

/-- Where nothing looks like a tag, a pointer comes back token by token. -/
theorem exists_ofText_text (h : p.IsPrintable) (hn : ¬ p.EndsTagged) :
    ∃ q, ofText p.text = .ok q ∧ q.tokens = p.tokens.map Token.reread ∧ q.kind = p.kind := by
  simp only [ofText_text, ofChars_eq_ok_iff]
  -- the text of the root is empty and has no decomposition
  by_cases hnil : p.tokens = []
  · refine ⟨root, .inl ⟨chars_of_tokens_eq_nil hnil, rfl⟩, ?_, ?_⟩
    · rw [hnil]
      rfl
    · rw [p.root_unconstrained hnil]
      rfl
  · exact ⟨⟨_, p.kind, fun hmap => absurd (List.map_eq_nil_iff.mp hmap) hnil⟩,
      .inr ⟨⟨_, _, _, spells_chars hnil hn, denotes_map_chars h⟩, rfl, rfl⟩, rfl, rfl⟩

/-- Segments without slashes can be told from their text. -/
theorem joined_injective {a b : List (List Char)} (ha : ∀ s ∈ a, '/' ∉ s) (hb : ∀ s ∈ b, '/' ∉ s)
    (h : joined a = joined b) : a = b := by
  cases a with
  | nil =>
      cases b with
      | nil => rfl
      | cons s b => cases h
  | cons s a =>
      cases b with
      | nil => cases h
      | cons s' b =>
          rw [joined_cons, joined_cons, List.cons_append, List.cons_append, List.cons.injEq] at h
          have hs := segments_joined ha
          rw [h.2, segments_joined hb] at hs
          cases hs
          rfl

/-- What looks like a tag is taken for one: the pointer that comes back, if any, is constrained. -/
theorem kind_ne_of_endsTagged (h : p.EndsTagged) (hq : ofText p.text = .ok q) :
    q.kind ≠ p.kind := by
  obtain ⟨hany, s, hs, htagged⟩ := endsTagged_iff.mp h
  have hne : p.tokens ≠ [] := by
    intro hnil
    rw [hnil] at hs
    cases hs
  rw [ofText_text, ofChars_eq_ok_iff] at hq
  rcases hq with ⟨hnil, _⟩ | ⟨d, _, hkind⟩
  · have := head?_chars hne
    rw [hnil] at this
    cases this
  · rw [← hkind, hany]
    intro hd
    -- without a tag the text consists of its segments alone, so they are the texts of the tokens
    have htext : joined (p.tokens.map Token.chars) = joined d.segments := by
      have := p.chars_eq.symm.trans d.spells.text
      rwa [hany, hd, tagChars_any, List.append_nil, List.append_nil] at this
    rw [joined_injective p.slashless_map_chars d.spells.slashless htext] at hs
    exact d.spells.untagged hd s hs htagged

theorem map_reread_eq_self (h : p.Expressible) : p.tokens.map Token.reread = p.tokens := by
  conv_rhs => rw [← List.map_id p.tokens]
  refine List.map_congr_left fun t ht => Token.reread_eq_self_iff.mpr ?_
  rintro name rfl
  exact h.no_literal name ht

/-- A pointer that can be written comes back exactly if it is expressible. -/
theorem reread_eq_self_iff (h : p.IsPrintable) : p.reread = .ok p ↔ p.Expressible := by
  rw [reread_eq_ok_iff]
  constructor
  · exact fun hp => expressible_of_parse hp.2
  · intro he
    obtain ⟨q, hq, htokens, hkind⟩ := exists_ofText_text h he.no_tag
    obtain rfl : q = p := by
      rw [map_reread_eq_self he] at htokens
      cases p
      cases q
      simp_all
    exact ⟨h, hq⟩

def canonicalText (text : String) : Except Error String := do
  (← (ofText text).mapError .malformed).text?

theorem canonicalText_of_ofText {text : String} (h : ofText text = .ok p) :
    canonicalText text = .ok p.text := by
  have hp : p.text? = .ok p.text := if_pos (isPrintable_of_ofText h)
  rw [canonicalText, h, ← hp]
  rfl

/-! ### Both ways -/

/-- **Writing and reading back.** A pointer that can be written comes back exactly if it is
expressible. Otherwise the names that are literals come back as other names, or the pointer ends in
what looks like a tag; then it does not come back, and if another pointer does, that has another
constraint. -/
theorem reread_spec (h : p.IsPrintable) :
    (p.reread = .ok p ↔ p.Expressible) ∧
    (¬ p.EndsTagged →
      ∃ q, p.reread = .ok q ∧ q.tokens = p.tokens.map Token.reread ∧ q.kind = p.kind) ∧
    (p.EndsTagged → ∀ q, p.reread = .ok q → q.kind ≠ p.kind) := by
  refine ⟨reread_eq_self_iff h, ?_⟩
  simp only [reread_eq_ok_iff]
  constructor
  · intro hn
    obtain ⟨q, hq, hspec⟩ := exists_ofText_text h hn
    exact ⟨q, ⟨h, hq⟩, hspec⟩
  · exact fun ht q hq => kind_ne_of_endsTagged ht hq.2

/-- The name `\5` comes back without its backslash; what looks like a tag in an earlier token, or
before a tag, does no harm. -/
theorem reread_spec_of_literal :
    let p : Pointer := { tokens := [.key "x::y", .key "\\5", .key "a::b"], kind := .string }
    p.IsPrintable ∧ ∃ q, p.reread = .ok q ∧
      q.tokens = [.key "x::y", .key "5", .key "a::b"] ∧ q.kind = .string := by
  intro p
  have hp : p.IsPrintable := by decide
  have hn : ¬ p.EndsTagged := fun h => absurd h.1 (by decide)
  exact ⟨hp, (reread_spec hp).2.1 hn⟩

/-- Three pointers that do not come back: as another name, under a constraint, and not at all. -/
theorem reread_ne_self :
    ({ tokens := [.key "\\5"] } : Pointer).reread = .ok { tokens := [.key "5"] } ∧
    ({ tokens := [.key "a::string"] } : Pointer).reread =
      .ok { tokens := [.key "a"], kind := .string } ∧
    ({ tokens := [.key "a::b"] } : Pointer).reread = .error (.malformed (.unknownTag "b")) :=
  ⟨rfl, rfl, rfl⟩

/-- **Canonical texts.** Of the pointers that can be written, those that some text reads as are the
ones that come back, and they are the expressible ones. So a pointer that a text reads as comes
back, but for the greatest position, which cannot be written; and the text of a pointer that was
read is its own canonical text. -/
theorem canonical_text :
    (∀ p : Pointer, p.IsPrintable →
      ((∃ text shift options, parse text shift options = .ok p) ↔ p.reread = .ok p) ∧
      (p.reread = .ok p ↔ p.Expressible)) ∧
    (∀ text shift options p, parse text shift options = .ok p →
      (p.reread = .ok p ↔ greatestIndex ∉ p.tokens) ∧
      (greatestIndex ∈ p.tokens → shift.getD options.shift = true)) ∧
    (∀ text p, ofText text = .ok p →
      canonicalText text = .ok p.text ∧ canonicalText p.text = .ok p.text) := by
  refine ⟨?_, ?_, ?_⟩
  · intro p hp
    refine ⟨⟨?_, ?_⟩, reread_eq_self_iff hp⟩
    · rintro ⟨text, shift, options, h⟩
      exact (reread_eq_self_iff hp).mpr (expressible_of_parse h)
    · intro h
      exact ⟨p.text, none, {}, (reread_eq_ok_iff.mp h).2⟩
  · intro text shift options p h
    refine ⟨?_, shift_of_greatestIndex_mem h⟩
    rw [← isPrintable_iff_of_parse h]
    constructor
    · intro hr
      exact (reread_eq_ok_iff.mp hr).1
    · intro hp
      exact (reread_eq_self_iff hp).mpr (expressible_of_parse h)
  · intro text p h
    have hr := (reread_eq_self_iff (isPrintable_of_ofText h)).mpr (expressible_of_parse h)
    exact ⟨canonicalText_of_ofText h, canonicalText_of_ofText (reread_eq_ok_iff.mp hr).2⟩

/-- A name of digits and a separator before a tag are written so that they come back. -/
theorem canonical_text_of_digits :
    let p : Pointer := { tokens := [.key "5", .key "a::b"], kind := .string }
    p.IsPrintable ∧ p.reread = .ok p ∧ canonicalText p.text = .ok p.text := by
  intro p
  have hp : p.IsPrintable := by decide
  have h : parse "/\\5/a::b::string" none {} = .ok p := rfl
  exact ⟨hp, (canonical_text.1 p hp).1.mp ⟨_, _, _, h⟩, (canonical_text.2.2 _ p h).2⟩

theorem spells_of_isNumeral {cs : List Char} (h : isNumeral cs = true) :
    Spells ('/' :: cs) [cs] .any where
  text := by simp [joined, tagChars_any]
  ne_nil := by simp
  slashless := by simpa using notMem_of_isNumeral h rfl
  untagged := by simpa using not_isTagged_of_notMem (notMem_of_isNumeral h rfl)

/-- As many nines as there may be digits, counted from zero, read as a position that cannot be
written. -/
theorem reread_nines :
    let text := String.ofList ('/' :: List.replicate maxDigits '9')
    let p : Pointer := { tokens := [greatestIndex] }
    parse text (some true) {} = .ok p ∧ p.reread = .error .unprintable := by
  intro text p
  have hn : isNumeral (List.replicate maxDigits '9') = true :=
    isNumeral_iff.mpr ⟨List.cons_ne_nil _ _, fun c hc => by rw [List.eq_of_mem_replicate hc]; rfl⟩
  have hdenotes : Denotes true (List.replicate maxDigits '9') greatestIndex := by
    refine .position hn (Nat.le_of_eq List.length_replicate) ?_
    -- one more than so many nines is the power of ten with as many zeros
    have := natOfDigits_replicate_nine maxDigits
    have := tenPow_pos maxDigits
    rw [Bool.toNat_true]
    omega
  have h : parse text (some true) {} = .ok p := by
    rw [parse, String.toList_ofList]
    exact ofChars_eq_ok_iff.mpr
      (.inr ⟨⟨_, _, _, spells_of_isNumeral hn, .cons hdenotes .nil⟩, rfl, rfl⟩)
  have hp : ¬ p.IsPrintable := by
    rw [isPrintable_iff_of_parse h, not_not]
    exact List.mem_singleton.mpr rfl
  exact ⟨h, reread_of_not_isPrintable hp⟩

end Pointer
end JsonPointer
