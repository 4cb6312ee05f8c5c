import JsonPointer.Json.Reader
import JsonPointer.Proofs.Numerals
import Mathlib.Data.List.Nodup

/-!
# What JSON texts say

A string may be written in many ways: almost every character as itself or by its number, in digits
of either case, and some by a short escape. Between the parts of an object any blanks may stand.
`SpellsString` and `SpellsObject` say of a text, apart from the reader, which string or which object
of strings it is a text of.

Reading finds what a text spells (`read_of_spellsObject`), and what is written spells what was to be
written (`spellsObject_chars`).
-/

namespace JsonPointer
namespace Json

variable {raw cs : List Char} {c : Char} {n : Nat}

/-! ### Spellings of strings -/

/-- The characters that may stand behind a backslash, but for `u`, and what they stand for. -/
def escapes : List (Char × Char) :=
  [('\x22', '\x22'), ('\\', '\\'), ('/', '/'), ('b', '\x08'), ('f', '\x0c'), ('n', '\n'),
    ('r', '\r'), ('t', '\t')]

/-- The four hexadecimal digits of a number, each in upper or lower case. -/
structure SpellsUnit (digits : List Char) (n : Nat) : Prop where
  lt : n < 0x10000
  map_toLower : digits.map Char.toLower = Digits.hexDigits 4 n

/-- The first half of the surrogate pair for a code point that takes more than four digits. -/
def highHalf (n : Nat) : Nat := 0xd800 + (n - 0x10000) / 0x400

def lowHalf (n : Nat) : Nat := 0xdc00 + (n - 0x10000) % 0x400

/-- What may stand between the marks of a string, and the characters of the string. -/
inductive SpellsString : List Char → List Char → Prop
  | nil : SpellsString [] []
  /-- A character as it is. -/
  | plain {c : Char} {raw cs : List Char} (hmark : c ≠ '\x22') (hslash : c ≠ '\\')
      (hcontrol : 0x20 ≤ c.toNat) (h : SpellsString raw cs) : SpellsString (c :: raw) (c :: cs)
  /-- A short escape. -/
  | escape {e c : Char} {raw cs : List Char} (he : (e, c) ∈ escapes) (h : SpellsString raw cs) :
      SpellsString ('\\' :: e :: raw) (c :: cs)
  /-- The code point. -/
  | unit {c : Char} {digits raw cs : List Char} (hc : SpellsUnit digits c.toNat)
      (h : SpellsString raw cs) : SpellsString ('\\' :: 'u' :: (digits ++ raw)) (c :: cs)
  /-- The surrogate pair of the code point. -/
  | pair {c : Char} {high low raw cs : List Char} (hc : 0x10000 ≤ c.toNat)
      (hhigh : SpellsUnit high (highHalf c.toNat)) (hlow : SpellsUnit low (lowHalf c.toNat))
      (h : SpellsString raw cs) :
      SpellsString ('\\' :: 'u' :: (high ++ '\\' :: 'u' :: (low ++ raw))) (c :: cs)

/-! ### Spellings of objects of strings -/

def IsBlanks (cs : List Char) : Prop := ∀ c ∈ cs, c = ' ' ∨ c = '\t' ∨ c = '\n' ∨ c = '\r'

def quoted (raw : List Char) : List Char := '\x22' :: (raw ++ ['\x22'])

/-- A member: its name and its value, both strings. -/
inductive SpellsMember : List Char → String × String → Prop
  | mk {name before after value : List Char} {m : String × String}
      (hname : SpellsString name m.1.toList) (hbefore : IsBlanks before) (hafter : IsBlanks after)
      (hvalue : SpellsString value m.2.toList) :
      SpellsMember (quoted name ++ (before ++ ':' :: (after ++ quoted value))) m

/-- Members, at least one, with commas between them. -/
inductive SpellsMembers : List Char → List (String × String) → Prop
  | one {raw : List Char} {m : String × String} (h : SpellsMember raw m) : SpellsMembers raw [m]
  | cons {raw before after rest : List Char} {m : String × String} {ms : List (String × String)}
      (h : SpellsMember raw m) (hbefore : IsBlanks before) (hafter : IsBlanks after)
      (hrest : SpellsMembers rest ms) :
      SpellsMembers (raw ++ (before ++ ',' :: (after ++ rest))) (m :: ms)

/-- An object of at least one member, and blanks around it. -/
inductive SpellsObject : List Char → List (String × String) → Prop
  | mk {before opened inner closed after : List Char} {ms : List (String × String)}
      (hbefore : IsBlanks before) (hopened : IsBlanks opened) (h : SpellsMembers inner ms)
      (hclosed : IsBlanks closed) (hafter : IsBlanks after) :
      SpellsObject (before ++ '\x7b' :: (opened ++ (inner ++ (closed ++ '\x7d' :: after)))) ms

/-- The object of strings with these members, in this order. -/
def ofFields (ms : List (String × String)) : Json :=
  .object (ms.map fun (name, s) => (name, .string s))

/-! ### Reading strings -/

/-- The reader knows the short escapes, and `u` is none of them. -/
theorem escaped?_of_mem {e : Char} (h : (e, c) ∈ escapes) : e ≠ 'u' ∧ escaped? e = some c := by
  have hall : ∀ p ∈ escapes, p.1 ≠ 'u' ∧ escaped? p.1 = some p.2 := by decide
  exact hall (e, c) h

/-- Four digits that spell a number are read as it. -/
theorem SpellsUnit.exists_hexNumber? {digits : List Char} (h : SpellsUnit digits n) :
    ∃ a b c d, digits = [a, b, c, d] ∧ hexNumber? a b c d = some n := by
  -- the digits of the number, most significant first
  have hdigits : digits.map Char.toLower = [Nat.digitChar (n / 16 / 16 / 16 % 16),
      Nat.digitChar (n / 16 / 16 % 16), Nat.digitChar (n / 16 % 16), Nat.digitChar (n % 16)] :=
    h.map_toLower
  simp only [List.map_eq_cons_iff, List.map_eq_nil_iff] at hdigits
  obtain ⟨a, _, rfl, ha, b, _, rfl, hb, c, _, rfl, hc, d, _, rfl, hd, rfl⟩ := hdigits
  refine ⟨a, b, c, d, rfl, ?_⟩
  simp only [hexNumber?, Digits.hexValue?_of_toLower ha, Digits.hexValue?_of_toLower hb,
    Digits.hexValue?_of_toLower hc, Digits.hexValue?_of_toLower hd, Option.some.injEq]
  have := h.lt
  omega

theorem isHighSurrogate_iff : isHighSurrogate n = true ↔ 0xd800 ≤ n ∧ n ≤ 0xdbff := by
  simp [isHighSurrogate]

theorem isLowSurrogate_iff : isLowSurrogate n = true ↔ 0xdc00 ≤ n ∧ n ≤ 0xdfff := by
  simp [isLowSurrogate]

theorem toNat_range (c : Char) : c.toNat < 0xd800 ∨ 0xdfff < c.toNat ∧ c.toNat < 0x110000 :=
  c.valid

/-- No character is half of a surrogate pair. -/
theorem not_isSurrogate (c : Char) :
    isLowSurrogate c.toNat = false ∧ isHighSurrogate c.toNat = false := by
  rw [Bool.eq_false_iff, Bool.eq_false_iff, ne_eq, ne_eq, isLowSurrogate_iff, isHighSurrogate_iff]
  have := toNat_range c
  omega

/-- The two halves of a code point make the character again. -/
theorem surrogatePair_halves (h : 0x10000 ≤ c.toNat) :
    surrogatePair (highHalf c.toNat) (lowHalf c.toNat) = c := by
  -- the halves hold the quotient and the remainder of what is above the first plane
  have hsum : 0x10000 + (highHalf c.toNat - 0xd800) * 0x400 + (lowHalf c.toNat - 0xdc00) =
      c.toNat := by
    simp only [highHalf, lowHalf]
    omega
  rw [surrogatePair, hsum, Char.ofNat_toNat]

theorem isHighSurrogate_highHalf (c : Char) :
    isHighSurrogate (highHalf c.toNat) = true ∧ isLowSurrogate (highHalf c.toNat) = false := by
  rw [Bool.eq_false_iff, ne_eq, isLowSurrogate_iff, isHighSurrogate_iff, highHalf]
  have := toNat_range c
  omega

theorem isLowSurrogate_lowHalf (n : Nat) : isLowSurrogate (lowHalf n) = true := by
  rw [isLowSurrogate_iff, lowHalf]
  omega

theorem readString_mark (rest : List Char) : readString ('\x22' :: rest) = .ok ([], rest) := by
  rw [readString] <;> simp

theorem readString_plain (hmark : c ≠ '\x22') (hslash : c ≠ '\\') (hcontrol : 0x20 ≤ c.toNat) :
    readString (c :: raw) = (readString raw).map (push c) := by
  rw [readString, if_neg hmark, if_neg (Nat.not_lt.mpr hcontrol)] <;> simp [hslash]

theorem readString_escape {e : Char} (he : (e, c) ∈ escapes) :
    readString ('\\' :: e :: raw) = (readString raw).map (push c) := by
  obtain ⟨hu, hc⟩ := escaped?_of_mem he
  rw [readString, hc] <;> simp [hu]

theorem readString_unit {digits : List Char} (hc : SpellsUnit digits c.toNat) :
    readString ('\\' :: 'u' :: (digits ++ raw)) = (readString raw).map (push c) := by
  obtain ⟨a, b, c', d, rfl, hnumber⟩ := hc.exists_hexNumber?
  have hs := not_isSurrogate c
  simp only [List.cons_append, List.nil_append, readString.eq_2, hnumber, hs.1, hs.2,
    Bool.false_eq_true, if_false, Char.ofNat_toNat]

theorem readString_pair {high low : List Char} (hc : 0x10000 ≤ c.toNat)
    (hhigh : SpellsUnit high (highHalf c.toNat)) (hlow : SpellsUnit low (lowHalf c.toNat)) :
    readString ('\\' :: 'u' :: (high ++ '\\' :: 'u' :: (low ++ raw))) =
      (readString raw).map (push c) := by
  obtain ⟨a, b, c₁, d, rfl, hfirst⟩ := hhigh.exists_hexNumber?
  obtain ⟨a', b', c₂, d', rfl, hsecond⟩ := hlow.exists_hexNumber?
  have hs := isHighSurrogate_highHalf c
  simp only [List.cons_append, List.nil_append]
  -- one step only: the second half is no character by itself
  rw [readString.eq_2]
  simp only [hfirst, hs.1, hs.2, hsecond, isLowSurrogate_lowHalf, Bool.false_eq_true, if_false,
    if_true, surrogatePair_halves hc]

/-- A string is read up to its closing mark, as what it spells. -/
theorem readString_of_spellsString (h : SpellsString raw cs) (rest : List Char) :
    readString (raw ++ '\x22' :: rest) = .ok (cs, rest) := by
  -- one step of the reader for each rule of the spelling
  induction h with
  | nil => exact readString_mark rest
  | plain hmark hslash hcontrol _ ih =>
      rw [List.cons_append, readString_plain hmark hslash hcontrol, ih]
      rfl
  | escape he _ ih =>
      rw [List.cons_append, List.cons_append, readString_escape he, ih]
      rfl
  | unit hc _ ih =>
      rw [List.cons_append, List.cons_append, List.append_assoc, readString_unit hc, ih]
      rfl
  | pair hc hhigh hlow _ ih =>
      simp only [List.cons_append, List.append_assoc]
      rw [readString_pair hc hhigh hlow, ih]
      rfl

/-! ### Reading objects of strings -/

variable {blanks rest : List Char} {m : String × String} {ms : List (String × String)}

theorem isBlanks_nil : IsBlanks [] := List.forall_mem_nil _

theorem skipBlanks_append (h : IsBlanks blanks) (rest : List Char) :
    skipBlanks (blanks ++ rest) = skipBlanks rest := by
  apply List.dropWhile_append_of_pos
  intro c hc
  simp only [isBlank, Bool.or_eq_true, decide_eq_true_eq, or_assoc]
  exact h c hc

theorem skipBlanks_cons (h : isBlank c = false) (rest : List Char) :
    skipBlanks (c :: rest) = c :: rest :=
  List.dropWhile_cons_of_neg (by rw [h]; decide)

/-- Blanks are skipped up to the next character that is none. -/
theorem skipBlanks_append_cons (h : IsBlanks blanks) (hc : isBlank c = false) (rest : List Char) :
    skipBlanks (blanks ++ c :: rest) = c :: rest := by
  rw [skipBlanks_append h, skipBlanks_cons hc]

theorem skipBlanks_of_isBlanks (h : IsBlanks blanks) : skipBlanks blanks = [] := by
  have hnil := skipBlanks_append h []
  rwa [List.append_nil] at hnil

theorem readName_of_spellsString {s : String} (h : SpellsString raw s.toList)
    (hb : IsBlanks blanks) (rest : List Char) :
    readName (raw ++ '\x22' :: (blanks ++ ':' :: rest)) = .ok (s, rest) := by
  rw [readName, readString_of_spellsString h]
  simp only [bind, Except.bind, skipBlanks_append_cons hb (by decide : isBlank ':' = false),
    String.ofList_toList]

theorem readValue_of_spellsString {s : String} (h : SpellsString raw s.toList)
    (hb : IsBlanks blanks) (fuel : Nat) (rest : List Char) :
    readValue (fuel + 1) (blanks ++ '\x22' :: (raw ++ '\x22' :: rest)) = .ok (.string s, rest) := by
  rw [readValue.eq_2, skipBlanks_append_cons hb (by decide)]
  simp only [readString_of_spellsString h, bind, Except.bind, String.ofList_toList]

/-- Behind the mark of its name, the text is read as the member: first its name, then its value. -/
def ReadsMember (tail : List Char) (m : String × String) : Prop :=
  ∀ rest, ∃ value, readName (tail ++ rest) = .ok (m.1, value) ∧
    ∀ fuel, readValue (fuel + 1) value = .ok (.string m.2, rest)

/-- A member starts with the mark of its name and is read as the member. -/
theorem SpellsMember.read (h : SpellsMember raw m) :
    ∃ tail, raw = '\x22' :: tail ∧ ReadsMember tail m := by
  cases h with
  | @mk name before after value _ hname hbefore hafter hvalue =>
      refine ⟨name ++ '\x22' :: (before ++ ':' :: (after ++ quoted value)), by simp [quoted], ?_⟩
      intro rest
      -- the name ends at its colon, and the value starts with the blanks behind that
      refine ⟨after ++ '\x22' :: (value ++ '\x22' :: rest), ?_, fun fuel => ?_⟩
      · have hread := readName_of_spellsString hname hbefore (after ++ (quoted value ++ rest))
        simpa [quoted] using hread
      · exact readValue_of_spellsString hvalue hafter fuel rest

/-- A brace behind a member ends the object. -/
theorem ReadsMember.last {tail : List Char} (h : ReadsMember tail m) (hb : IsBlanks blanks)
    (fuel : Nat) (rest : List Char) :
    readMembers (fuel + 2) (tail ++ (blanks ++ '\x7d' :: rest)) =
      .ok ([(m.1, .string m.2)], rest) := by
  obtain ⟨value, hname, hvalue⟩ := h (blanks ++ '\x7d' :: rest)
  rw [readMembers.eq_2, hname]
  simp only [bind, Except.bind, hvalue]
  rw [skipBlanks_append_cons hb (by decide)]
  rfl

/-- A comma behind a member leads to the next one. -/
theorem ReadsMember.next {tail before after : List Char} (h : ReadsMember tail m)
    (hbefore : IsBlanks before) (hafter : IsBlanks after) (fuel : Nat) (rest : List Char) :
    readMembers (fuel + 2) (tail ++ (before ++ ',' :: (after ++ '\x22' :: rest))) =
      (readMembers (fuel + 1) rest).map fun r => ((m.1, .string m.2) :: r.1, r.2) := by
  obtain ⟨value, hname, hvalue⟩ := h (before ++ ',' :: (after ++ '\x22' :: rest))
  rw [readMembers.eq_2, hname]
  simp only [bind, Except.bind, hvalue]
  rw [skipBlanks_append_cons hbefore (by decide)]
  simp only
  rw [skipBlanks_append_cons hafter (by decide)]
  simp only
  cases readMembers (fuel + 1) rest <;> rfl

/-- Members are read one after the other up to the brace. -/
theorem SpellsMembers.read (h : SpellsMembers raw ms) : ∃ tail, raw = '\x22' :: tail ∧
    ∀ fuel blanks rest, ms.length < fuel → IsBlanks blanks →
      readMembers fuel (tail ++ (blanks ++ '\x7d' :: rest)) =
        .ok (ms.map fun (name, s) => (name, .string s), rest) := by
  -- a member takes one unit of fuel, and the value of the last one another
  induction h with
  | one hm =>
      obtain ⟨tail, rfl, hread⟩ := hm.read
      refine ⟨tail, rfl, ?_⟩
      intro fuel blanks rest hfuel hblanks
      obtain ⟨fuel, rfl⟩ : ∃ k, fuel = k + 2 := Nat.exists_eq_add_of_le' hfuel
      exact hread.last hblanks fuel rest
  | @cons _ before after _ m ms hm hbefore hafter _ ih =>
      obtain ⟨tail, rfl, hread⟩ := hm.read
      obtain ⟨tail', rfl, ih⟩ := ih
      refine ⟨tail ++ (before ++ ',' :: (after ++ '\x22' :: tail')), rfl, ?_⟩
      intro fuel blanks rest hfuel hblanks
      rw [List.length_cons] at hfuel
      obtain ⟨fuel, rfl⟩ : ∃ k, fuel = k + 2 := Nat.exists_eq_add_of_le' (by omega)
      simp only [List.append_assoc, List.cons_append]
      rw [hread.next hbefore hafter, ih (fuel + 1) blanks rest (by omega) hblanks]
      rfl

theorem SpellsMembers.length_le (h : SpellsMembers raw ms) : ms.length ≤ raw.length := by
  induction h with
  | one hm =>
      obtain ⟨tail, rfl, _⟩ := hm.read
      simp
  | cons hm _ _ _ ih =>
      obtain ⟨tail, rfl, _⟩ := hm.read
      simp only [List.length_cons, List.length_append]
      omega

theorem readValue_of_spellsMembers {before opened closed : List Char} {fuel : Nat}
    (h : SpellsMembers raw ms) (hbefore : IsBlanks before) (hopened : IsBlanks opened)
    (hclosed : IsBlanks closed) (hfuel : ms.length < fuel) (rest : List Char) :
    readValue (fuel + 1) (before ++ '\x7b' :: (opened ++ (raw ++ (closed ++ '\x7d' :: rest)))) =
      .ok (ofFields ms, rest) := by
  obtain ⟨tail, rfl, hread⟩ := h.read
  rw [readValue.eq_2, skipBlanks_append_cons hbefore (by decide)]
  simp only
  rw [List.cons_append, skipBlanks_append_cons hopened (by decide)]
  simp only
  rw [hread fuel closed rest hfuel hclosed]
  rfl

/-- **Reading.** Every text of an object of strings is read as that object. -/
theorem read_of_spellsObject (h : SpellsObject raw ms) : Json.read raw = .ok (ofFields ms) := by
  cases h with
  | mk hbefore hopened h hclosed hafter =>
      -- each member is a part of the text, so the fuel lasts
      have hlength := h.length_le
      rw [Json.read, readValue_of_spellsMembers h hbefore hopened hclosed]
      · simp only [bind, Except.bind, skipBlanks_of_isBlanks hafter]
      · simp only [List.length_append, List.length_cons]
        omega

/-! ### Writing -/

/-- What is written for a character is a spelling of it. -/
theorem spellsString_stringChar (c : Char) (h : SpellsString raw cs) :
    SpellsString (stringChar c ++ raw) (c :: cs) := by
  have hunit : ∀ n < 0x20, (Digits.hexDigits 4 n).map Char.toLower = Digits.hexDigits 4 n := by
    decide
  unfold stringChar
  -- every branch writes by one of the rules: a short escape, the code point, or the character
  split_ifs with hmark hb ht hn hf hr hcontrol
  · refine .escape ?_ h
    rcases hmark with rfl | rfl <;> decide
  · exact .escape (hb ▸ by decide) h
  · exact .escape (ht ▸ by decide) h
  · exact .escape (hn ▸ by decide) h
  · exact .escape (hf ▸ by decide) h
  · exact .escape (hr ▸ by decide) h
  · exact .unit ⟨by omega, hunit _ hcontrol⟩ h
  · rw [not_or] at hmark
    exact .plain hmark.1 hmark.2 (Nat.not_lt.mp hcontrol) h

theorem spellsString_flatMap (cs : List Char) : SpellsString (cs.flatMap stringChar) cs := by
  induction cs with
  | nil => exact .nil
  | cons c cs ih => exact spellsString_stringChar c ih

theorem spellsMember_stringChars (m : String × String) :
    SpellsMember (stringChars m.1.toList ++ ':' :: stringChars m.2.toList) m :=
  .mk (spellsString_flatMap _) isBlanks_nil isBlanks_nil (spellsString_flatMap _)

/-- What is written for the members of an object spells them, with a comma between each two. -/
theorem spellsMembers_memberChars (ms : List (String × String)) (h : ms ≠ []) :
    ∃ inner, SpellsMembers inner ms ∧
      chars.memberChars (ms.map fun (name, s) => (name, .string s)) = inner ++ ['\x7d'] := by
  induction ms with
  | nil => exact absurd rfl h
  | cons m ms ih =>
      by_cases hms : ms = []
      · subst hms
        -- the last member has no comma behind it
        refine ⟨_, .one (spellsMember_stringChars m), ?_⟩
        simp [chars.memberChars, chars]
      · obtain ⟨inner, hinner, htext⟩ := ih hms
        refine ⟨_, .cons (spellsMember_stringChars m) isBlanks_nil isBlanks_nil hinner, ?_⟩
        rw [List.map_cons, chars.memberChars, htext]
        · simp [chars]
        · simpa using hms

/-- **Writing.** What is written for an object of strings is a text of it. -/
theorem spellsObject_chars (h : ms ≠ []) : SpellsObject (ofFields ms).chars ms := by
  obtain ⟨inner, hinner, htext⟩ := spellsMembers_memberChars ms h
  have hobject : SpellsObject ([] ++ '\x7b' :: ([] ++ (inner ++ ([] ++ '\x7d' :: [])))) ms :=
    .mk isBlanks_nil isBlanks_nil hinner isBlanks_nil isBlanks_nil
  rw [ofFields, chars, htext]
  exact hobject

/-! ### Fields -/

/-- Where no name stands twice, a field is the value of the one member of its name. -/
theorem field?_of_mem {member : String × Json} {members : List (String × Json)}
    (hnodup : (members.map Prod.fst).Nodup) (h : member ∈ members) :
    field? member.1 members = some member.2 := by
  cases hfind : members.reverse.find? (·.1 = member.1) with
  | none =>
      have hnone := List.find?_eq_none.mp hfind member (List.mem_reverse.mpr h)
      simp at hnone
  | some found =>
      have hmem : found ∈ members := List.mem_reverse.mp (List.mem_of_find?_eq_some hfind)
      -- the member that is found has the same name, so it is the same member
      have hname : found.1 = member.1 := by simpa using List.find?_some hfind
      rw [field?, hfind, List.inj_on_of_nodup_map hnodup hmem h hname]
      rfl

end Json
end JsonPointer
