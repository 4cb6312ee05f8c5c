import JsonPointer.Pointer.Parse
import JsonPointer.Proofs.Numerals

/-!
# Fragments

Behind a `#` the text of a pointer may be written in many ways: every character may stand for
itself, unless it is a `%`, or for its bytes in UTF-8 the escapes of these may stand, with digits in
upper or lower case. `Percent.Spells` is the relation between what is written and what is meant, and
decoding goes from the one to the other (`Percent.decode_of_spells`).

The decoder takes bytes one by one and is not told where a character ends. It need not be: the bytes
of one character take it from between characters to that character and to between characters again
(`Utf8.steps_encode`), so what comes next, escaped or not, is read as if it came first.
-/

namespace JsonPointer

/-! ### The bytes of a character -/

namespace Utf8

/-- Decode bytes from a state on; the answer has the state behind the last one. -/
def steps (state : State) : List UInt8 → Output × State
  | [] => ([], state)
  | byte :: bytes =>
    let (output, next) := step state byte.toNat
    let (rest, last) := steps next bytes
    (output ++ rest, last)

variable {byte bits pending low high : Nat}

theorem step_one (h : byte < 0x80) : step none byte = ([some (Char.ofNat byte)], none) := if_pos h

/-- The first byte of two. -/
theorem step_two (hlow : 0xc2 ≤ byte) (hhigh : byte < 0xe0) :
    step none byte = ([], some ⟨byte - 0xc0, 0, 0x80, 0xbf⟩) := by
  rw [step, start, if_neg (by omega), if_neg (by omega), if_pos hhigh]

/-- The first byte of three. -/
theorem step_three (hlow : 0xe0 ≤ byte) (hhigh : byte < 0xf0) :
    step none byte = ([], some ⟨byte - 0xe0, 1, if byte = 0xe0 then 0xa0 else 0x80,
      if byte = 0xed then 0x9f else 0xbf⟩) := by
  rw [step, start, if_neg (by omega), if_neg (by omega), if_neg (by omega), if_pos hhigh]

/-- The first byte of four. -/
theorem step_four (hlow : 0xf0 ≤ byte) (hhigh : byte < 0xf5) :
    step none byte = ([], some ⟨byte - 0xf0, 2, if byte = 0xf0 then 0x90 else 0x80,
      if byte = 0xf4 then 0x8f else 0xbf⟩) := by
  rw [step, start, if_neg (by omega), if_neg (by omega), if_neg (by omega), if_neg (by omega),
    if_pos hhigh]

/-- A byte that is not the last one of its character. -/
theorem step_inner (hlow : low ≤ byte) (hhigh : byte ≤ high) :
    step (some ⟨bits, pending + 1, low, high⟩) byte =
      ([], some ⟨bits * 64 + (byte - 0x80), pending, 0x80, 0xbf⟩) :=
  if_pos ⟨hlow, hhigh⟩

/-- The last byte of a character. -/
theorem step_last (hlow : low ≤ byte) (hhigh : byte ≤ high) :
    step (some ⟨bits, 0, low, high⟩) byte =
      ([some (Char.ofNat (bits * 64 + (byte - 0x80)))], none) :=
  if_pos ⟨hlow, hhigh⟩

theorem steps_cons {state next : State} {output : Output} (hbyte : byte < 256)
    (h : step state byte = (output, next)) (bytes : List UInt8) :
    steps state (UInt8.ofNat byte :: bytes) =
      (output ++ (steps next bytes).1, (steps next bytes).2) := by
  rw [steps, UInt8.toNat_ofNat_of_lt' hbyte, h]

/-- A code point in two bytes. -/
theorem steps_two {n : Nat} (hlow : 0x80 ≤ n) (hhigh : n < 0x800) :
    steps none [UInt8.ofNat (n / 64 % 32 + 0xc0), UInt8.ofNat (n % 64 + 0x80)] =
      ([some (Char.ofNat n)], none) := by
  rw [steps_cons (by omega) (step_two (by omega) (by omega)),
    steps_cons (by omega) (step_last (by omega) (by omega))]
  have hn : (n / 64 % 32 + 0xc0 - 0xc0) * 64 + (n % 64 + 0x80 - 0x80) = n := by omega
  rw [hn]
  rfl

/-- A code point in three bytes. The second one is not one of an overlong form, and not one of a
surrogate. -/
theorem steps_three {n : Nat} (hlow : 0x800 ≤ n) (hhigh : n < 0x10000)
    (hsurrogate : n < 0xd800 ∨ 0xdfff < n) :
    steps none [UInt8.ofNat (n / 4096 % 16 + 0xe0), UInt8.ofNat (n / 64 % 64 + 0x80),
        UInt8.ofNat (n % 64 + 0x80)] =
      ([some (Char.ofNat n)], none) := by
  rw [steps_cons (by omega) (step_three (by omega) (by omega)),
    steps_cons (by omega) (step_inner (by split <;> omega) (by split <;> omega)),
    steps_cons (by omega) (step_last (by omega) (by omega))]
  have hn : ((n / 4096 % 16 + 0xe0 - 0xe0) * 64 + (n / 64 % 64 + 0x80 - 0x80)) * 64 +
      (n % 64 + 0x80 - 0x80) = n := by omega
  rw [hn]
  rfl

/-- A code point in four bytes. The second one is not one of an overlong form, and not one of a
number past the last code point. -/
theorem steps_four {n : Nat} (hlow : 0x10000 ≤ n) (hhigh : n < 0x110000) :
    steps none [UInt8.ofNat (n / 262144 % 8 + 0xf0), UInt8.ofNat (n / 4096 % 64 + 0x80),
        UInt8.ofNat (n / 64 % 64 + 0x80), UInt8.ofNat (n % 64 + 0x80)] =
      ([some (Char.ofNat n)], none) := by
  rw [steps_cons (by omega) (step_four (by omega) (by omega)),
    steps_cons (by omega) (step_inner (by split <;> omega) (by split <;> omega)),
    steps_cons (by omega) (step_inner (by omega) (by omega)),
    steps_cons (by omega) (step_last (by omega) (by omega))]
  have hn : (((n / 262144 % 8 + 0xf0 - 0xf0) * 64 + (n / 4096 % 64 + 0x80 - 0x80)) * 64 +
      (n / 64 % 64 + 0x80 - 0x80)) * 64 + (n % 64 + 0x80 - 0x80) = n := by omega
  rw [hn]
  rfl

/-- The bytes that UTF-8 has for a character are read as that character, and nothing is left open
behind them. -/
theorem steps_encode (c : Char) : steps none (String.utf8EncodeChar c) = ([some c], none) := by
  have hvalid : c.toNat < 0xd800 ∨ 0xdfff < c.toNat ∧ c.toNat < 0x110000 := c.valid
  have hc : Char.ofNat c.toNat = c := Char.ofNat_toNat c
  rw [String.utf8EncodeChar]
  generalize hn : c.val.toNat = n
  obtain rfl : c.toNat = n := hn
  conv_rhs => rw [← hc]
  -- one byte, two, three or four, by the size of the code point
  split
  · exact steps_cons (by omega) (step_one (by omega)) []
  · split
    · exact steps_two (by omega) (by omega)
    · split
      · exact steps_three (by omega) (by omega) (by omega)
      · exact steps_four (by omega) (by omega)

end Utf8

/-! ### Spellings -/

namespace Percent

/-- Escapes that stand for bytes: for each a `%` and two hexadecimal digits, in upper or lower
case. -/
inductive SpellsBytes : List Char → List UInt8 → Prop
  | nil : SpellsBytes [] []
  | cons {high low : Char} {b : UInt8} {raw : List Char} {bytes : List UInt8}
      (hdigits : [high, low].map Char.toLower = Digits.hexDigits 2 b.toNat)
      (h : SpellsBytes raw bytes) : SpellsBytes ('%' :: high :: low :: raw) (b :: bytes)

/-- A text in which every character stands for itself, or escapes for its bytes. -/
inductive Spells : List Char → List Char → Prop
  | nil : Spells [] []
  | literal {c : Char} {raw cs : List Char} (hc : c ≠ '%') (h : Spells raw cs) :
      Spells (c :: raw) (c :: cs)
  | escaped {c : Char} {escape raw cs : List Char}
      (hescape : SpellsBytes escape (String.utf8EncodeChar c)) (h : Spells raw cs) :
      Spells (escape ++ raw) (c :: cs)

variable {high low c : Char} {b : UInt8} {raw escape cs : List Char} {bytes : List UInt8}

/-- Where there is no `%`, nothing has to be escaped. -/
theorem spells_self (h : '%' ∉ cs) : Spells cs cs := by
  induction cs with
  | nil => exact .nil
  | cons c cs ih =>
      rw [List.mem_cons, not_or] at h
      exact .literal (Ne.symm h.1) (ih h.2)

/-! ### Pieces of a spelling -/

theorem escapedByte?_of_toLower
    (h : [high, low].map Char.toLower = Digits.hexDigits 2 b.toNat) :
    escapedByte? high low = some b.toNat := by
  have hdigits : [high.toLower, low.toLower] =
      [Nat.digitChar (b.toNat / 16 % 16), Nat.digitChar (b.toNat % 16)] := h
  simp only [List.cons.injEq, and_true] at hdigits
  rw [escapedByte?, Digits.hexValue?_of_toLower hdigits.1, Digits.hexValue?_of_toLower hdigits.2]
  have hlt := b.toNat_lt
  show some (16 * (b.toNat / 16 % 16) + b.toNat % 16) = some b.toNat
  -- the digits of the byte are its quotient and its remainder by 16
  rw [Option.some.injEq]
  omega

theorem pieces_literal (hc : c ≠ '%') (rest : List Char) :
    pieces (c :: rest) = .literal c :: pieces rest := by
  rw [pieces]
  rintro high low rest' rfl
  exact absurd rfl hc

theorem pieces_escape (h : SpellsBytes escape bytes) (rest : List Char) :
    pieces (escape ++ rest) = bytes.map (fun b => .byte b.toNat) ++ pieces rest := by
  -- each escape is cut off as one piece
  induction h with
  | nil => rfl
  | cons hdigits _ ih =>
      simp only [List.cons_append, pieces, escapedByte?_of_toLower hdigits, ih]
      rfl

/-! ### The text of the pieces -/

theorem assemble_byte (state : Utf8.State) (n : Nat) (rest : List Piece) :
    assemble state (.byte n :: rest) =
      Utf8.lossy (Utf8.step state n).1 ++ assemble (Utf8.step state n).2 rest := rfl

theorem assemble_bytes (state : Utf8.State) (bytes : List UInt8) (rest : List Piece) :
    assemble state (bytes.map (fun b => .byte b.toNat) ++ rest) =
      Utf8.lossy (Utf8.steps state bytes).1 ++ assemble (Utf8.steps state bytes).2 rest := by
  -- byte by byte, with the state that the one before has left
  induction bytes generalizing state with
  | nil => rfl
  | cons b bytes ih =>
      rw [List.map_cons, List.cons_append, assemble_byte, ih, ← List.append_assoc, Utf8.lossy,
        Utf8.lossy, ← List.map_append]
      rfl

/-- **Decoding** a spelling of a text gives the text. -/
theorem decode_of_spells (h : Spells raw cs) : decode raw = cs := by
  induction h with
  | nil => rfl
  | literal hc _ ih =>
      rw [decode, pieces_literal hc]
      exact congrArg (_ :: ·) ih
  | escaped hescape _ ih =>
      -- behind the character the state is again the one that a text starts with
      rw [decode, pieces_escape hescape, assemble_bytes, Utf8.steps_encode]
      exact congrArg (_ :: ·) ih

end Percent

/-! ### Texts of pointers -/

namespace Pointer

theorem decoded_of_head?_ne {cs : List Char} (h : cs.head? ≠ some '#') : decoded cs = cs := by
  cases cs with
  | nil => rfl
  | cons c cs =>
      rw [decoded]
      rintro rest hcs
      rw [hcs] at h
      exact absurd rfl h

/-- **Fragments are transparent.** Behind a `#`, a spelling of a text is decoded to the text, and
has the outcome that the text has itself: the same pointer with the same constraint, or the same
error. -/
theorem parse_fragment {text raw : String} (hraw : Percent.Spells raw.toList text.toList)
    (htext : text.toList.head? ≠ some '#') (shift : Option Bool) (options : ParseOptions) :
    decoded ("#" ++ raw).toList = text.toList ∧
    parse ("#" ++ raw) shift options = parse text shift options := by
  have hdecoded : decoded ("#" ++ raw).toList = text.toList := by
    rw [String.toList_append]
    exact Percent.decode_of_spells hraw
  refine ⟨hdecoded, ?_⟩
  rw [parse, parse, hdecoded, decoded_of_head?_ne htext]

/-- The slash, both bytes of the name, and one of the colons of the tag are escaped. -/
theorem parse_fragment_of_escapes :
    let raw := "%2f%C3%a9:%3anull"
    let text := "/é::null"
    let p : Pointer := { tokens := [.key "é"], kind := .null }
    Percent.Spells raw.toList text.toList ∧ text.toList.head? ≠ some '#' ∧
    parse text none {} = .ok p ∧ parse ("#" ++ raw) none {} = .ok p := by
  intro raw text p
  have hchars : text.toList = '/' :: 'é' :: ':' :: ':' :: ['n', 'u', 'l', 'l'] := by decide
  have hescapes : raw.toList = ['%', '2', 'f'] ++ (['%', 'C', '3', '%', 'a', '9'] ++
      ':' :: (['%', '3', 'a'] ++ ['n', 'u', 'l', 'l'])) := by decide
  have hraw : Percent.Spells raw.toList text.toList := by
    rw [hchars, hescapes]
    apply Percent.Spells.escaped (.cons rfl .nil)
    apply Percent.Spells.escaped (.cons rfl (.cons rfl .nil))
    apply Percent.Spells.literal (by decide)
    apply Percent.Spells.escaped (.cons rfl .nil)
    exact Percent.spells_self (by decide)
  have htext : text.toList.head? ≠ some '#' := by
    rw [hchars]
    decide
  have hparse : parse "/é::null" none {} = .ok p := rfl
  exact ⟨hraw, htext, hparse, (parse_fragment hraw htext none {}).2.trans hparse⟩

end Pointer
end JsonPointer
