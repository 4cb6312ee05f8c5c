import JsonPointer.Proofs.Escapes
import Mathlib.Data.Set.Function

/-!
# The escaped form of a text

A text is *well escaped* if it has no `/` in it and every `~` in it has a `0` or a `1` behind it.
These are the texts that escaping makes: it makes no others (`isWellEscaped_escape`), and it makes
each of them from what it reads as (`escape_scan`). So each text has one escaped form, each well
escaped text is the escaped form of one text, and any other text changes when it is read and escaped
again (`escape_unescape_eq_self_iff`).

`escape` goes over a text once. With a pass for each of the two characters, `~` has to go first,
since the `~` of a `~1` must not be escaped itself (`escape_eq_replaceChar`).
-/

namespace JsonPointer
namespace Tilde

variable {c : Char} {cs : List Char}

/-! ### One pass or two -/

def replaceChar (a : Char) (bs cs : List Char) : List Char :=
  cs.flatMap fun c => if c = a then bs else [c]

theorem escapeChar_eq_replaceChar (c : Char) :
    escapeChar c = replaceChar '/' ['~', '1'] (if c = '~' then ['~', '0'] else [c]) := by
  unfold escapeChar
  by_cases h : c = '~'
  · rw [if_pos h, if_pos h]
    rfl
  · rw [if_neg h, if_neg h, replaceChar, List.flatMap_singleton]

/-- Escaping in one pass does what a pass for `~` and then one for `/` do. -/
theorem escape_eq_replaceChar (cs : List Char) :
    escape cs = replaceChar '/' ['~', '1'] (replaceChar '~' ['~', '0'] cs) := by
  rw [escape, funext escapeChar_eq_replaceChar]
  exact List.flatMap_assoc.symm

/-- With `/` first, the `~` of its escape is escaped again. -/
example : replaceChar '~' ['~', '0'] (replaceChar '/' ['~', '1'] ['/']) = ['~', '0', '1'] := by
  decide

/-! ### Well escaped texts -/

/-- The text has no `/`, and every `~` in it starts an escape. -/
structure IsWellEscaped (cs : List Char) : Prop where
  slash_notMem : '/' ∉ cs
  /-- Behind a `~` stands a `0` or a `1`. -/
  escapes (i : Nat) : cs[i]? = some '~' → cs[i + 1]? = some '0' ∨ cs[i + 1]? = some '1'

instance : DecidablePred IsWellEscaped := fun cs =>
  decidable_of_iff
    ('/' ∉ cs ∧
      ∀ i < cs.length, cs[i]? = some '~' → cs[i + 1]? = some '0' ∨ cs[i + 1]? = some '1')
    ⟨fun h => ⟨h.1, fun i hi => h.2 i (List.getElem?_eq_some_iff.mp hi).1 hi⟩,
      fun h => ⟨h.slash_notMem, fun i _ => h.escapes i⟩⟩

/-- A `~` at the end starts no escape. -/
example : IsWellEscaped ['~', '0', '1'] ∧ ¬ IsWellEscaped ['0', '1', '~'] := by decide

theorem isWellEscaped_nil : IsWellEscaped [] := by decide

/-- A `~` at the start needs one of the two digits behind it, whatever else the text holds. -/
theorem isWellEscaped_cons :
    IsWellEscaped (c :: cs) ↔
      c ≠ '/' ∧ (c = '~' → cs.head? = some '0' ∨ cs.head? = some '1') ∧ IsWellEscaped cs := by
  rw [List.head?_eq_getElem?]
  constructor
  · rintro ⟨hslash, hescapes⟩
    rw [List.mem_cons, not_or] at hslash
    exact ⟨Ne.symm hslash.1, fun hc => hescapes 0 (congrArg some hc), hslash.2,
      fun i => hescapes (i + 1)⟩
  · rintro ⟨hc, hhead, hcs⟩
    refine ⟨List.not_mem_cons_of_ne_of_not_mem (Ne.symm hc) hcs.slash_notMem, fun i h => ?_⟩
    cases i with
    | zero => exact hhead (Option.some.inj h)
    | succ i => exact hcs.escapes i h

theorem IsWellEscaped.tail (h : IsWellEscaped (c :: cs)) : IsWellEscaped cs :=
  (isWellEscaped_cons.mp h).2.2

/-- Escaping a character keeps what stands behind it well escaped. -/
theorem isWellEscaped_escapeChar_append (c : Char) (h : IsWellEscaped cs) :
    IsWellEscaped (escapeChar c ++ cs) := by
  unfold escapeChar
  split
  · simp [isWellEscaped_cons, h]
  · split
    · simp [isWellEscaped_cons, h]
    · next htilde hslash => exact isWellEscaped_cons.mpr ⟨hslash, fun hc => absurd hc htilde, h⟩

theorem isWellEscaped_escape (cs : List Char) : IsWellEscaped (escape cs) := by
  induction cs with
  | nil => exact isWellEscaped_nil
  | cons c cs ih => exact isWellEscaped_escapeChar_append c ih

/-- A well escaped text is the escaped form of what it reads as. -/
theorem escape_scan (h : IsWellEscaped cs) : escape (scan cs) = cs := by
  fun_induction scan cs with
  | case1 rest ih =>
      rw [escape_cons, ih h.tail.tail]
      rfl
  | case2 rest ih =>
      rw [escape_cons, ih h.tail.tail]
      rfl
  | case3 c rest h0 h1 ih =>
      obtain ⟨hslash, hhead, hrest⟩ := isWellEscaped_cons.mp h
      have htilde : c ≠ '~' := by
        -- such a `~` would start an escape, and the scan would have read that
        intro hc
        rcases hhead hc with hzero | hone
        · exact head?_ne_of_copied h0 hc hzero
        · exact head?_ne_of_copied h1 hc hone
      rw [escape_cons, escapeChar_of_ne htilde hslash, ih hrest, List.singleton_append]
  | case4 => rfl

theorem escape_unescape_eq_self_iff : escape (unescape cs) = cs ↔ IsWellEscaped cs := by
  rw [unescape_eq_scan]
  constructor
  · intro h
    rw [← h]
    exact isWellEscaped_escape (scan cs)
  · exact escape_scan

end Tilde

/-! ### Tokens -/

theorem toList_escapeToken (s : String) : (escapeToken s).toList = Tilde.escape s.toList :=
  String.toList_ofList

theorem unescapeToken_escapeToken (s : String) : unescapeToken (escapeToken s) = s := by
  rw [unescapeToken, toList_escapeToken, Tilde.unescape_escape, String.ofList_toList]

theorem escapeToken_unescapeToken_eq_self_iff {t : String} :
    escapeToken (unescapeToken t) = t ↔ Tilde.IsWellEscaped t.toList := by
  rw [← Tilde.escape_unescape_eq_self_iff, ← String.toList_inj, toList_escapeToken, unescapeToken,
    String.toList_ofList]

/-- Escaping goes over the text for `~` and then for `/`. It is undone by reading, and it is a
bijection onto the well escaped texts: what it makes is well escaped, and the well escaped texts are
those that escaping makes again from what they read as. -/
theorem bijOn_escapeToken :
    (∀ s, (escapeToken s).toList =
      Tilde.replaceChar '/' ['~', '1'] (Tilde.replaceChar '~' ['~', '0'] s.toList)) ∧
    (∀ s, unescapeToken (escapeToken s) = s) ∧
    (∀ s, Tilde.IsWellEscaped (escapeToken s).toList) ∧
    (∀ t, escapeToken (unescapeToken t) = t ↔ Tilde.IsWellEscaped t.toList) ∧
    Set.BijOn escapeToken Set.univ {t | Tilde.IsWellEscaped t.toList} := by
  have hwell (s : String) : Tilde.IsWellEscaped (escapeToken s).toList := by
    rw [toList_escapeToken]
    exact Tilde.isWellEscaped_escape s.toList
  have hinv : Set.InvOn unescapeToken escapeToken Set.univ {t | Tilde.IsWellEscaped t.toList} :=
    ⟨fun s _ => unescapeToken_escapeToken s,
      fun _ ht => escapeToken_unescapeToken_eq_self_iff.mpr ht⟩
  refine ⟨fun s => ?_, unescapeToken_escapeToken, hwell,
    fun _ => escapeToken_unescapeToken_eq_self_iff, ?_⟩
  · rw [toList_escapeToken, Tilde.escape_eq_replaceChar]
  · exact hinv.bijOn (fun s _ => hwell s) (fun _ _ => Set.mem_univ _)

end JsonPointer
