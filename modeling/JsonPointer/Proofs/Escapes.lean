import JsonPointer.Text.Escape

/-!
# Tilde escapes, read and written

`unescape` goes over a text twice. `scan` is the reading that the escapes are meant to have, once
from left to right, and `unescape_eq_scan` says that the two agree on every text, well escaped or
not. What else is known about escapes is proved of `scan`, by induction along it:

* `unescape_escape` — escaping can be undone;
* `eq_of_tilde_notMem_escape` and `scan_eq_self` — a text in which nothing is escaped is the text
  itself, so a text of digits comes from nothing else;
* `isTagged_escape` and `isTagged_of_isTagged_scan` — escapes neither make nor hide a `::`.
-/

namespace JsonPointer

/-- Does the text contain the separator `::`, behind which a tag may stand? -/
def IsTagged (cs : List Char) : Prop := [':', ':'] <:+: cs

instance : DecidablePred IsTagged := fun cs => inferInstanceAs (Decidable ([':', ':'] <:+: cs))

/-- A separator starts at the first character, or further right. -/
theorem isTagged_cons {c : Char} {cs : List Char} :
    IsTagged (c :: cs) ↔ (c = ':' ∧ cs.head? = some ':') ∨ IsTagged cs := by
  rw [IsTagged, List.infix_cons_iff, List.cons_prefix_cons, eq_comm (a := ':')]
  cases cs with
  | nil => simp [IsTagged]
  | cons d cs => simp [IsTagged, List.cons_prefix_cons, eq_comm (a := ':')]

theorem not_isTagged_nil : ¬ IsTagged [] := by decide

namespace Tilde

/-- The text that an escaped text stands for, read once from left to right: `~0` is `~`, `~1` is
`/`, and every other character is itself, a `~` before anything else included. -/
def scan : List Char → List Char
  | '~' :: '0' :: rest => '~' :: scan rest
  | '~' :: '1' :: rest => '/' :: scan rest
  | c :: rest => c :: scan rest
  | [] => []

/-! ### The two passes -/

theorem replacePair_cons_of_ne {a b c x : Char} (h : x ≠ a) (rest : List Char) :
    replacePair a b c (x :: rest) = x :: replacePair a b c rest := by
  cases rest with
  | nil => rfl
  | cons y rest => rw [replacePair, if_neg (fun hxy => h hxy.1)]

/-- A character before one that ends no pair is copied. -/
theorem replacePair_cons_of_head?_ne {a b c : Char} {rest : List Char} (h : rest.head? ≠ some b)
    (x : Char) : replacePair a b c (x :: rest) = x :: replacePair a b c rest := by
  cases rest with
  | nil => rfl
  | cons y rest => rw [replacePair, if_neg (fun hxy => h (congrArg some hxy.2))]

/-- The first pass puts no `0` where none was. -/
theorem head?_replacePair_ne {b c x : Char} (hc : c ≠ x) {rest : List Char}
    (h : rest.head? ≠ some x) : (replacePair '~' b c rest).head? ≠ some x := by
  cases rest with
  | nil => exact h
  | cons y rest =>
      cases rest with
      | nil => exact h
      | cons z rest =>
          rw [replacePair]
          split
          · simpa using hc
          · exact h

/-- Where the scan copies a `~`, the character that would make an escape of it does not follow. -/
theorem head?_ne_of_copied {c d : Char} {rest : List Char}
    (h : ∀ tail, c = '~' → rest = d :: tail → False) (hc : c = '~') : rest.head? ≠ some d :=
  fun hd => h _ hc (List.head?_eq_some_iff.mp hd).choose_spec

/-- The two passes read what one scan reads, on every text. -/
theorem unescape_eq_scan (cs : List Char) : unescape cs = scan cs := by
  unfold unescape
  -- along the scan: what it reads in one go is what the passes have to agree on
  fun_induction scan cs with
  | case1 rest ih =>
      -- the first pass leaves `~0` to the second
      -- the first pass leaves `~0` to the second
      rw [replacePair_cons_of_head?_ne (by simp), replacePair_cons_of_ne (x := '0') (by decide),
        replacePair, if_pos ⟨rfl, rfl⟩, ih]
  | case2 rest ih =>
      rw [replacePair, if_pos ⟨rfl, rfl⟩, replacePair_cons_of_ne (by decide), ih]
  | case3 c rest h0 h1 ih =>
      by_cases hc : c = '~'
      · -- a `~` that starts no escape: both passes copy it
        have h0' : rest.head? ≠ some '0' := head?_ne_of_copied h0 hc
        have h1' : rest.head? ≠ some '1' := head?_ne_of_copied h1 hc
        rw [replacePair_cons_of_head?_ne h1',
          replacePair_cons_of_head?_ne (head?_replacePair_ne (by decide) h0'), ih]
      · rw [replacePair_cons_of_ne hc, replacePair_cons_of_ne hc, ih]
  | case4 => rfl

/-- The two passes over a token read it as one scan does, whatever stands behind a `~`. -/
theorem unescapeToken_eq_scan (t : String) : unescapeToken t = String.ofList (scan t.toList) := by
  rw [unescapeToken, unescape_eq_scan]

/-- The other way round, what the pass for `~0` leaves is an escape to the pass for `~1`. -/
example : replacePair '~' '1' '/' (replacePair '~' '0' '~' ['~', '0', '1']) = ['/'] ∧
    scan ['~', '0', '1'] = ['~', '1'] := by
  decide

/-! ### Escaping and reading back -/

theorem escape_cons (c : Char) (cs : List Char) : escape (c :: cs) = escapeChar c ++ escape cs :=
  rfl

/-- Only `~` and `/` are escaped. -/
theorem escapeChar_of_ne {c : Char} (h : c ≠ '~') (h' : c ≠ '/') : escapeChar c = [c] := by
  rw [escapeChar, if_neg h, if_neg h']

theorem scan_cons_of_ne {c : Char} (h : c ≠ '~') (cs : List Char) : scan (c :: cs) = c :: scan cs :=
  scan.eq_3 c cs (fun _ hc _ => h hc) (fun _ hc _ => h hc)

theorem scan_escape (cs : List Char) : scan (escape cs) = cs := by
  induction cs with
  | nil => rfl
  | cons c cs ih =>
      rw [escape_cons]
      by_cases h : c = '~'
      · subst h
        exact congrArg _ ih
      by_cases h' : c = '/'
      · subst h'
        exact congrArg _ ih
      rw [escapeChar_of_ne h h', List.singleton_append, scan_cons_of_ne h, ih]

theorem unescape_escape (cs : List Char) : unescape (escape cs) = cs := by
  rw [unescape_eq_scan, scan_escape]

theorem slash_notMem_escape (cs : List Char) : '/' ∉ escape cs := by
  intro h
  obtain ⟨c, _, hc⟩ := List.mem_flatMap.mp h
  unfold escapeChar at hc
  split at hc
  · simp at hc
  · split at hc
    · simp at hc
    · next _ hslash => exact hslash (List.mem_singleton.mp hc).symm

/-! ### Texts without escapes -/

theorem escape_eq_self {cs : List Char} (h : '~' ∉ cs) (h' : '/' ∉ cs) : escape cs = cs := by
  induction cs with
  | nil => rfl
  | cons c cs ih =>
      simp only [List.mem_cons, not_or] at h h'
      rw [escape_cons, escapeChar_of_ne (Ne.symm h.1) (Ne.symm h'.1), ih h.2 h'.2]
      rfl

/-- If nothing was escaped, the text is as it was. -/
theorem eq_of_tilde_notMem_escape {cs : List Char} (h : '~' ∉ escape cs) : escape cs = cs := by
  -- every escape starts with a `~`
  have hmem (c : Char) (hc : escapeChar c = ['~', c] ∨ '~' ∈ escapeChar c) : c ∉ cs := by
    intro hcs
    refine h (List.mem_flatMap.mpr ⟨c, hcs, ?_⟩)
    rcases hc with hc | hc
    · rw [hc]
      exact List.mem_cons_self
    · exact hc
  exact escape_eq_self (hmem '~' (.inr (by decide))) (hmem '/' (.inr (by decide)))

/-- An escape leaves a `~` or a `/`, so without them nothing was escaped. -/
theorem scan_eq_self {cs : List Char} (h : '~' ∉ scan cs) (h' : '/' ∉ scan cs) : scan cs = cs := by
  fun_induction scan cs with
  | case1 rest ih => exact absurd List.mem_cons_self h
  | case2 rest ih => exact absurd List.mem_cons_self h'
  | case3 c rest h0 h1 ih =>
      rw [ih (fun hm => h (List.mem_cons_of_mem c hm)) (fun hm => h' (List.mem_cons_of_mem c hm))]
  | case4 => rfl

/-! ### Separators -/

theorem head?_escape_eq_colon_iff {cs : List Char} :
    (escape cs).head? = some ':' ↔ cs.head? = some ':' := by
  cases cs with
  | nil => rfl
  | cons c cs =>
      rw [escape_cons, escapeChar]
      split
      · simp_all
      · split <;> simp_all

/-- Escapes neither make nor hide a separator. -/
theorem isTagged_escape {cs : List Char} : IsTagged (escape cs) ↔ IsTagged cs := by
  induction cs with
  | nil => rfl
  | cons c cs ih =>
      rw [escape_cons, isTagged_cons, escapeChar]
      split
      · simp_all [isTagged_cons]
      · split
        · simp_all [isTagged_cons]
        · -- only a colon that is copied can be the first half of a separator
          rw [List.singleton_append, isTagged_cons, ih, head?_escape_eq_colon_iff]

theorem head?_eq_colon_of_scan {cs : List Char} (h : (scan cs).head? = some ':') :
    cs.head? = some ':' := by
  fun_cases scan cs with
  | case1 rest => simp [scan] at h
  | case2 rest => simp [scan] at h
  | case3 c rest h0 h1 =>
      rw [scan.eq_3 c rest h0 h1] at h
      exact h
  | case4 => cases h

/-- A separator that is read was written: no escape stands for a colon. -/
theorem isTagged_of_isTagged_scan {cs : List Char} (h : IsTagged (scan cs)) : IsTagged cs := by
  fun_induction scan cs with
  | case1 rest ih => simp_all [isTagged_cons]
  | case2 rest ih => simp_all [isTagged_cons]
  | case3 c rest h0 h1 ih =>
      rw [isTagged_cons] at h ⊢
      rcases h with ⟨hc, hrest⟩ | h
      · exact .inl ⟨hc, head?_eq_colon_of_scan hrest⟩
      · exact .inr (ih h)
  | case4 => exact h

end Tilde
end JsonPointer
