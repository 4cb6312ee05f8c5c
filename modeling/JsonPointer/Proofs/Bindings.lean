import JsonPointer.Binding
import JsonPointer.Proofs.JsonTexts
import JsonPointer.Proofs.RoundTrip

/-!
# Bindings are read as they were written

A binding is made of a path and a label, from values or from a JSON text. The two sides are laid out
differently: a value for the path is tried as a pointer before it is tried as a text, a JSON string
is only a text. Still both depend on the texts alone, and in the same way: on what the path reads as
(`ofValues_text`, `ofJson_of_describes`). A path that was read is expressible, so its own text reads
as it, and the binding survives being written and read again on either side.
-/

namespace JsonPointer
namespace Binding

variable {s path label : String} {p : Pointer}

/-- Is `s` a JSON text of the object with this path and this label? The members may stand in either
order. -/
def Describes (s path label : String) : Prop :=
  ∃ members, Json.SpellsObject s.toList members ∧
    members.Perm [(pathField, path), (labelField, label)]

/-- What is wrong with a path that is given as a text value and cannot be read: it is no pointer,
and its text is none. -/
def malformedValue (e : PointerError) : List Detail :=
  [⟨[pathField, "is-instance[Pointer]"], .notAPointer⟩,
    ⟨[pathField, "function-after[parse(), str]"], .malformed e⟩]

def malformedText (e : PointerError) : List Detail := [⟨[pathField], .malformed e⟩]

/-! ### The two sides -/

/-- Values give the binding of what the path reads as, or the two complaints about the path. -/
theorem ofValues_text (path label : String) :
    ofValues (.value (.text path)) (some (.text label)) =
      ((Pointer.ofText path).map (⟨·, label⟩)).mapError malformedValue := by
  have hpath : pathOfArgument (.value (.text path)) =
      (Pointer.ofText path).mapError malformedValue := by
    show (pathOfText path).mapError _ = _
    rw [pathOfText]
    cases Pointer.ofText path <;> rfl
  rw [ofValues, hpath]
  cases Pointer.ofText path <;> rfl

/-- The order of the members does not matter. -/
theorem field?_of_perm {members : List (String × String)} {name text : String}
    (h : members.Perm [(pathField, path), (labelField, label)])
    (hmem : (name, text) ∈ [(pathField, path), (labelField, label)]) :
    Json.field? name (members.map fun (name, s) => (name, .string s)) = some (.string text) := by
  have hnames : (members.map Prod.fst).Nodup :=
    (h.map Prod.fst).nodup_iff.mpr (by simp [pathField, labelField])
  have hmember : (name, Json.string text) ∈ members.map fun (name, s) => (name, .string s) :=
    List.mem_map.mpr ⟨(name, text), h.mem_iff.mpr hmem, rfl⟩
  apply Json.field?_of_mem _ hmember
  rwa [List.map_map]

/-- A JSON text gives the binding of what the path reads as, or a complaint about the path. -/
theorem ofJson_of_describes (h : Describes s path label) :
    ofJson s = ((Pointer.ofText path).map (⟨·, label⟩)).mapError malformedText := by
  obtain ⟨members, hspells, hperm⟩ := h
  have hpath := field?_of_perm hperm (by simp : (pathField, path) ∈ _)
  have hlabel := field?_of_perm hperm (by simp : (labelField, label) ∈ _)
  rw [ofJson, Json.read_of_spellsObject hspells]
  show ofMembers _ = _
  rw [ofMembers, hpath, hlabel]
  show combine ((pathOfText path).mapError _) (.ok label) = _
  rw [pathOfText]
  cases Pointer.ofText path <;> rfl

/-! ### Writing -/

theorem describes_text (path label : String) :
    Describes (Json.ofFields [(pathField, path), (labelField, label)]).text path label := by
  refine ⟨_, ?_, .refl _⟩
  rw [Json.text, String.toList_ofList]
  exact Json.spellsObject_chars (List.cons_ne_nil _ _)

theorem describes_toJson (b : Binding) : Describes b.toJson b.path.text b.label :=
  describes_text b.path.text b.label

theorem ofText_text_eq_self_iff (h : p.IsPrintable) :
    Pointer.ofText p.text = .ok p ↔ p.Expressible := by
  rw [← Pointer.reread_eq_self_iff h, Pointer.reread_eq_ok_iff, and_iff_right h]

/-- A binding comes back from its JSON text exactly if its path does from its own. -/
theorem ofJson_toJson_eq_self_iff {b : Binding} (h : b.path.IsPrintable) :
    ofJson b.toJson = .ok b ↔ b.path.Expressible := by
  rw [ofJson_of_describes (describes_toJson b), ← ofText_text_eq_self_iff h]
  -- the label always comes back, so the bindings differ only if the paths do
  cases Pointer.ofText b.path.text with
  | error e => exact iff_of_false (fun h => by cases h) (fun h => by cases h)
  | ok q =>
      show Except.ok (⟨q, b.label⟩ : Binding) = .ok b ↔ Except.ok q = .ok b.path
      cases b
      simp

/-! ### Both sides and back -/

/-- **Validation.** For a path and a label given as texts, values and every JSON text of the object
give the same: the binding of the pointer that the path reads as, or what is wrong with the path. A
binding that was made can be written, its JSON text is one of its fields, and both its fields and
its JSON text give the binding again. -/
theorem validation (path label : String) :
    (∃ s, Describes s path label) ∧
    (∀ p, Pointer.ofText path = .ok p →
      let b : Binding := ⟨p, label⟩
      ofValues (.value (.text path)) (some (.text label)) = .ok b ∧
      (∀ s, Describes s path label → ofJson s = .ok b) ∧
      p.IsPrintable ∧ b.fields = [(pathField, p.text), (labelField, label)] ∧
      ofValues (.value (.text p.text)) (some (.text label)) = .ok b ∧
      Describes b.toJson p.text label ∧ ofJson b.toJson = .ok b) ∧
    (∀ e, Pointer.ofText path = .error e →
      ofValues (.value (.text path)) (some (.text label)) = .error (malformedValue e) ∧
      ∀ s, Describes s path label → ofJson s = .error (malformedText e)) := by
  refine ⟨⟨_, describes_text path label⟩, ?_, ?_⟩
  · intro p h b
    have hp : p.IsPrintable := Pointer.isPrintable_of_ofText h
    have hexpressible : p.Expressible := Pointer.expressible_of_parse h
    refine ⟨?_, ?_, hp, rfl, ?_, describes_toJson b, ?_⟩
    · rw [ofValues_text, h]
      rfl
    · intro s hs
      rw [ofJson_of_describes hs, h]
      rfl
    · rw [ofValues_text, (ofText_text_eq_self_iff hp).mpr hexpressible]
      rfl
    · exact (ofJson_toJson_eq_self_iff hp).mpr hexpressible
  · intro e h
    constructor
    · rw [ofValues_text, h]
      rfl
    · intro s hs
      rw [ofJson_of_describes hs, h]
      rfl

/-- A JSON text with the label first, with blanks, and with characters escaped that need not be. -/
theorem validation_of_escapes :
    let s := "\x7b\x22label\x22: \x22\\u00E9\\uD83d\\ude00\x22, \x22path\x22: \x22\\/\\\\5\x22\x7d"
    let b : Binding := ⟨{ tokens := [.key "5"] }, "é😀"⟩
    Describes s "/\\5" "é😀" ∧ ofJson s = .ok b ∧ ofJson b.toJson = .ok b := by
  intro s b
  have hblank : Json.IsBlanks [' '] := by simp [Json.IsBlanks]
  have hunit : Json.SpellsUnit "00E9".toList 'é'.toNat := ⟨by decide, by decide⟩
  have hhigh : Json.SpellsUnit "D83d".toList (Json.highHalf '😀'.toNat) := ⟨by decide, by decide⟩
  have hlow : Json.SpellsUnit "de00".toList (Json.lowHalf '😀'.toNat) := ⟨by decide, by decide⟩
  have hslash : ('/', '/') ∈ Json.escapes := by decide
  have hlabel : Json.SpellsMember _ (labelField, "é😀") :=
    .mk (Json.spellsString_flatMap "label".toList) Json.isBlanks_nil hblank
      (.unit hunit (.pair (by decide) hhigh hlow .nil))
  have hpath : Json.SpellsMember _ (pathField, "/\\5") :=
    .mk (Json.spellsString_flatMap "path".toList) Json.isBlanks_nil hblank
      (.escape hslash (Json.spellsString_flatMap "\\5".toList))
  have hmembers : Json.SpellsMembers _ [(labelField, "é😀"), (pathField, "/\\5")] :=
    .cons hlabel Json.isBlanks_nil hblank (.one hpath)
  have hobject : Json.SpellsObject _ [(labelField, "é😀"), (pathField, "/\\5")] :=
    .mk Json.isBlanks_nil Json.isBlanks_nil hmembers Json.isBlanks_nil Json.isBlanks_nil
  have hs : Describes s "/\\5" "é😀" := by
    refine ⟨_, ?_, .swap _ _ _⟩
    convert hobject
    decide
  have hread := (validation "/\\5" "é😀").2.1 _ (rfl : Pointer.ofText "/\\5" = .ok b.path)
  exact ⟨hs, hread.2.1 s hs, hread.2.2.2.2.2.2⟩

end Binding
end JsonPointer
