import JsonPointer.Proofs.Limits

/-!
# The flavours of new containers

What a write makes inside an object has the flavour of that object, and what it makes inside an
array is plain. Every write looks only at the container that it is in, and yet in a tree that was
grown from one empty object by writes of scalars the flavours are known everywhere: `Inherits` says
that objects have the flavour of the root until the way goes through an array, and are plain behind
it, and that all arrays are lists. A step of a write keeps this whatever it ends with
(`Inherits.writeBelow`), and so does a write and a session.
-/

namespace JsonPointer

/-- The flavour that objects have behind a token, if they have the given one before it. -/
def ObjectFlavour.behind (flavour : ObjectFlavour) : Token → ObjectFlavour
  | .key _ => flavour
  | .index _ => .plain

theorem ObjectFlavour.foldl_behind_plain (ts : List Token) :
    ts.foldl behind plain = plain := by
  induction ts with
  | nil => rfl
  | cons t ts ih =>
      rw [List.foldl_cons]
      cases t <;> exact ih

/-- Behind an array the flavour is the plain one, and elsewhere the one that it was. -/
theorem ObjectFlavour.foldl_behind (flavour : ObjectFlavour) (ts : List Token) :
    ((∃ i, .index i ∈ ts) → ts.foldl behind flavour = plain) ∧
    ((∀ i, .index i ∉ ts) → ts.foldl behind flavour = flavour) := by
  induction ts with
  | nil => simp
  | cons t ts ih =>
      rw [List.foldl_cons]
      cases t with
      | key name =>
          show (_ → ts.foldl behind flavour = plain) ∧ (_ → ts.foldl behind flavour = flavour)
          simpa using ih
      | index i =>
          constructor
          · intro _
            exact foldl_behind_plain ts
          · intro hno
            exact absurd List.mem_cons_self (hno i)

namespace Value

/-- If the value is an object it has that flavour, and if it is an array it is a list. -/
def HasFlavour (flavour : ObjectFlavour) : Value → Prop
  | .object own _ => own = flavour
  | .array own _ => own = .list
  | .typed _ => False
  | .range _ _ _ => False
  | _ => True

/-- All objects that can be read in the tree have the flavour until an array is passed and are plain
behind it, and all arrays are lists. -/
def Inherits (flavour : ObjectFlavour) (tree : Value) : Prop :=
  ∀ us x, tree.follow us = .ok x → x.HasFlavour (us.foldl ObjectFlavour.behind flavour)

variable {flavour : ObjectFlavour} {limit : Option Int} {v container grown x : Value}
  {t s next : Token} {ts : List Token} {kind : Kind}

/-! ### One container -/

theorem hasFlavour_blank : v.blank.HasFlavour flavour ↔ v.HasFlavour flavour := by
  cases v <;> exact Iff.rfl

theorem HasFlavour.isTyped_eq_false (h : v.HasFlavour flavour) : v.isTyped = false := by
  cases v <;> first | rfl | cases h

/-- A tree inherits the flavour if its root has it and its children inherit it. -/
theorem inherits_iff : container.Inherits flavour ↔ container.HasFlavour flavour ∧
    ∀ s x, container.step s = .ok x → x.Inherits (flavour.behind s) := by
  constructor
  · intro h
    refine ⟨h [] container rfl, ?_⟩
    intro s x hx us y hy
    exact h (s :: us) y ((follow_cons_of_step hx us).trans hy)
  · rintro ⟨hroot, hchildren⟩ us y hy
    cases us with
    | nil =>
        cases hy
        exact hroot
    | cons s us =>
        obtain ⟨x, hx, hy⟩ := follow_cons_eq_ok_iff.mp hy
        exact hchildren s x hx us y hy

/-- A value that holds nothing has nothing to hand on. -/
theorem HasFlavour.inherits (h : v.HasFlavour flavour) (hv : v.IsLeaf) : v.Inherits flavour := by
  intro us x hx
  obtain ⟨rfl, rfl⟩ := follow_of_child?_eq_none hv hx
  exact h

/-- A new container has the flavour that there is behind its token. -/
theorem HasFlavour.fresh (h : container.HasFlavour flavour) (ht : container.takes t = true)
    (next : Token) : (container.fresh next).HasFlavour (flavour.behind t) := by
  cases next with
  | index i => rfl
  | key name =>
      cases container with
      | object own members =>
          cases t with
          | key _ => exact h
          | index _ => cases ht
      | array own items =>
          cases t with
          | key _ => cases ht
          | index _ => rfl
      | typed content => cases h
      | _ => cases t <;> cases ht

/-- The next level of a write starts with a tree that inherits the flavour behind the token. -/
theorem Inherits.slotOrFresh (h : container.Inherits flavour)
    (hr : Reserved limit container t grown) (next : Token) :
    (container.slotOrFresh t next).Inherits (flavour.behind t) := by
  obtain ⟨hroot, hchildren⟩ := inherits_iff.mp h
  rcases slotOrFresh_cases container t next with ⟨x, hx, _, heq⟩ | ⟨_, heq⟩
  · rw [heq]
    exact hchildren t x (step_eq_ok_iff.mpr ⟨hr.isLongRange_eq_false, hx⟩)
  · rw [heq]
    exact (hroot.fresh hr.takes next).inherits (child?_fresh container next)

/-- Beside its way, a write leaves the children as they were, and adds padding. -/
theorem Inherits.step_of_ne (h : container.Inherits flavour)
    (hr : Reserved limit container t grown) (hne : t ≠ s)
    (hx : (writeBelow limit v container t ts).tree.step s = .ok x) :
    x.Inherits (flavour.behind s) := by
  obtain ⟨hroot, hchildren⟩ := inherits_iff.mp h
  obtain ⟨_, hchild⟩ := step_eq_ok_iff.mp hx
  rw [child?_writeBelow_ne hr hne] at hchild
  -- a child that was there, and one that is padding
  cases hs : container.child? s with
  | some y =>
      obtain rfl : y = x := Option.some.inj ((hr.child?_some hs).symm.trans hchild)
      exact hchildren s y (step_eq_ok_iff.mpr ⟨hr.isLongRange_eq_false, hs⟩)
  | none =>
      obtain ⟨_, _, _, _, _, _, rfl⟩ := hr.child?_new hs hchild
      apply HasFlavour.inherits
      · cases container <;> trivial
      · exact child?_padding container

/-- A write keeps the flavours if what it makes of the child does. -/
theorem Inherits.of_below (h : container.Inherits flavour)
    (hbelow : ∀ grown x, Reserved limit container t grown → container.isTyped = false →
      (writeBelow limit v container t ts).tree.step t = .ok x → x.Inherits (flavour.behind t)) :
    (writeBelow limit v container t ts).tree.Inherits flavour := by
  rcases reserve_spec limit container t with ⟨grown, _, hr⟩ | ⟨fault, hf, _⟩
  · have hroot := (inherits_iff.mp h).1
    rw [inherits_iff]
    constructor
    · rw [← hasFlavour_blank, blank_writeBelow, hasFlavour_blank]
      exact hroot
    · intro s x hx
      -- the child on the way, and those beside it
      by_cases hne : t = s
      · subst hne
        exact hbelow grown x hr hroot.isTyped_eq_false hx
      · exact h.step_of_ne hr hne hx
  · rw [writeBelow_refused hf]
    exact h

/-! ### What is written -/

/-- A scalar is of no flavour, and so is what it becomes under a constraint: an object only where
the null value of objects stands for `missing`. -/
theorem hasFlavour_of_coerce? {c : Value} (hv : v.isScalar = true)
    (hkind : v = .missing → kind ≠ .object) (h : coerce? kind v = some c)
    (flavour : ObjectFlavour) : c.HasFlavour flavour := by
  rcases coerce?_cases h with ⟨hmissing, rfl⟩ | ⟨_, rfl⟩ | ⟨hno, f, hf, hc⟩
  · cases kind with
    | object => exact absurd rfl (hkind hmissing)
    | array => rfl
    | _ => trivial
  · cases c <;> trivial
  · rw [adapter_of_isScalar hf hv hno] at hc
    cases hc

/-! ### The way down -/

/-- However it ends, a write keeps the flavours, if the value holds nothing and has any flavour. -/
theorem Inherits.writeBelow (h : container.Inherits flavour) (hleaf : v.IsLeaf)
    (hv : ∀ flavour, v.HasFlavour flavour) (t : Token) (ts : List Token) :
    (writeBelow limit v container t ts).tree.Inherits flavour := by
  -- the flavour to be inherited changes where the way goes through an array
  induction ts generalizing container t flavour with
  | nil =>
      apply h.of_below
      intro grown x hr hu hx
      rw [step_writeBelow v [] hr hu] at hx
      cases hx
      exact (hv _).inherits hleaf
  | cons next ts ih =>
      apply h.of_below
      intro grown x hr hu hx
      rw [step_writeBelow_next v next ts hr hu] at hx
      cases hx
      exact ih (h.slotOrFresh hr next) next

/-- A write of a scalar keeps the flavours. -/
theorem Inherits.write {tree : Value} (h : tree.Inherits flavour) (hv : v.isScalar = true)
    {p : Pointer} (hkind : v = .missing → p.kind ≠ .object) (policy : Policy) :
    (tree.write p v policy).1.Inherits flavour := by
  rw [write_tree]
  rcases attempt_spec tree p v policy with ⟨fault, hf, _⟩ | ⟨t, ts, converted, hadmitted⟩
  · rw [hf]
    exact h
  · rw [attempt_of_admitted hadmitted]
    apply h.writeBelow
    · exact isLeaf_of_coerce? hv hadmitted.coerced
    · exact hasFlavour_of_coerce? hv hkind hadmitted.coerced

end Value

/-! ### Sessions -/

/-- The step writes a scalar if it writes, and `missing` not where an object stands for it. -/
def Step.WritesScalar (s : Step) : Prop :=
  ∀ v policy, s.operation = .write v policy →
    v.isScalar = true ∧ (v = .missing → ∀ p, s.target.resolve = .ok p → p.kind ≠ .object)

theorem Step.inherits_run {flavour : ObjectFlavour} {s : Step} {tree : Value}
    (hs : s.WritesScalar) (h : tree.Inherits flavour) : (s.run tree).2.Inherits flavour := by
  cases hp : s.target.resolve with
  | error e =>
      rw [run, hp]
      exact h
  | ok p =>
      rw [run_of_resolve hp]
      cases hop : s.operation with
      | write v policy =>
          obtain ⟨hv, hkind⟩ := hs v policy hop
          rw [Operation.run_write]
          exact h.write hv (fun hmissing => hkind hmissing p hp) policy
      | _ => exact h

/-- **Flavours are handed on.** A session of writes of scalars, any of which may fail, starts from
an empty ordered object. At the end, an object that can be read is ordered if no array lies on the
way to it and plain if one does, and every array is a list. -/
theorem flavour_of_session {steps : List Step} (hsteps : ∀ s ∈ steps, s.WritesScalar) :
    let tree := finish (.object .ordered []) steps
    (∀ q flavour members, tree.read q = .ok (.object flavour members) →
      ((∀ i, .index i ∉ q.tokens) → flavour = .ordered) ∧
      ((∃ i, .index i ∈ q.tokens) → flavour = .plain)) ∧
    ∀ q x, tree.read q = .ok x → x.isArray = true → ∃ items, x = .array .list items := by
  intro tree
  have htree : tree.Inherits .ordered := by
    apply finish_induction
    · intro s hs tree htree
      exact Step.inherits_run (hsteps s hs) htree
    · exact Value.HasFlavour.inherits rfl (Value.isLeaf_emptyObject .ordered)
  constructor
  · intro q flavour members hread
    -- the flavour that the tokens of the pointer leave of that of the root
    have hflavour : flavour = q.tokens.foldl ObjectFlavour.behind .ordered :=
      htree q.tokens _ (Value.read_eq_ok_iff.mp hread)
    obtain ⟨hplain, hordered⟩ := ObjectFlavour.foldl_behind .ordered q.tokens
    exact ⟨fun hno => hflavour.trans (hordered hno), fun hi => hflavour.trans (hplain hi)⟩
  · intro q x hread harray
    have hflavour := htree q.tokens x (Value.read_eq_ok_iff.mp hread)
    cases x with
    | array flavour items =>
        obtain rfl : flavour = .list := hflavour
        exact ⟨items, rfl⟩
    | typed content => cases hflavour
    | range start stop step => cases hflavour
    | _ => cases harray

/-- An object that is put where `missing` was written is ordered. One that is put behind an array is
plain, also where the write that puts it fails at the length of the array in it. -/
theorem flavour_of_session_with_failure :
    let b : Pointer := { tokens := [.key "b", .key "c"] }
    let c : Pointer := { tokens := [.key "b", .key "c", .key "d"] }
    let a : Pointer := { tokens := [.key "a", .index 1, .key "x", .index 4] }
    let q : Pointer := { tokens := [.key "a", .index 1] }
    let steps : List Step :=
      [⟨.pointer b, .write .missing {}⟩, ⟨.pointer c, .write (.int 7) {}⟩,
        ⟨.pointer a, .write .null { maxLength := some 3 }⟩]
    let tree := finish (.object .ordered []) steps
    (∀ s ∈ steps, s.WritesScalar) ∧
    (∃ e after, (session (.object .ordered []) steps)[2]? = some (.error e, after)) ∧
    (∃ flavour members, tree.read b = .ok (.object flavour members) ∧ flavour = .ordered) ∧
    (∃ flavour members, tree.read q = .ok (.object flavour members) ∧ flavour = .plain) := by
  intro b c a q steps tree
  have hsteps : ∀ s ∈ steps, s.WritesScalar := by
    simp only [steps, List.forall_mem_cons]
    refine ⟨?_, ?_, ?_, by simp⟩
    · rintro v policy ⟨⟩
      refine ⟨rfl, fun _ p hp => ?_⟩
      cases hp
      decide
    · rintro v policy ⟨⟩
      exact ⟨rfl, by simp⟩
    · rintro v policy ⟨⟩
      exact ⟨rfl, by simp⟩
  obtain ⟨hobjects, _⟩ := flavour_of_session hsteps
  refine ⟨hsteps, ⟨_, _, rfl⟩, ⟨_, _, rfl, ?_⟩, ⟨_, _, rfl, ?_⟩⟩
  · exact (hobjects b _ _ rfl).1 (by simp [b])
  · exact (hobjects q _ _ rfl).2 ⟨1, by simp [q]⟩

end JsonPointer
