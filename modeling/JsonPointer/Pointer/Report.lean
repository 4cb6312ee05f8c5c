import JsonPointer.Error

/-!
# Removing and reporting duplicates

Of several pointers to one place the first is kept. Dropping one that carries another constraint
than the one kept loses something, so it is reported.

The report of a dropped pointer names it and the one that was kept. It cannot be made if these
cannot be written, and then the search for duplicates ends with that error. The reports that come
before have been issued by then.
-/

namespace JsonPointer

/-- A pointer that was dropped although its constraint differs from that of the one kept. -/
structure DroppedConstraint where
  dropped : Pointer
  kept : Pointer
  deriving DecidableEq, Repr

def DroppedConstraint.message (d : DroppedConstraint) : String :=
  "Dropping duplicate " ++ d.dropped.shown ++
    ": its type constraint differs from the first occurrence " ++ d.kept.shown

namespace Pointer

/-- Go through pointers after those in `kept` were kept: the pointers to other places, each the
first of its place, and the reports in order. -/
def dedupAfter (kept : List Pointer) : List Pointer → List Pointer × List DroppedConstraint
  | [] => ([], [])
  | p :: ps =>
    match kept.find? (·.SamePlace p) with
    | none =>
      let (others, reports) := dedupAfter (kept ++ [p]) ps
      (p :: others, reports)
    | some first =>
      let (others, reports) := dedupAfter kept ps
      (others, if first.kind = p.kind then reports else ⟨p, first⟩ :: reports)

/-- The first pointer to each place, and the reports. -/
def dedup (ps : List Pointer) : List Pointer × List DroppedConstraint := dedupAfter [] ps

end Pointer

/-! ### Reports -/

namespace DroppedConstraint

def IsPrintable (d : DroppedConstraint) : Prop := d.dropped.IsPrintable ∧ d.kept.IsPrintable

instance : DecidablePred IsPrintable := fun d =>
  inferInstanceAs (Decidable (d.dropped.IsPrintable ∧ d.kept.IsPrintable))

def message? (d : DroppedConstraint) : Except Error String :=
  if d.IsPrintable then .ok d.message else .error .unprintable

/-- Issue reports in order: their texts, up to the first that cannot be made, and its error. -/
def issue : List DroppedConstraint → List String × Option Error
  | [] => ([], none)
  | d :: ds =>
    match d.message? with
    | .error e => ([], some e)
    | .ok text =>
      let (texts, error?) := issue ds
      (text :: texts, error?)

end DroppedConstraint

/-- Remove duplicates and report: the texts that are issued, and the first pointer to each place
unless a report could not be made. -/
def Pointer.dedupReporting (ps : List Pointer) : List String × Except Error (List Pointer) :=
  let (kept, reports) := dedup ps
  match DroppedConstraint.issue reports with
  | (texts, none) => (texts, .ok kept)
  | (texts, some e) => (texts, .error e)

end JsonPointer
