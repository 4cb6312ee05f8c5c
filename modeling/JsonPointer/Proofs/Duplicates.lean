import JsonPointer.Pointer.Report
import JsonPointer.Proofs.Lookup

/-!
# Removing duplicates

`firsts` says by positions which pointers are to be kept: those with no earlier pointer to the same
place. The run that removes duplicates compares a pointer with those it has kept, not with all it
has seen. What carries the induction along its input is that this makes no difference: for each
place the first pointer among those kept is the first among those seen (`Covers`).

* `dedupAfter_fst` — the run keeps the first pointers of what it has been given;
* `dedupAfter_snd` — its reports are those due for the pointers, judged by the whole input;
* `dedupReporting_eq` — which of the reports are issued.
-/

namespace JsonPointer
namespace Pointer

/-- The pointers in front of which there is none to the same place. -/
def firsts (ps : List Pointer) : List Pointer :=
  (ps.zipIdx.filter fun (p, i) => ∀ q ∈ ps.take i, ¬ q.SamePlace p).map (·.1)

def firstAt? (ps : List Pointer) (p : Pointer) : Option Pointer := ps.find? (·.SamePlace p)

/-- The report that is due for `p` if `first?` is the first pointer to its place. -/
def reportFor? (p : Pointer) (first? : Option Pointer) : Option DroppedConstraint :=
  first?.bind fun first => if first.kind = p.kind then none else some ⟨p, first⟩

variable {kept seen ps : List Pointer} {p q : Pointer}

/-! ### The first pointer to a place -/

theorem firstAt?_eq_none_iff : firstAt? ps p = none ↔ ∀ q ∈ ps, ¬ q.SamePlace p := by
  simp [firstAt?]

theorem of_firstAt? (h : firstAt? ps p = some q) : q ∈ ps ∧ q.SamePlace p :=
  ⟨List.mem_of_find?_eq_some h, by simpa using List.find?_some h⟩

theorem firstAt?_append (ps qs : List Pointer) (p : Pointer) :
    firstAt? (ps ++ qs) p = (firstAt? ps p).or (firstAt? qs p) := List.find?_append

/-- Pointers to the same place have the same first one. -/
theorem firstAt?_congr (h : p.SamePlace q) (ps : List Pointer) :
    firstAt? ps p = firstAt? ps q := by
  refine congrFun (congrArg List.find? (funext fun r => decide_eq_decide.mpr ?_)) ps
  rw [SamePlace, SamePlace, show p.tokens = q.tokens from h]

theorem exists_firstAt? (h : p ∈ ps) : ∃ q, firstAt? ps p = some q := by
  rw [← Option.isSome_iff_exists, Option.isSome_iff_ne_none]
  intro hnone
  exact firstAt?_eq_none_iff.mp hnone p h rfl

/-- Where no two lead to the same place, the first pointer to a place is the only one. -/
theorem firstAt?_eq_some_iff (h : (ps.map (·.tokens)).Nodup) :
    firstAt? ps p = some q ↔ q ∈ ps ∧ q.SamePlace p := by
  refine ⟨of_firstAt?, ?_⟩
  rintro ⟨hq, hsame⟩
  obtain ⟨r, hr⟩ := exists_firstAt? hq
  obtain ⟨hmem, hplace⟩ := of_firstAt? hr
  obtain rfl : r = q := List.inj_on_of_nodup_map h hmem hq hplace
  rw [← firstAt?_congr hsame, hr]

/-- Of the pointers seen, those in `kept` stand for all. -/
def Covers (kept seen : List Pointer) : Prop := ∀ p, firstAt? kept p = firstAt? seen p

/-- A pointer that is seen and kept stands for itself. -/
theorem Covers.keep (h : Covers kept seen) (p : Pointer) : Covers (kept ++ [p]) (seen ++ [p]) := by
  intro q
  rw [firstAt?_append, firstAt?_append, h q]

/-- Nothing has to be kept for a place that has been seen. -/
theorem Covers.drop (h : Covers kept seen) (hp : firstAt? kept p = some q) :
    Covers kept (seen ++ [p]) := by
  intro r
  rw [firstAt?_append, ← h r]
  -- for another place the dropped pointer is not asked
  by_cases hsame : p.SamePlace r
  · rw [← firstAt?_congr hsame, hp, Option.some_or]
  · have hnone : firstAt? [p] r = none := firstAt?_eq_none_iff.mpr (by simpa using hsame)
    rw [hnone, Option.or_none]

/-! ### One step -/

/-- A pointer to a new place is kept, and nothing is reported. -/
theorem dedupAfter_cons_of_none (h : firstAt? kept p = none) (ps : List Pointer) :
    dedupAfter kept (p :: ps) =
      (p :: (dedupAfter (kept ++ [p]) ps).1, (dedupAfter (kept ++ [p]) ps).2) := by
  rw [dedupAfter]
  split
  · rfl
  · next hfirst => cases h.symm.trans hfirst

/-- A pointer to a place that is taken is dropped, with a report if one is due. -/
theorem dedupAfter_cons_of_some (h : firstAt? kept p = some q) (ps : List Pointer) :
    dedupAfter kept (p :: ps) = ((dedupAfter kept ps).1,
      (reportFor? p (some q)).toList ++ (dedupAfter kept ps).2) := by
  rw [dedupAfter]
  split
  · next hfirst => cases h.symm.trans hfirst
  · next hfirst =>
    obtain rfl := Option.some.inj (h.symm.trans hfirst)
    by_cases hkind : q.kind = p.kind
    · simp [reportFor?, hkind]
    · simp [reportFor?, hkind]

/-! ### The run -/

/-- After the run the pointers kept stand for all that were given. -/
theorem covers_dedupAfter (h : Covers kept seen) (ps : List Pointer) :
    Covers (kept ++ (dedupAfter kept ps).1) (seen ++ ps) := by
  induction ps generalizing kept seen with
  | nil => simpa [dedupAfter] using h
  | cons p ps ih =>
      cases hp : firstAt? kept p with
      | none =>
          rw [dedupAfter_cons_of_none hp]
          simpa using ih (h.keep p)
      | some q =>
          rw [dedupAfter_cons_of_some hp]
          simpa using ih (h.drop hp)

/-- The run keeps the pointers in front of which there is none to the same place. -/
theorem dedupAfter_fst (h : Covers kept seen) (ps : List Pointer) :
    (dedupAfter kept ps).1 = ((ps.zipIdx seen.length).filter fun (p, i) =>
      ∀ q ∈ (seen ++ ps).take i, ¬ q.SamePlace p).map (·.1) := by
  -- along the input: what was seen grows by one, and what stands for it may too
  induction ps generalizing kept seen with
  | nil => rfl
  | cons p ps ih =>
      rw [List.zipIdx_cons, List.append_cons]
      have hseen : (seen ++ [p] ++ ps).take seen.length = seen := by simp
      cases hp : firstAt? kept p with
      | none =>
          have hfirst : ∀ q ∈ seen, ¬ q.SamePlace p := firstAt?_eq_none_iff.mp (h p ▸ hp)
          rw [dedupAfter_cons_of_none hp, ih (h.keep p), List.filter_cons_of_pos]
          · simp
          · simpa [hseen] using hfirst
      | some q =>
          obtain ⟨hq, hsame⟩ := of_firstAt? (h p ▸ hp)
          rw [dedupAfter_cons_of_some hp, ih (h.drop hp), List.filter_cons_of_neg]
          · simp
          · simpa [hseen] using ⟨q, hq, hsame⟩

/-- The run reports what is due. -/
theorem dedupAfter_snd (h : Covers kept seen) (ps : List Pointer) :
    (dedupAfter kept ps).2 = ps.filterMap fun p => reportFor? p (firstAt? (seen ++ ps) p) := by
  induction ps generalizing kept seen with
  | nil => rfl
  | cons p ps ih =>
      rw [List.append_cons, List.filterMap_cons]
      -- the pointers behind `p` do not matter: one to its place has been seen, or it is `p`
      have hp' : firstAt? (seen ++ [p] ++ ps) p = some ((firstAt? kept p).getD p) := by
        have hself : firstAt? [p] p = some p := by simp [firstAt?, SamePlace]
        rw [firstAt?_append, firstAt?_append, ← h p, hself]
        cases firstAt? kept p <;> rfl
      rw [hp']
      cases hp : firstAt? kept p with
      | none =>
          -- the pointer is the first itself, and has its own constraint
          rw [dedupAfter_cons_of_none hp, ih (h.keep p)]
          simp [reportFor?]
      | some q =>
          rw [dedupAfter_cons_of_some hp, ih (h.drop hp), Option.getD_some]
          cases reportFor? p (some q) <;> rfl

theorem sublist_dedupAfter (kept ps : List Pointer) : (dedupAfter kept ps).1.Sublist ps := by
  induction ps generalizing kept with
  | nil => exact List.Sublist.slnil
  | cons p ps ih =>
      cases hp : firstAt? kept p with
      | none =>
          rw [dedupAfter_cons_of_none hp]
          exact (ih (kept ++ [p])).cons_cons p
      | some q =>
          rw [dedupAfter_cons_of_some hp]
          exact (ih kept).cons p

theorem nodup_dedupAfter (h : (kept.map (·.tokens)).Nodup) (ps : List Pointer) :
    ((kept ++ (dedupAfter kept ps).1).map (·.tokens)).Nodup := by
  induction ps generalizing kept with
  | nil => simpa [dedupAfter] using h
  | cons p ps ih =>
      cases hp : firstAt? kept p with
      | none =>
          have hnodup : ((kept ++ [p]).map (·.tokens)).Nodup := by
            rw [List.map_append, List.nodup_append]
            refine ⟨h, List.nodup_singleton p.tokens, ?_⟩
            simpa [SamePlace] using firstAt?_eq_none_iff.mp hp
          rw [dedupAfter_cons_of_none hp]
          simpa using ih hnodup
      | some q =>
          rw [dedupAfter_cons_of_some hp]
          exact ih h

/-- Where no two pointers lead to the same place, all are kept. -/
theorem dedupAfter_of_nodup (h : ((kept ++ ps).map (·.tokens)).Nodup) :
    dedupAfter kept ps = (ps, []) := by
  induction ps generalizing kept with
  | nil => rfl
  | cons p ps ih =>
      have hp : firstAt? kept p = none := by
        rw [List.map_append, List.nodup_append] at h
        obtain ⟨_, _, hdistinct⟩ := h
        refine firstAt?_eq_none_iff.mpr fun q hq hsame => ?_
        exact hdistinct _ (List.mem_map_of_mem hq) _ (List.mem_map_of_mem List.mem_cons_self) hsame
      rw [dedupAfter_cons_of_none hp, ih (by rwa [← List.append_cons])]

theorem covers_nil : Covers [] [] := fun _ => rfl

theorem dedup_fst (ps : List Pointer) : (dedup ps).1 = firsts ps := dedupAfter_fst covers_nil ps

theorem dedup_snd (ps : List Pointer) :
    (dedup ps).2 = ps.filterMap fun p => reportFor? p (firstAt? ps p) :=
  dedupAfter_snd covers_nil ps

theorem covers_dedup (ps : List Pointer) : Covers (dedup ps).1 ps := covers_dedupAfter covers_nil ps

theorem nodup_dedup (ps : List Pointer) : ((dedup ps).1.map (·.tokens)).Nodup := by
  have hnothing : (([] : List Pointer).map (·.tokens)).Nodup := List.nodup_nil
  exact nodup_dedupAfter hnothing ps

/-- What is found for a place is the only pointer to it that was kept. -/
theorem firstAt?_eq_some_iff_mem_dedup :
    firstAt? ps p = some q ↔ q ∈ (dedup ps).1 ∧ q.SamePlace p := by
  rw [← covers_dedup ps p, firstAt?_eq_some_iff (nodup_dedup ps)]

/-! ### The reports -/

/-- A report is due exactly for another constraint than that of the first pointer to the place. -/
theorem reportFor?_eq_some_iff {first? : Option Pointer} {d : DroppedConstraint} :
    reportFor? p first? = some d ↔ ∃ q, first? = some q ∧ q.kind ≠ p.kind ∧ d = ⟨p, q⟩ := by
  cases first? with
  | none => simp [reportFor?]
  | some q =>
      by_cases hkind : q.kind = p.kind
      · simp [reportFor?, hkind]
      · simp [reportFor?, eq_comm]

/-- A report names the pointer that was kept for the place of the one dropped. -/
theorem mem_dedup_snd {d : DroppedConstraint} (h : d ∈ (dedup ps).2) :
    d.kept ∈ (dedup ps).1 ∧ d.kept.SamePlace d.dropped := by
  rw [dedup_snd, List.mem_filterMap] at h
  obtain ⟨p, _, hd⟩ := h
  obtain ⟨q, hq, _, rfl⟩ := reportFor?_eq_some_iff.mp hd
  exact firstAt?_eq_some_iff_mem_dedup.mp hq

/-- The reports are about those pointers, in order, for the place of which one with another
constraint was kept. -/
theorem map_dropped_dedup (ps : List Pointer) :
    (dedup ps).2.map (·.dropped) =
      ps.filter fun p => ∃ q ∈ (dedup ps).1, q.SamePlace p ∧ q.kind ≠ p.kind := by
  rw [dedup_snd, List.map_filterMap, ← List.filterMap_eq_filter]
  refine List.filterMap_congr fun p hp => ?_
  obtain ⟨q, hq⟩ := exists_firstAt? hp
  -- the pointer that was kept for the place is the one that `p` is compared with
  have hiff : (∃ r ∈ (dedup ps).1, r.SamePlace p ∧ r.kind ≠ p.kind) ↔ q.kind ≠ p.kind := by
    constructor
    · rintro ⟨r, hr, hsame, hkind⟩
      have hfirst := firstAt?_eq_some_iff_mem_dedup.mpr ⟨hr, hsame⟩
      obtain rfl := Option.some.inj (hq.symm.trans hfirst)
      exact hkind
    · intro hkind
      obtain ⟨hkept, hsame⟩ := firstAt?_eq_some_iff_mem_dedup.mp hq
      exact ⟨q, hkept, hsame, hkind⟩
  by_cases hkind : q.kind = p.kind
  · simp [reportFor?, Option.guard, hq, hiff, hkind]
  · simp [reportFor?, Option.guard, hq, hiff, hkind]

end Pointer

namespace DroppedConstraint

variable {d : DroppedConstraint} {ds : List DroppedConstraint}

/-- Of pointers to one place, both can be written or none. -/
theorem isPrintable_iff (h : d.kept.SamePlace d.dropped) :
    d.IsPrintable ↔ d.dropped.IsPrintable := by
  have hkept : d.kept.IsPrintable ↔ d.dropped.IsPrintable := by
    rw [Pointer.IsPrintable, Pointer.IsPrintable, show d.kept.tokens = d.dropped.tokens from h]
  rw [IsPrintable, hkept, and_self]

/-- The reports are issued up to the first that cannot be made. -/
theorem issue_eq (h : ∀ d ∈ ds, d.kept.SamePlace d.dropped) :
    issue ds = if ∀ d ∈ ds, d.dropped.IsPrintable then (ds.map (·.message), none)
      else ((ds.takeWhile (·.dropped.IsPrintable)).map (·.message), some .unprintable) := by
  induction ds with
  | nil => rfl
  | cons d ds ih =>
      obtain ⟨hd, hds⟩ := List.forall_mem_cons.mp h
      have hprintable := isPrintable_iff hd
      -- the first report that cannot be made is the last one looked at
      by_cases hp : d.dropped.IsPrintable
      · by_cases hall : ∀ e ∈ ds, e.dropped.IsPrintable
        · simp [issue, message?, hprintable, hp, ih hds, if_pos hall]
        · simp [issue, message?, hprintable, hp, ih hds, if_neg hall]
      · simp [issue, message?, hprintable, hp]

end DroppedConstraint

namespace Pointer

/-- All reports are issued, unless a pointer that they are about cannot be written. -/
theorem dedupReporting_eq (ps : List Pointer) :
    dedupReporting ps = if ∀ d ∈ (dedup ps).2, d.dropped.IsPrintable
      then ((dedup ps).2.map (·.message), .ok (dedup ps).1)
      else (((dedup ps).2.takeWhile (·.dropped.IsPrintable)).map (·.message),
        .error .unprintable) := by
  have hsame : ∀ d ∈ (dedup ps).2, d.kept.SamePlace d.dropped := fun d hd => (mem_dedup_snd hd).2
  have hissue := DroppedConstraint.issue_eq hsame
  unfold dedupReporting
  split_ifs at hissue ⊢
  · simp only [hissue]
  · simp only [hissue]

theorem dedup_of_nodup {ps : List Pointer} (h : (ps.map (·.tokens)).Nodup) :
    dedup ps = (ps, []) := dedupAfter_of_nodup h

/-- **Removing duplicates keeps the first pointer to each place.** The pointers kept are those of
the input in front of which there is none to the same place. They stay in order, no two of them lead
to one place, and for each pointer of the input one is kept. The reports are about the pointers
dropped that carry another constraint than the one kept for their place, in order and one for each;
a report names both. They are all issued unless such a pointer cannot be written: the first of that
sort ends the search with an error. Doing it again changes nothing and reports nothing. -/
theorem dedupReporting_keeps_firsts (ps : List Pointer) :
    let kept := (dedup ps).1
    let reports := (dedup ps).2
    kept = firsts ps ∧ kept.Sublist ps ∧ (kept.map (·.tokens)).Nodup ∧
    (∀ p ∈ ps, ∃ q ∈ kept, q.SamePlace p) ∧
    reports.map (·.dropped) = ps.filter (fun p => ∃ q ∈ kept, q.SamePlace p ∧ q.kind ≠ p.kind) ∧
    (∀ d ∈ reports, d.kept ∈ kept ∧ d.kept.SamePlace d.dropped) ∧
    (dedupReporting ps = if ∀ d ∈ reports, d.dropped.IsPrintable
      then (reports.map (·.message), .ok kept)
      else ((reports.takeWhile (·.dropped.IsPrintable)).map (·.message), .error .unprintable)) ∧
    dedupReporting kept = ([], .ok kept) := by
  intro kept reports
  refine ⟨dedup_fst ps, sublist_dedupAfter [] ps, nodup_dedup ps, ?_, map_dropped_dedup ps,
    fun d hd => mem_dedup_snd hd, dedupReporting_eq ps, ?_⟩
  · intro p hp
    obtain ⟨q, hq⟩ := exists_firstAt? hp
    exact ⟨q, firstAt?_eq_some_iff_mem_dedup.mp hq⟩
  · rw [dedupReporting, dedup_of_nodup (nodup_dedup ps)]
    rfl

/-- Of two pointers with the greatest position as their token the second is dropped. With another
constraint it has to be reported, and that fails. -/
theorem dedupReporting_ne_ok :
    let p : Pointer := { tokens := [greatestIndex] }
    let q : Pointer := { tokens := [greatestIndex], kind := .string }
    p.SamePlace q ∧ p.kind ≠ q.kind ∧ firsts [p, q] = [p] ∧
    dedupReporting [p, q] = ([], .error .unprintable) := by
  intro p q
  have hq : ¬ q.IsPrintable := not_isPrintable_of_mem (List.mem_singleton.mpr rfl)
  have hsame : p.SamePlace q := rfl
  have hkind : p.kind ≠ q.kind := by decide
  have hdedup : dedup [p, q] = ([p], [⟨q, p⟩]) := by
    have hfound : firstAt? [p] q = some p := by simp [firstAt?, hsame]
    rw [dedup, dedupAfter_cons_of_none rfl, List.nil_append, dedupAfter_cons_of_some hfound]
    simp [dedupAfter, reportFor?, hkind]
  refine ⟨hsame, hkind, ?_, ?_⟩
  · rw [← dedup_fst, hdedup]
  · rw [dedupReporting_eq, hdedup]
    simp [hq]

end Pointer
end JsonPointer
