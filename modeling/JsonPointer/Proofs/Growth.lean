import JsonPointer.Proofs.Atomicity
import JsonPointer.Proofs.Locality

/-!
# What has grown when a policy stops a write

The length that a policy allows is looked at where an array has to grow, not for all arrays on the
way beforehand. So when a write is stopped, an array in front of the one that is too short may have
grown already, and it stays so. Among the arrays of the old tree there is at most one: it has grown
because nothing was stored at its token, so from there on the way leads through containers that the
write makes itself.

* `stopped_writeBelow` — nothing has changed, or the write has left the old tree at one container
  (`DepartsAt`) and was stopped at an empty array behind it (`RefusedAt`);
* `DepartsAt.length?_follow` — then all arrays but that container have the lengths that they had.
-/

namespace JsonPointer
namespace Value

/-- A write along the tokens has gone through what was there to the container `place`, the `k`-th.
There nothing was stored at the token `t`, so it has made room for it and put the value `made`. All
else is as it was. -/
structure DepartsAt (limit : Option Int) (tree after : Value) (ts : List Token) (k : Nat)
    (place grown made : Value) (t : Token) : Prop where
  token : ts[k]? = some t
  reached : tree.follow (ts.take k) = .ok place
  writable : tree.Along (ts.take k) (·.isWritable = true)
  empty : place.slot t = .missing
  reserved : Reserved limit place t grown
  after_eq : after = replaceAt (put made grown t) tree (ts.take k)

/-- A write along the tokens has left an empty array at the `j`-th, which would have been too long
with the position that comes next. -/
structure RefusedAt (limit : Option Int) (after : Value) (ts : List Token) (j : Nat) : Prop where
  empty : after.follow (ts.take j) = .ok (.array .list [])
  tooLong : ∃ i l, ts[j]? = some (.index i) ∧ limit = some l ∧ l < (i + 1 : Nat)

/-- The array `y` has the length of `x` made longer, up to the position that the token stands for
and within the limit. -/
def GrownTo (limit : Option Int) (t : Token) (x y : Value) : Prop :=
  ∃ i, t = .index i ∧ x.length?.getD 0 < i + 1 ∧ y.length? = some (i + 1) ∧
    ∀ l, limit = some l → (i + 1 : Nat) ≤ l

variable {limit : Option Int} {v tree after child place grown made container x : Value}
  {t s : Token} {ts us : List Token} {fault : WriteFault} {j k : Nat}

/-! ### Where a limit stops a write -/

/-- A container is refused by the policy only where it is an array that would be too long. -/
theorem Refused.exists_tooLong (h : Refused limit container t fault)
    (hclass : fault.errorClass = .policyViolation) :
    ∃ i l, t = .index i ∧ limit = some l ∧ l < (i + 1 : Nat) := by
  cases h with
  | mismatch _ => cases hclass
  | growth _ hcause =>
      cases hcause with
      | tooLong hlimit _ hlt => exact ⟨_, _, rfl, hlimit, hlt⟩
      | growthTooGreat _ => cases hclass

/-- The policy has no part in what an array stores. -/
theorem errorClass_ne_of_assign (h : (assign v container t).fault? = some fault) :
    fault.errorClass ≠ .policyViolation := by
  rcases untyped_or_typed container with hu | ⟨content, rfl⟩
  · rw [assign_of_isTyped_eq_false hu] at h
    cases h
  · cases t with
    | key name => cases h
    | index i =>
        cases hs : content.store i v with
        | ok stored =>
            simp only [assign, hs] at h
            cases h
        | error cause =>
            intro hclass
            cases cause <;> simp only [assign, hs] at h <;> cases h <;> cases hclass

/-- A new container that is refused is an empty array. -/
theorem RefusedAt.of_refused {parent : Value} (h : Refused limit (parent.fresh t) t fault)
    (hclass : fault.errorClass = .policyViolation) :
    RefusedAt limit (parent.fresh t) (t :: ts) 0 := by
  obtain ⟨i, l, rfl, hlimit, hlt⟩ := h.exists_tooLong hclass
  exact ⟨rfl, i, l, rfl, hlimit, hlt⟩

theorem RefusedAt.cons (hs : after.step t = .ok child) (h : RefusedAt limit child ts j) :
    RefusedAt limit after (t :: ts) (j + 1) := by
  refine ⟨?_, h.tooLong⟩
  rw [List.take_succ_cons, follow_cons_of_step hs]
  exact h.empty

/-- From a container that the write makes itself on, it is stopped at an empty array. -/
theorem exists_refusedAt_of_fresh (parent : Value)
    (hf : (writeBelow limit v (parent.fresh t) t ts).fault? = some fault)
    (hclass : fault.errorClass = .policyViolation) :
    ∃ j, RefusedAt limit (writeBelow limit v (parent.fresh t) t ts).tree (t :: ts) j := by
  -- along the tokens: behind a new container there are only new ones
  induction ts generalizing parent t with
  | nil =>
      rcases reserve_spec limit (parent.fresh t) t with ⟨grown, _, hr⟩ | ⟨fault', h, hrefused⟩
      · rw [writeBelow_last hr] at hf
        exact absurd hclass (errorClass_ne_of_assign hf)
      · rw [writeBelow_refused h] at hf ⊢
        cases hf
        exact ⟨0, .of_refused hrefused hclass⟩
  | cons next ts ih =>
      rcases reserve_spec limit (parent.fresh t) t with ⟨grown, _, hr⟩ | ⟨fault', h, hrefused⟩
      · have hu := isTyped_fresh parent t
        have hnext := slotOrFresh_of_slot_missing (slot_fresh parent t t) next
        have hstep := step_writeBelow_next v next ts hr hu
        rw [writeBelow_next hr, hr.slotOrFresh_eq hu, hnext] at hf
        obtain ⟨j, hj⟩ := ih _ hf
        exact ⟨j + 1, .cons hstep (hnext ▸ hj)⟩
      · rw [writeBelow_refused h] at hf ⊢
        cases hf
        exact ⟨0, .of_refused hrefused hclass⟩

theorem DepartsAt.cons (hs : container.step t = .ok child) (hw : container.isWritable = true)
    (h : DepartsAt limit child after ts k place grown made s) :
    DepartsAt limit container (put after container t) (t :: ts) (k + 1) place grown made s where
  token := h.token
  reached := by
    rw [List.take_succ_cons, follow_cons_of_step hs]
    exact h.reached
  writable := .cons hs hw h.writable
  empty := h.empty
  reserved := h.reserved
  after_eq := by rw [List.take_succ_cons, replaceAt_cons hs, ← h.after_eq]

/-- Where nothing is stored at the token, the write leaves the old tree. -/
theorem DepartsAt.of_slot_missing (hr : Reserved limit container t grown)
    (hu : container.isTyped = false) (hempty : container.slot t = .missing) (next : Token)
    (ts : List Token) :
    DepartsAt limit container (writeBelow limit v container t (next :: ts)).tree (t :: next :: ts) 0
      container grown (writeBelow limit v (container.fresh next) next ts).tree t where
  token := rfl
  reached := rfl
  writable := .nil (isWritable_of_takes hr.takes)
  empty := hempty
  reserved := hr
  after_eq := by
    rw [writeBelow_next hr, hr.slotOrFresh_eq hu, slotOrFresh_of_slot_missing hempty]
    rfl

/-- A write that the policy stops on its way down has changed nothing, or it has left the old tree
at one container and was stopped behind it. -/
theorem stopped_writeBelow (hf : (writeBelow limit v container t ts).fault? = some fault)
    (hclass : fault.errorClass = .policyViolation) :
    (writeBelow limit v container t ts).tree = container ∨
    ∃ k place grown made s j,
      DepartsAt limit container (writeBelow limit v container t ts).tree (t :: ts) k place grown
        made s ∧
      k < j ∧ RefusedAt limit (writeBelow limit v container t ts).tree (t :: ts) j := by
  -- along the tokens, as long as the way leads through the old tree
  induction ts generalizing container t with
  | nil =>
      rcases reserve_spec limit container t with ⟨grown, _, hr⟩ | ⟨_, h, _⟩
      · rw [writeBelow_last hr] at hf
        exact absurd hclass (errorClass_ne_of_assign hf)
      · rw [writeBelow_refused h]
        exact .inl rfl
  | cons next ts ih =>
      rcases reserve_spec limit container t with ⟨grown, _, hr⟩ | ⟨_, h, _⟩
      · rcases untyped_or_typed container with hu | ⟨content, rfl⟩
        · have hstep := step_writeBelow_next v next ts hr hu
          rcases slotOrFresh_cases container t next with ⟨x, hx, _, heq⟩ | ⟨hmissing, heq⟩
          · -- the way goes on through the old tree
            obtain rfl := hr.eq_of_child? hx
            rw [writeBelow_next hr, heq] at hf hstep ⊢
            rcases ih hf with hsame | ⟨k, place, grown', made, s, j, hdeparts, hkj, hrefused⟩
            · left
              rw [hsame]
              exact put_child? hx
            · right
              have hs := step_eq_ok_iff.mpr ⟨hr.isLongRange_eq_false, hx⟩
              have hw := isWritable_of_takes hr.takes
              exact ⟨k + 1, place, grown', made, s, j + 1, hdeparts.cons hs hw,
                Nat.succ_lt_succ hkj, hrefused.cons hstep⟩
          · -- nothing is stored here, and the way goes on through what the write makes
            right
            rw [heq] at hstep
            rw [writeBelow_next hr, hr.slotOrFresh_eq hu, heq] at hf
            obtain ⟨j, hrefused⟩ := exists_refusedAt_of_fresh container hf hclass
            have hdeparts := DepartsAt.of_slot_missing (v := v) hr hu
              (slot_eq_missing_iff.mpr hmissing) next ts
            exact ⟨0, container, grown, _, t, j + 1, hdeparts, Nat.succ_pos j, hrefused.cons hstep⟩
        · -- what stops a write at an element is no policy
          obtain ⟨e, he⟩ := writeBelow_typed_next v next ts hr
          rw [he] at hf
          cases hf
          cases hclass
      · rw [writeBelow_refused h]
        exact .inl rfl

/-! ### What keeps its length -/

/-- Where nothing is stored, no more than one token leads on, and to `missing`. -/
theorem eq_missing_of_slot (h : container.slot t = .missing)
    (hx : container.follow (t :: us) = .ok x) : x = .missing := by
  obtain ⟨y, hstep, hy⟩ := follow_cons_eq_ok_iff.mp hx
  obtain rfl := slot_eq_missing_iff.mp h y (step_eq_ok_iff.mp hstep).2
  exact (follow_of_child?_eq_none (fun s => by cases s <;> rfl) hy).2

/-- What is put where nothing was stored hides nothing of what was there. -/
theorem follow_put_of_slot_missing (hr : Reserved limit place t grown)
    (hempty : place.slot t = .missing) (hx : place.follow (s :: us) = .ok x) (hne : x ≠ .missing)
    (made : Value) : (put made grown t).follow (s :: us) = .ok x := by
  -- at the token itself there was nothing to hide
  have hts : t ≠ s := by
    rintro rfl
    exact hne (eq_missing_of_slot hempty hx)
  obtain ⟨y, hstep, hy⟩ := follow_cons_eq_ok_iff.mp hx
  obtain ⟨hlong, hs⟩ := step_eq_ok_iff.mp hstep
  refine follow_cons_eq_ok_iff.mpr ⟨y, step_eq_ok_iff.mpr ⟨?_, ?_⟩, hy⟩
  · rw [← isLongRange_blank, blank_put, hr.blank_eq, isLongRange_blank]
    exact hlong
  · rw [child?_put_ne hts]
    exact hr.child?_some hs

/-- Where room is made, an array stays as long as it is or grows up to the token. -/
theorem Reserved.length?_eq_or (h : Reserved limit container t grown) :
    grown.length? = container.length? ∨ GrownTo limit t container grown := by
  cases h with
  | member _ => exact .inl rfl
  | @element _ items i _ hg =>
      by_cases hlt : items.length < i + 1
      · refine .inr ⟨i, rfl, hlt, congrArg some ?_, (hg hlt).1⟩
        rw [List.length_append, List.length_replicate]
        omega
      · left
        refine congrArg some ?_
        rw [List.length_append, List.length_replicate]
        omega
  | @typed content i hg =>
      by_cases hlt : content.size < i + 1
      · refine .inr ⟨i, rfl, hlt, congrArg some ?_, (hg hlt).1⟩
        rw [TypedArray.size_pad]
        omega
      · left
        refine congrArg some ?_
        rw [TypedArray.size_pad]
        omega

/-- The containers that a way passes have the lengths that they had when the value at its end is
replaced. -/
theorem exists_follow_replaceAt_of_prefix (hplace : tree.follow ts = .ok place)
    (hw : tree.Along ts (·.isWritable = true)) (hus : us <+: ts) (hne : us ≠ ts)
    (hx : tree.follow us = .ok x) (v : Value) :
    ∃ y, (replaceAt v tree ts).follow us = .ok y ∧ y.length? = x.length? := by
  obtain ⟨rest, rfl⟩ := hus
  cases rest with
  | nil => exact absurd (List.append_nil us).symm hne
  | cons s rest =>
      have hus : tree.Along us (·.isWritable = true) := fun qs y hqs hy =>
        hw qs y (hqs.trans (List.prefix_append us _)) hy
      refine ⟨_, ?_, length?_put (replaceAt v (x.slot s) rest) x s⟩
      -- the value is replaced below `us`, so at `us` a container is put back
      rw [replaceAt_append hx]
      exact follow_replaceAt hx hus _

namespace DepartsAt

/-- Nothing is stored behind the place where a write leaves the old tree. -/
theorem eq_missing (h : DepartsAt limit tree after ts k place grown made t) (hkj : k < j)
    (hx : tree.follow (ts.take j) = .ok x) : x = .missing := by
  obtain ⟨hlt, htoken⟩ := List.getElem?_eq_some_iff.mp h.token
  obtain ⟨n, rfl⟩ := Nat.exists_eq_add_of_lt hkj
  rw [Nat.add_assoc, List.take_add, List.drop_eq_getElem_cons hlt, htoken, List.take_succ_cons,
    follow_append h.reached] at hx
  exact eq_missing_of_slot h.empty hx

/-- An array of the old tree has the length that it had, unless it is the one at which the write
has left that tree. -/
theorem length?_follow (h : DepartsAt limit tree after ts k place grown made t)
    (hx : tree.follow us = .ok x) (ha : x.isArray = true) :
    ∃ y, after.follow us = .ok y ∧
      (y.length? = x.length? ∨ us = ts.take k ∧ GrownTo limit t x y) := by
  rw [h.after_eq]
  -- behind the container, in front of it, or apart from it
  by_cases hbehind : ts.take k <+: us
  · obtain ⟨rest, rfl⟩ := hbehind
    have hput := follow_replaceAt h.reached h.writable (put made grown t)
    rw [follow_append h.reached] at hx
    rw [follow_append hput]
    cases rest with
    | nil =>
        cases hx
        refine ⟨_, rfl, ?_⟩
        rw [GrownTo, length?_put, List.append_nil]
        exact h.reserved.length?_eq_or.imp_right fun hgrown => ⟨rfl, hgrown⟩
    | cons s rest =>
        have hne : x ≠ .missing := by
          rintro rfl
          cases ha
        exact ⟨x, follow_put_of_slot_missing h.reserved h.empty hx hne made, .inl rfl⟩
  · by_cases hbefore : us <+: ts.take k
    · have hne : us ≠ ts.take k := by
        rintro rfl
        exact hbehind List.prefix_rfl
      obtain ⟨y, hy, hlength⟩ :=
        exists_follow_replaceAt_of_prefix h.reached h.writable hbefore hne hx (put made grown t)
      exact ⟨y, hy, .inl hlength⟩
    · have hapart : Apart (ts.take k) us := ⟨hbehind, hbefore⟩
      exact ⟨x, (follow_replaceAt_of_apart hapart h.reached h.writable _).mpr hx, .inl rfl⟩

end DepartsAt

/-! ### The whole write -/

/-- **What has grown when a policy stops a write.** Either nothing has changed, or the write has
left the old tree at one container, and it was stopped at an empty array behind that one, which it
had made itself. Then the arrays of the old tree have the lengths that they had, except that the
container where it left the tree, if it is an array, may have grown up to its token, within the
limit. -/
theorem length?_of_policyViolation {tree' : Value} {p : Pointer} {policy : Policy} {e : Error}
    (h : tree.write p v policy = (tree', some e)) (he : e.errorClass = .policyViolation) :
    tree' = tree ∨
    ∃ k place grown made t j,
      DepartsAt policy.maxLength tree tree' p.tokens k place grown made t ∧
      k < j ∧ RefusedAt policy.maxLength tree' p.tokens j ∧
      (∀ x, tree.follow (p.tokens.take j) = .ok x → x = .missing) ∧
      ∀ q x, tree.read q = .ok x → x.isArray = true →
        ∃ y, tree'.read q = .ok y ∧
          (y.length? = x.length? ∨
            q.tokens = p.tokens.take k ∧ GrownTo policy.maxLength t x y) := by
  obtain ⟨htree, herror⟩ := Prod.ext_iff.mp h
  obtain rfl : (tree.attempt p v policy).tree = tree' := htree
  obtain ⟨fault, hfault, rfl⟩ := Option.map_eq_some_iff.mp herror
  rcases attempt_spec tree p v policy with ⟨_, hearly, _⟩ | ⟨t, ts, converted, hadmitted⟩
  · rw [hearly]
    exact .inl rfl
  · have hclass : fault.errorClass = .policyViolation := by
      unfold WriteFault.at at he
      split at he
      · exact he
      · cases he
    rw [attempt_of_admitted hadmitted] at hfault ⊢
    rw [hadmitted.tokens]
    rcases stopped_writeBelow hfault hclass with
      hsame | ⟨k, place, grown, made, s, j, hdeparts, hkj, hrefused⟩
    · exact .inl hsame
    · refine .inr ⟨k, place, grown, made, s, j, hdeparts, hkj, hrefused,
        fun x => hdeparts.eq_missing hkj, ?_⟩
      intro q x hx ha
      obtain ⟨y, hy, hlength⟩ := hdeparts.length?_follow (read_eq_ok_iff.mp hx) ha
      exact ⟨y, read_eq_ok_iff.mpr hy, hlength⟩

/-- A write to `/2/3` of `[]` under a limit of two elements is stopped at the list that it has put
at `/2`, when the outer one has grown already. -/
theorem write_of_tooLong_behind_root :
    let p : Pointer := { tokens := [.index 1, .index 2] }
    (Value.array .list []).write p .null { maxLength := some 2 } =
      (.array .list [.missing, .array .list []], some (.write (.tooLong 3 2) p)) := by
  intro p
  have hp : p.IsPrintable := by
    apply Pointer.IsAddressable.isPrintable
    intro offset h
    have hoffset : offset = 1 ∨ offset = 2 := by simpa [p] using h
    rcases hoffset with rfl | rfl <;> decide
  exact write_eq_of_attempt hp (by decide +kernel) rfl

theorem length?_of_policyViolation_behind_root :
    let tree := Value.array .list []
    let p : Pointer := { tokens := [.index 1, .index 2] }
    let policy : Policy := { maxLength := some 2 }
    let tree' := Value.array .list [.missing, .array .list []]
    let e : Error := .write (.tooLong 3 2) p
    tree.write p .null policy = (tree', some e) ∧ e.errorClass = .policyViolation ∧
    ∃ k place grown made t j,
      DepartsAt policy.maxLength tree tree' p.tokens k place grown made t ∧
      k < j ∧ RefusedAt policy.maxLength tree' p.tokens j ∧
      (∀ x, tree.follow (p.tokens.take j) = .ok x → x = .missing) ∧
      ∀ q x, tree.read q = .ok x → x.isArray = true →
        ∃ y, tree'.read q = .ok y ∧
          (y.length? = x.length? ∨
            q.tokens = p.tokens.take k ∧ GrownTo policy.maxLength t x y) := by
  intro tree p policy tree' e
  have h : tree.write p .null policy = (tree', some e) := write_of_tooLong_behind_root
  refine ⟨h, rfl, (length?_of_policyViolation h rfl).resolve_left ?_⟩
  intro hsame
  cases congrArg length? hsame

/-- The outer list had no elements and has two when the write has been stopped. -/
theorem length?_ne_of_policyViolation :
    let tree := Value.array .list []
    let p : Pointer := { tokens := [.index 1, .index 2] }
    let root : Pointer := { tokens := [] }
    ∃ tree' e x y, tree.write p .null { maxLength := some 2 } = (tree', some e) ∧
      e.errorClass = .policyViolation ∧ tree.read root = .ok x ∧ x.isArray = true ∧
      tree'.read root = .ok y ∧ y.length? ≠ x.length? :=
  ⟨_, _, _, _, write_of_tooLong_behind_root, rfl, rfl, rfl, rfl, by decide⟩

end Value
end JsonPointer
