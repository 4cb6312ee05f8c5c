import JsonPointer.Proofs.Frame
import JsonPointer.Proofs.Written

/-!
# Reads and writes below a place

A way through a tree can be cut at every place that it passes. A read along both parts is a read
along the second part from what the first one leads to (`follow_append`), and a write along both
parts is a write along the second part into what the first one leads to, which is then put back at
its place (`writeBelow_append`). So nothing that lies before the cut has an influence behind it.

What it means that a value is put back is `replaceAt`: its place then leads to the new value
(`follow_replaceAt`), and ways that are apart from it lead to what they led to
(`follow_replaceAt_of_apart`).

Errors name the whole pointer, which has to be written for that. Its first part always can be, as
the positions in it are those of elements that are there (`lt_lengthLimit_of_follow`). What else an
error shows is the same for both writes.
-/

namespace JsonPointer
namespace Value

variable {limit : Option Int} {v container x : Value} {t next : Token} {ts us : List Token}

/-! ### Ways through a tree -/

/-- A read goes on from what the first part of the way leads to. -/
theorem follow_append {tree : Value} (h : tree.follow ts = .ok x) (us : List Token) :
    tree.follow (ts ++ us) = x.follow us := by
  induction ts generalizing tree with
  | nil =>
      cases h
      rfl
  | cons t ts ih =>
      obtain ⟨child, hstep, hchild⟩ := follow_cons_eq_ok_iff.mp h
      rw [List.cons_append, follow_cons_of_step hstep]
      exact ih hchild

/-- Every value that the way passes has the property, from the tree itself to what it leads to. -/
def Along (tree : Value) (ts : List Token) (P : Value → Prop) : Prop :=
  ∀ us x, us <+: ts → tree.follow us = .ok x → P x

namespace Along

variable {tree child : Value} {P : Value → Prop}

theorem head (h : tree.Along ts P) : P tree := h [] tree List.nil_prefix rfl

theorem last (h : tree.Along ts P) (hx : tree.follow ts = .ok x) : P x :=
  h ts x List.prefix_rfl hx

theorem nil (h : P tree) : tree.Along [] P := by
  intro us x hus hx
  obtain rfl := List.prefix_nil.mp hus
  cases hx
  exact h

theorem cons (hs : tree.step t = .ok child) (h : P tree) (hchild : child.Along ts P) :
    tree.Along (t :: ts) P := by
  intro us x hus hx
  cases us with
  | nil =>
      cases hx
      exact h
  | cons s us =>
      obtain ⟨rfl, hrest⟩ := List.cons_prefix_cons.mp hus
      rw [follow_cons_of_step hs] at hx
      exact hchild us x hrest hx

theorem tail (h : tree.Along (t :: ts) P) (hs : tree.step t = .ok child) : child.Along ts P := by
  intro us x hus hx
  apply h (t :: us) x
  · exact List.cons_prefix_cons.mpr ⟨rfl, hus⟩
  · rw [follow_cons_of_step hs]
    exact hx

end Along

/-! ### Positions on the way -/

/-- The value has fewer elements than the length limit, if it is an array. No list and no typed
array can have more. A range can, and then no token leads on from it. -/
def WithinLengthLimit (v : Value) : Prop := v.isLongRange = true ∨ v.length?.getD 0 < lengthLimit

/-- Positions that lead somewhere are below the limit. -/
theorem lt_lengthLimit_of_follow {tree : Value} (h : tree.Along ts WithinLengthLimit)
    (hx : tree.follow ts = .ok x) : ∀ i, .index i ∈ ts → i + 1 < lengthLimit := by
  -- along the tokens: each position is within the length of the array that it is taken in
  induction ts generalizing tree with
  | nil =>
      intro i hi
      cases hi
  | cons t ts ih =>
      obtain ⟨child, hstep, hchild⟩ := follow_cons_eq_ok_iff.mp hx
      intro i hi
      rcases List.mem_cons.mp hi with rfl | hi
      · obtain ⟨hrange, hc⟩ := step_eq_ok_iff.mp hstep
        have hlt : i < tree.length?.getD 0 := lt_length_of_child? hc
        rcases h.head with hlong | hlength
        · rw [hrange] at hlong
          cases hlong
        · omega
      · exact ih (h.tail hstep) hchild i hi

/-! ### Putting a value in a place -/

theorem isWritable_eq_false_of_child?_typed {content : TypedArray}
    (h : (Value.typed content).child? t = some x) : x.isWritable = false := by
  obtain ⟨_, hscalar⟩ := scalar_of_child?_typed h
  exact Bool.or_eq_false_iff.mpr ⟨(hscalar (.key "")).2, (hscalar (.index 0)).2⟩

/-- A container on the way holds what is put into it. -/
theorem step_put (hs : container.step t = .ok x) (hw : container.isWritable = true)
    (hx : x.isWritable = true) (v : Value) : (put v container t).step t = .ok v := by
  obtain ⟨hlong, hc⟩ := step_eq_ok_iff.mp hs
  have hu : container.isTyped = false := by
    rcases untyped_or_typed container with hu | ⟨content, rfl⟩
    · exact hu
    · rw [isWritable_eq_false_of_child?_typed hc] at hx
      cases hx
  have hr : Reserved none container t container := .of_child? (takes_of_child? hw hc) hc
  refine step_eq_ok_iff.mpr ⟨?_, child?_put_self hr hu v⟩
  rw [← isLongRange_blank, blank_put, isLongRange_blank, hlong]

/-- The tree with the value `v` at the place that the tokens lead to. -/
def replaceAt (v : Value) : Value → List Token → Value
  | _, [] => v
  | tree, t :: ts => put (replaceAt v (tree.slot t) ts) tree t

/-- To replace at a place below a child, replace in the child and put it back. -/
theorem replaceAt_cons {tree child : Value} (h : tree.step t = .ok child) (v : Value)
    (ts : List Token) : replaceAt v tree (t :: ts) = put (replaceAt v child ts) tree t := by
  rw [replaceAt, slot_eq, (step_eq_ok_iff.mp h).2, Option.getD_some]

/-- The place of a value that was replaced leads to the new one. -/
theorem follow_replaceAt {tree : Value} (hx : tree.follow ts = .ok x)
    (hw : tree.Along ts (·.isWritable = true)) (v : Value) :
    (replaceAt v tree ts).follow ts = .ok v := by
  induction ts generalizing tree with
  | nil => rfl
  | cons t ts ih =>
      obtain ⟨child, hstep, hchild⟩ := follow_cons_eq_ok_iff.mp hx
      have hbelow := hw.tail hstep
      rw [replaceAt_cons hstep, follow_cons_of_step (step_put hstep hw.head hbelow.head _)]
      exact ih hchild hbelow

/-- A way that is apart from the place leads to what it led to. -/
theorem follow_replaceAt_of_apart {tree y : Value} (ha : Apart ts us)
    (hx : tree.follow ts = .ok x) (hw : tree.Along ts (·.isWritable = true)) (v : Value) :
    (replaceAt v tree ts).follow us = .ok y ↔ tree.follow us = .ok y := by
  -- along the place, until the other way leaves it
  induction ts generalizing tree us with
  | nil => exact absurd rfl ha.ne_nil_left
  | cons t ts ih =>
      obtain ⟨child, hstep, hchild⟩ := follow_cons_eq_ok_iff.mp hx
      have hbelow := hw.tail hstep
      obtain ⟨s, rest, rfl, hts | ⟨rfl, hrest⟩⟩ := ha.cases_cons
      · -- the ways part here, and what is put at `t` is not seen at `s`
        have hother (z : Value) : (replaceAt v tree (t :: ts)).step s = .ok z ↔
            tree.step s = .ok z := by
          rw [replaceAt_cons hstep, step_eq_ok_iff, step_eq_ok_iff, ← isLongRange_blank, blank_put,
            isLongRange_blank, child?_put_ne hts]
        simp only [follow_cons_eq_ok_iff, hother]
      · rw [replaceAt_cons hstep, follow_cons_of_step (step_put hstep hw.head hbelow.head _),
          follow_cons_of_step hstep]
        exact ih hrest hchild hbelow

/-- What is replaced below a place is replaced in what stands there. -/
theorem replaceAt_append {tree : Value} (h : tree.follow ts = .ok x) (v : Value)
    (us : List Token) : replaceAt v tree (ts ++ us) = replaceAt (replaceAt v x us) tree ts := by
  induction ts generalizing tree with
  | nil =>
      cases h
      rfl
  | cons t ts ih =>
      obtain ⟨child, hstep, hchild⟩ := follow_cons_eq_ok_iff.mp h
      rw [List.cons_append, replaceAt_cons hstep, replaceAt_cons hstep, ih hchild]

theorem replaceAt_self {tree : Value} (h : tree.follow ts = .ok x) :
    replaceAt x tree ts = tree := by
  induction ts generalizing tree with
  | nil =>
      cases h
      rfl
  | cons t ts ih =>
      obtain ⟨child, hstep, hchild⟩ := follow_cons_eq_ok_iff.mp h
      rw [replaceAt_cons hstep, ih hchild]
      exact put_child? (step_eq_ok_iff.mp hstep).2

/-! ### Writes that pass through a place -/

/-- A write passes through a container, if what it goes on into is there, and puts back what that
has become. -/
theorem writeBelow_through (hs : container.step t = .ok x) (hw : container.isWritable = true)
    (hx : x.isWritable = true) :
    writeBelow limit v container t (next :: us) =
      ⟨put (writeBelow limit v x next us).tree container t,
        (writeBelow limit v x next us).fault?⟩ := by
  have hc := (step_eq_ok_iff.mp hs).2
  rw [writeBelow_next (.of_child? (takes_of_child? hw hc) hc)]
  rw [slotOrFresh_of_child? hc (isMissing_eq_false_of_isWritable hx)]

/-- A write that passes through a place goes on there like one that starts there. -/
theorem writeBelow_append {s : Token} (hx : container.follow (t :: ts) = .ok x)
    (hw : container.Along (t :: ts) (·.isWritable = true)) :
    writeBelow limit v container t (ts ++ s :: us) =
      ⟨replaceAt (writeBelow limit v x s us).tree container (t :: ts),
        (writeBelow limit v x s us).fault?⟩ := by
  -- along the first part of the way; the second part is only looked at when it is reached
  induction ts generalizing container t with
  | nil =>
      obtain ⟨child, hstep, hchild⟩ := follow_cons_eq_ok_iff.mp hx
      obtain rfl : child = x := Except.ok.inj hchild
      exact writeBelow_through hstep hw.head (hw.tail hstep).head
  | cons next ts ih =>
      obtain ⟨child, hstep, hchild⟩ := follow_cons_eq_ok_iff.mp hx
      have hbelow := hw.tail hstep
      rw [List.cons_append, writeBelow_through hstep hw.head hbelow.head, ih hchild hbelow,
        replaceAt_cons hstep]

/-- An attempt that passes through a place goes on there like one that starts there. -/
theorem attempt_append {tree : Value} {p q r : Pointer} {policy : Policy}
    (hq : q.tokens = p.tokens ++ r.tokens) (hkind : q.kind = r.kind) (hr : r.tokens ≠ [])
    (hx : tree.follow p.tokens = .ok x) (hw : tree.Along p.tokens (·.isWritable = true))
    (hdepth : policy.maxDepth = none) :
    tree.attempt q v policy =
      ⟨replaceAt (x.attempt r v policy).tree tree p.tokens, (x.attempt r v policy).fault?⟩ := by
  obtain ⟨s, us, hs⟩ := List.exists_cons_of_ne_nil hr
  have hlimit (n : Nat) : depthAllowed policy n = none := by
    rw [depthAllowed, hdepth]
    rfl
  -- both attempts pass the checks at their root: it is writable, and no depth is too great
  rw [attempt_of_isWritable hs (hw.last hx), hlimit]
  cases hp : p.tokens with
  | nil =>
      rw [hp] at hx hw
      obtain rfl : tree = x := Except.ok.inj hx
      have hq' : q.tokens = s :: us := by rw [hq, hp, hs, List.nil_append]
      rw [attempt_of_isWritable hq' hw.head, hlimit, hkind]
      rfl
  | cons t ts =>
      rw [hp] at hx hw
      have hq' : q.tokens = t :: (ts ++ s :: us) := by rw [hq, hp, hs, List.cons_append]
      rw [attempt_of_isWritable hq' hw.head, hlimit, hkind]
      cases coerce? r.kind v with
      | none =>
          show Attempt.mk tree _ = ⟨replaceAt x tree (t :: ts), _⟩
          rw [replaceAt_self hx]
      | some converted => exact writeBelow_append hx hw

end Value

/-! ### Outcomes -/

namespace Value

/-- **A place in a tree is a tree of its own.** If the pointer `q` goes on from the place of `p` as
`r` does, a read along `q` has the outcome of a read along `r` from what stands at the place. A
write along `q` has the outcome of one along `r` into what stands there, if everything on the way to
the place can be written to, and the tree that it leaves, also when it fails, is the old one with
what the other write leaves at the place. That no array exceeds the length limit only matters to
errors, which name the whole of `q` where the other ones name `r`. -/
theorem read_write_append {tree c : Value} {p q r : Pointer}
    (hlimit : tree.Along p.tokens WithinLengthLimit) (hq : q.tokens = p.tokens ++ r.tokens)
    (hc : tree.read p = .ok c) :
    (tree.read q).mapError Error.report = (c.read r).mapError Error.report ∧
    (q.kind = r.kind → r.tokens ≠ [] → tree.Along p.tokens (·.isWritable = true) →
      ∀ v policy, policy.maxDepth = none →
        (tree.write q v policy).2.map Error.report = (c.write r v policy).2.map Error.report ∧
        (tree.write q v policy).1 = replaceAt (c.write r v policy).1 tree p.tokens) := by
  rw [read_eq_ok_iff] at hc
  have haddressable : p.IsAddressable := lt_lengthLimit_of_follow hlimit hc
  have hp := haddressable.isPrintable
  refine ⟨report_read_eq hp hq (follow_append hc r.tokens), ?_⟩
  intro hkind hr hw v policy hdepth
  rw [write, write, attempt_append hq hkind hr hc hw hdepth]
  refine ⟨?_, rfl⟩
  -- the fault is the same, and only the pointer in the report differs
  cases (c.attempt r v policy).fault? with
  | none => rfl
  | some fault => exact congrArg some (fault.report_at (hp.append_iff hq))

/-- Below `/a/1` of `{"a": [{"b": 1}]}`, a write to `/c/3` makes an array in the object there. -/
theorem read_write_append_at_element :
    let c := Value.object .plain [(.text "b", .int 1)]
    let tree := Value.object .plain [(.text "a", .array .list [c])]
    let p : Pointer := { tokens := [.key "a", .index 0] }
    let r : Pointer := { tokens := [.key "c", .index 2] }
    let q : Pointer := { tokens := [.key "a", .index 0, .key "c", .index 2] }
    let made := Value.array .list [.missing, .missing, .null]
    let c' := Value.object .plain [(.text "b", .int 1), (.text "c", made)]
    tree.Along p.tokens WithinLengthLimit ∧ q.tokens = p.tokens ++ r.tokens ∧
    tree.read p = .ok c ∧ q.kind = r.kind ∧ r.tokens ≠ [] ∧
    tree.Along p.tokens (·.isWritable = true) ∧ c.write r .null {} = (c', none) ∧
    (tree.read q).mapError Error.report = (c.read r).mapError Error.report ∧
    (tree.write q .null {}).2.map Error.report = (c.write r .null {}).2.map Error.report ∧
    (tree.write q .null {}).1 = replaceAt (c.write r .null {}).1 tree p.tokens := by
  intro c tree p r q made c'
  have hprefixes {us : List Token} (h : us <+: p.tokens) :
      us = [] ∨ us = [.key "a"] ∨ us = [.key "a", .index 0] := by
    simpa [p] using (List.mem_inits us p.tokens).mpr h
  have hlimit : tree.Along p.tokens WithinLengthLimit := by
    intro us x hus hx
    rcases hprefixes hus with rfl | rfl | rfl <;> cases hx <;> exact .inr (by decide)
  have hw : tree.Along p.tokens (·.isWritable = true) := by
    intro us x hus hx
    rcases hprefixes hus with rfl | rfl | rfl <;> cases hx <;> rfl
  have hq : q.tokens = p.tokens ++ r.tokens := rfl
  have hr : r.tokens ≠ [] := List.cons_ne_nil _ _
  obtain ⟨hread, hwrite⟩ := read_write_append hlimit hq rfl
  obtain ⟨hreport, htree⟩ := hwrite rfl hr hw .null {} rfl
  exact ⟨hlimit, hq, rfl, rfl, hr, hw, rfl, hread, hreport, htree⟩

end Value
end JsonPointer
