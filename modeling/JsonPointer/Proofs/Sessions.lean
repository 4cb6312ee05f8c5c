import JsonPointer.Proofs.Frame
import JsonPointer.Proofs.Written

/-!
# What lasts over a session

A session goes on after a write has failed, and a failed write can leave arrays grown and containers
made. The invariant that survives all of this is that tokens lead to a value `x`. A step keeps it as
long as it does not write at the place, on the way to it or below it (`follow_run_of_apart`), so a
run of such steps keeps it (`follow_finish_of_apart`). A write that succeeds starts it
(`exists_follow_of_write`), and `read_finish_of_apart` puts the two together.

Values are trees: what is written at two places stands at each of them for itself.
-/

namespace JsonPointer

variable {tree after x : Value} {s : Step} {steps : List Step} {i : Nat} {p : Pointer}
  {us : List Token} {reply : Reply}

/-! ### One step -/

def Step.WritesAt (s : Step) (p : Pointer) : Prop :=
  s.target.resolve = .ok p ∧ ∃ v policy, s.operation = .write v policy

/-- What a write answers in a session, and the tree that it leaves there. -/
theorem Operation.run_write (v : Value) (policy : Policy) (p : Pointer) (tree : Value) :
    (Operation.write v policy).run p tree =
      (match (tree.write p v policy).2 with
        | none => .ok .done
        | some e => .error e,
        (tree.write p v policy).1) := by
  rw [Operation.run]
  split <;> next h => rw [h]

namespace Step

theorem run_of_resolve (h : s.target.resolve = .ok p) (tree : Value) :
    s.run tree = s.operation.run p tree := by
  rw [run, h]

/-- A step leaves the tree as it is, or writes. -/
theorem run_cases (s : Step) (tree : Value) :
    (s.run tree).2 = tree ∨
    ∃ p v policy, s.WritesAt p ∧ (s.run tree).2 = (tree.write p v policy).1 := by
  cases hp : s.target.resolve with
  | error e =>
      rw [run, hp]
      exact .inl rfl
  | ok p =>
      rw [run_of_resolve hp]
      cases hop : s.operation with
      | write v policy =>
          refine .inr ⟨p, v, policy, ⟨hp, v, policy, hop⟩, ?_⟩
          rw [Operation.run_write]
      | _ => exact .inl rfl

end Step

/-- A write keeps what stands apart from its pointer, also when it fails. -/
theorem Value.follow_write_of_apart {v : Value} {policy : Policy} (ha : Apart p.tokens us)
    (hx : tree.follow us = .ok x) : (tree.write p v policy).1.follow us = .ok x := by
  rw [write_tree]
  rcases attempt_spec tree p v policy with ⟨fault, hf, _⟩ | ⟨t, ts, converted, hadmitted⟩
  · rw [hf]
    exact hx
  · rw [hadmitted.tokens] at ha
    rw [attempt_of_admitted hadmitted]
    exact follow_writeBelow_of_apart ha hx

/-- A step keeps what stands apart from what it writes. -/
theorem Step.follow_run_of_apart (ha : ∀ q, s.WritesAt q → Apart us q.tokens)
    (hx : tree.follow us = .ok x) : (s.run tree).2.follow us = .ok x := by
  rcases s.run_cases tree with h | ⟨q, v, policy, hq, h⟩
  · rw [h]
    exact hx
  · rw [h]
    exact Value.follow_write_of_apart (ha q hq).symm hx

/-- After a write that succeeds, its pointer leads somewhere. -/
theorem Value.exists_follow_of_write {v : Value} {policy : Policy}
    (h : tree.write p v policy = (after, none)) : ∃ x, after.follow p.tokens = .ok x := by
  obtain ⟨t, ts, c, hadmitted, hbelow⟩ := exists_admitted_of_write h
  rw [hadmitted.tokens]
  -- what stands there is the value, or the element of a typed array
  obtain ⟨holder, _, ⟨_, hrest⟩ | ⟨_, e, _, he, _⟩⟩ := follow_writeBelow hbelow
  · have hvalue := hrest []
    rw [List.append_nil] at hvalue
    exact ⟨c, hvalue⟩
  · exact ⟨e, he⟩

/-- A step that writes and answers without an error has written. -/
theorem Step.exists_write_of_run_eq_ok (hs : s.WritesAt p)
    (h : s.run tree = (.ok reply, after)) :
    ∃ v policy, tree.write p v policy = (after, none) := by
  obtain ⟨hp, v, policy, hop⟩ := hs
  refine ⟨v, policy, ?_⟩
  rw [run_of_resolve hp, hop, Operation.run_write] at h
  cases hfailure : (tree.write p v policy).2 with
  | some e =>
      rw [hfailure] at h
      cases h
  | none =>
      rw [hfailure] at h
      cases h
      exact Prod.ext rfl hfailure

/-! ### Runs -/

def finish (tree : Value) (steps : List Step) : Value :=
  ((session tree steps).getLast?.map (·.2)).getD tree

@[simp] theorem finish_nil (tree : Value) : finish tree [] = tree := rfl

@[simp] theorem finish_cons (tree : Value) (s : Step) (steps : List Step) :
    finish tree (s :: steps) = finish (s.run tree).2 steps := by
  unfold finish
  rw [session, List.getLast?_cons, Option.map_some, Option.getD_some]
  cases (session (s.run tree).2 steps).getLast? <;> rfl

theorem finish_append (tree : Value) (steps rest : List Step) :
    finish tree (steps ++ rest) = finish (finish tree steps) rest := by
  induction steps generalizing tree with
  | nil => rfl
  | cons s steps ih => rw [List.cons_append, finish_cons, finish_cons, ih]

/-- Each step of a session starts from the tree that those before it have left. -/
theorem getElem?_session (tree : Value) (steps : List Step) (i : Nat) :
    (session tree steps)[i]? = steps[i]?.map (·.run (finish tree (steps.take i))) := by
  induction steps generalizing tree i with
  | nil => rfl
  | cons s steps ih =>
      cases i with
      | zero => rfl
      | succ i =>
          rw [session, List.getElem?_cons_succ, List.getElem?_cons_succ, List.take_succ_cons,
            finish_cons, ih]

/-- The steps behind one go on from the tree that it has left. -/
theorem finish_eq_finish_drop {outcome : Except Error Reply × Value}
    (h : (session tree steps)[i]? = some outcome) :
    finish tree steps = finish outcome.2 (steps.drop (i + 1)) := by
  rw [getElem?_session] at h
  obtain ⟨s, hs, rfl⟩ := Option.map_eq_some_iff.mp h
  obtain ⟨hi, rfl⟩ := List.getElem?_eq_some_iff.mp hs
  -- the steps before the one, it, and those behind it
  have hsplit : steps = steps.take i ++ steps[i] :: steps.drop (i + 1) := by
    rw [List.getElem_cons_drop, List.take_append_drop]
  conv_lhs => rw [hsplit]
  rw [finish_append, finish_cons]

/-- What every step keeps, a run of them keeps. -/
theorem finish_induction {motive : Value → Prop}
    (step : ∀ s ∈ steps, ∀ tree, motive tree → motive (s.run tree).2) (h : motive tree) :
    motive (finish tree steps) := by
  induction steps generalizing tree with
  | nil => exact h
  | cons s steps ih =>
      rw [finish_cons]
      apply ih
      · intro later hlater
        exact step later (List.mem_cons_of_mem s hlater)
      · exact step s List.mem_cons_self tree h

/-- A run keeps what stands apart from all that it writes. -/
theorem follow_finish_of_apart (ha : ∀ s ∈ steps, ∀ q, s.WritesAt q → Apart us q.tokens)
    (hx : tree.follow us = .ok x) : (finish tree steps).follow us = .ok x := by
  apply finish_induction (motive := fun tree => tree.follow us = .ok x)
  · intro s hs tree hx
    exact Step.follow_run_of_apart (ha s hs) hx
  · exact hx

/-- **No update is lost.** If a step of a session writes at a pointer and succeeds, and what later
steps write is apart from it, whether they succeed or fail, then at the end the pointer leads to the
value that was read there right after the step. -/
theorem read_finish_of_apart (hi : steps[i]? = some s) (hs : s.WritesAt p)
    (hdone : (session tree steps)[i]? = some (.ok reply, after))
    (hlater : ∀ later ∈ steps.drop (i + 1), ∀ q, later.WritesAt q → Apart p.tokens q.tokens) :
    ∃ x, after.read p = .ok x ∧
      (finish tree steps).has p = .ok true ∧ (finish tree steps).read p = .ok x := by
  have hrun : s.run (finish tree (steps.take i)) = (.ok reply, after) := by
    rw [getElem?_session, hi] at hdone
    exact Option.some.inj hdone
  obtain ⟨v, policy, hw⟩ := Step.exists_write_of_run_eq_ok hs hrun
  obtain ⟨x, hx⟩ := Value.exists_follow_of_write hw
  -- from there on every step keeps what was read
  have hend : (finish tree steps).follow p.tokens = .ok x := by
    rw [finish_eq_finish_drop hdone]
    exact follow_finish_of_apart hlater hx
  refine ⟨x, Value.read_eq_ok_iff.mpr hx, ?_, Value.read_eq_ok_iff.mpr hend⟩
  rw [Value.has, hend]

/-- What was written at `/a/2/b` lasts over a write to `/a/3/5`, which fails when it has already
grown the array that both go through, and over one to `/a/2/c`. -/
theorem read_finish_of_failure :
    let p : Pointer := { tokens := [.key "a", .index 1, .key "b"] }
    let q : Pointer := { tokens := [.key "a", .index 2, .index 4] }
    let r : Pointer := { tokens := [.key "a", .index 1, .key "c"] }
    let steps : List Step := [⟨.pointer p, .write (.int 7) {}⟩,
      ⟨.pointer q, .write .null { maxLength := some 4 }⟩, ⟨.pointer r, .write .null {}⟩]
    let tree := Value.object .plain []
    let items := [Value.missing, .object .plain [(.text "b", .int 7)]]
    let after := Value.object .plain [(.text "a", .array .list items)]
    let grown := Value.object .plain [(.text "a", .array .list (items ++ [.array .list []]))]
    (session tree steps)[0]? = some (.ok .done, after) ∧
    (∃ e, (session tree steps)[1]? = some (.error e, grown)) ∧
    ∃ x, after.read p = .ok x ∧
      (finish tree steps).has p = .ok true ∧ (finish tree steps).read p = .ok x := by
  intro p q r steps tree items after grown
  have hdone : (session tree steps)[0]? = some (.ok .done, after) := rfl
  refine ⟨hdone, ⟨_, rfl⟩, ?_⟩
  refine read_finish_of_apart (i := 0) rfl ⟨rfl, .int 7, {}, rfl⟩ hdone ?_
  intro later hlater u hu
  rcases List.mem_cons.mp hlater with rfl | hlater
  · cases hu.1
    decide
  · obtain rfl := List.mem_singleton.mp hlater
    cases hu.1
    decide

end JsonPointer
