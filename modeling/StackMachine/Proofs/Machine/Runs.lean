import StackMachine.Machine.Step

/-! Runs, step by step. A run gives a result just when some number of steps within its fuel leads to
a state without a step. -/

namespace StackMachine.Machine

/-- The state after `n` steps, if there are so many. -/
def after (m : Setting) : Nat → State → Option State
  | 0, s => some s
  | n + 1, s => (step? m s).bind (after m n)

variable {m : Setting} {s t : State}

theorem after_add (m : Setting) (k n : Nat) (s : State) :
    after m (k + n) s = (after m k s).bind (after m n) := by
  induction k generalizing s with
  | zero => rw [Nat.zero_add]; rfl
  | succ k ih =>
    rw [Nat.succ_add]
    simp only [after]
    cases step? m s with
    | none => rfl
    | some t => exact ih t

theorem after_of_step (hs : step? m s = some t) (n : Nat) : after m (n + 1) s = after m n t := by
  simp only [after, hs, Option.bind_some]

theorem after_of_none (hs : step? m s = none) {n : Nat} (hn : after m n s = some t) :
    n = 0 ∧ t = s := by
  cases n with
  | zero =>
    cases hn
    exact ⟨rfl, rfl⟩
  | succ n =>
    simp only [after, hs, Option.bind_none, reduceCtorEq] at hn

theorem run_of_end (fuel : Nat) (store : Store) (depth : Nat) (outcome : Except Fault Value) :
    run m fuel ⟨store, depth, [], .deliver outcome⟩ = some (outcome, store) := by
  cases fuel <;> rfl

theorem run_of_step (hs : step? m s = some t) (fuel : Nat) :
    run m 0 s = none ∧ run m (fuel + 1) s = run m fuel t := by
  have hne : ∀ store depth outcome, s ≠ ⟨store, depth, [], .deliver outcome⟩ := by
    rintro _ _ _ rfl
    cases hs
  constructor
  · unfold run
    split
    next => exact absurd rfl (hne _ _ _)
    next => rfl
    next h _ => cases h
  · rw [run, hs]
    exact fun _ _ _ h => hne _ _ _ h

theorem exists_end_of_none (hs : step? m s = none) :
    ∃ store depth outcome, s = ⟨store, depth, [], .deliver outcome⟩ := by
  obtain ⟨store, depth, frames, control⟩ := s
  cases control with
  | enter index => cases hs
  | execute a => cases hs
  | deliver outcome =>
    cases frames with
    | nil => exact ⟨store, depth, outcome, rfl⟩
    | cons frame frames => cases hs

variable {fuel : Nat} {outcome : Except Fault Value} {store : Store}

theorem run_eq_some_iff_of_none (hs : step? m s = none) :
    run m fuel s = some (outcome, store) ↔
      ∃ n depth, n ≤ fuel ∧ after m n s = some ⟨store, depth, [], .deliver outcome⟩ := by
  obtain ⟨store', depth, outcome', rfl⟩ := exists_end_of_none hs
  rw [run_of_end]
  constructor
  · rintro ⟨⟩
    exact ⟨0, depth, Nat.zero_le _, rfl⟩
  · rintro ⟨n, depth', -, hafter⟩
    obtain ⟨-, h⟩ := after_of_none hs hafter
    cases h
    rfl

theorem run_eq_some_iff :
    run m fuel s = some (outcome, store) ↔
      ∃ n depth, n ≤ fuel ∧ after m n s = some ⟨store, depth, [], .deliver outcome⟩ := by
  induction fuel generalizing s with
  | zero =>
    cases hs : step? m s with
    | none => exact run_eq_some_iff_of_none hs
    | some t =>
      rw [(run_of_step hs 0).1]
      constructor
      · intro h
        cases h
      · rintro ⟨n, depth, hn, hafter⟩
        obtain rfl : n = 0 := Nat.le_zero.1 hn
        cases hafter
        cases hs
  | succ fuel ih =>
    cases hs : step? m s with
    | none => exact run_eq_some_iff_of_none hs
    | some t =>
      rw [(run_of_step hs fuel).2, ih]
      constructor
      · rintro ⟨n, depth, hn, hafter⟩
        exact ⟨n + 1, depth, Nat.succ_le_succ hn, (after_of_step hs n).trans hafter⟩
      · rintro ⟨n, depth, hn, hafter⟩
        cases n with
        | zero =>
          cases hafter
          cases hs
        | succ n =>
          exact ⟨n, depth, Nat.le_of_succ_le_succ hn, (after_of_step hs n).symm.trans hafter⟩

/-- A run has one end only. -/
theorem end_unique {m : Setting} {u : State} {n k depth depth' : Nat} {s s' : Store}
    {outcome outcome' : Except Fault Value}
    (h : after m n u = some ⟨s, depth, [], .deliver outcome⟩)
    (h' : after m k u = some ⟨s', depth', [], .deliver outcome'⟩) :
    outcome = outcome' ∧ s = s' := by
  have hrun := run_eq_some_iff.2 ⟨n, depth, Nat.le_max_left n k, h⟩
  have hrun' := run_eq_some_iff.2 ⟨k, depth', Nat.le_max_right n k, h'⟩
  exact Prod.mk.inj (Option.some.inj (hrun.symm.trans hrun'))

/-- Only the log tells that an instruction was reported. -/
theorem report_eq (m : Setting) (a : Activation) (i : Instruction) (s : Store) :
    ∃ log, report m a i s = { s with log } := by
  unfold report
  split
  · exact ⟨_, rfl⟩
  · exact ⟨s.log, rfl⟩

@[simp]
theorem report_stack (m : Setting) (a : Activation) (i : Instruction) (s : Store) :
    (report m a i s).stack = s.stack := by
  obtain ⟨log, h⟩ := report_eq m a i s
  rw [h]

@[simp]
theorem report_heap (m : Setting) (a : Activation) (i : Instruction) (s : Store) :
    (report m a i s).heap = s.heap := by
  obtain ⟨log, h⟩ := report_eq m a i s
  rw [h]

theorem dispatch_of_stays {m : Setting} {a : Activation} {op : Opcode}
    (hop : op ≠ .functionCall ∧ op ≠ .functionReturn ∧ op ≠ .primitiveCall) (operand : Int)
    (s : Store) (depth : Nat) (frames : List Frame) :
    dispatch m a op operand s depth frames =
      match perform m.arena a op operand s with
      | .ok offset s => ⟨s, depth, frames, .execute (a.advance offset)⟩
      | .error f s => leave s depth frames (.error f) := by
  cases op with
  | functionCall => exact absurd rfl hop.1
  | functionReturn => exact absurd rfl hop.2.1
  | primitiveCall => exact absurd rfl hop.2.2
  | _ => rfl

end StackMachine.Machine
