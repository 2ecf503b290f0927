import StackMachine.Proofs.Machine.Discipline

/-! A call within a run is a run of its own. No step looks below the innermost frame, so what a call
does does not depend on the calls that wait for it: a run that ends comes, at every call, to the end
of that call as it would be made with nobody waiting. -/

namespace StackMachine

/-- The state with further calls that wait, below its own. -/
def State.above (u : State) (frames : List Frame) : State :=
  { u with frames := u.frames ++ frames }

namespace Machine

open StackMachine.Action

section Steps

variable {m : Setting} {s : Store} {depth : Nat} {fs : List Frame} (frames : List Frame)

theorem runPrimitive_above (a : Activation) (p : Program Unit) :
    runPrimitive m a p s depth (fs ++ frames) = (runPrimitive m a p s depth fs).above frames := by
  unfold runPrimitive
  rcases p.advance m.module m.arena depth s with ⟨progress, s'⟩
  cases progress with
  | calls index next => rfl
  | finished result => cases result <;> rfl

theorem runCompiled_above (base : Nat) (p : Program Value) :
    runCompiled m base p s depth (fs ++ frames) =
      (runCompiled m base p s depth fs).above frames := by
  unfold runCompiled
  rcases p.advance m.module m.arena depth s with ⟨progress, s'⟩
  cases progress with
  | calls index next => rfl
  | finished result =>
    cases result with
    | error f => rfl
    | ok v =>
      dsimp only
      cases closeCompiled base v s' <;> rfl

theorem enter_above (index : Nat) :
    enter m index s depth (fs ++ frames) = (enter m index s depth fs).above frames := by
  unfold enter
  split
  · rfl
  · dsimp only
    cases m.compiled[index]?.join with
    | none =>
      dsimp only
      cases openFrame m.arena index (depth + 1) s <;> rfl
    | some function =>
      dsimp only
      cases openCompiled m.arena index s with
      | ok x t => exact runCompiled_above frames _ _
      | error f t => rfl

theorem execute_above (a : Activation) :
    execute m a s depth (fs ++ frames) = (execute m a s depth fs).above frames := by
  unfold execute
  cases a.fetch m.arena with
  | error f => rfl
  | ok x =>
    obtain ⟨i, op, operand⟩ := x
    dsimp only
    by_cases hcall : op = .functionCall
    · subst hcall
      rfl
    by_cases hreturn : op = .functionReturn
    · subst hreturn
      simp only [dispatch]
      cases closeFrame a (report m a i s) <;> rfl
    by_cases hprimitive : op = .primitiveCall
    · subst hprimitive
      simp only [dispatch]
      cases m.primitives[operand.toNat]? with
      | some p => exact runPrimitive_above frames _ _
      | none => rfl
    · rw [dispatch_of_stays ⟨hcall, hreturn, hprimitive⟩,
        dispatch_of_stays ⟨hcall, hreturn, hprimitive⟩]
      cases perform m.arena a op operand (report m a i s) <;> rfl

theorem deliver_above (outcome : Except Fault Value) (frame : Frame) :
    deliver m outcome s depth (fs ++ frames) frame =
      (deliver m outcome s depth fs frame).above frames := by
  cases frame with
  | primitive a next => exact runPrimitive_above frames _ _
  | compiled base next => exact runCompiled_above frames _ _
  | interpreted a =>
    cases outcome with
    | error f => rfl
    | ok v =>
      simp only [deliver]
      cases liftStack (Stack.push v) s <;> rfl

theorem step_above {u v : State} (h : step? m u = some v) :
    step? m (u.above frames) = some (v.above frames) := by
  obtain ⟨s, depth, fs, control⟩ := u
  cases control with
  | enter index =>
    cases h
    exact congrArg some (enter_above frames index)
  | execute a =>
    cases h
    exact congrArg some (execute_above frames a)
  | deliver outcome =>
    cases fs with
    | nil => cases h
    | cons frame fs =>
      cases h
      exact congrArg some (deliver_above frames outcome frame)

end Steps

section Calls

variable {m : Setting} {t u v : State} {n : Nat}

theorem Inside.of_after (hu : Inside m t u) (ht : t.frames = []) (h : after m n u = some v) :
    Inside m t v := by
  induction n generalizing u with
  | zero =>
    cases h
    exact hu
  | succ n ih =>
    obtain ⟨w, hstep, hafter⟩ := Option.bind_eq_some_iff.1 h
    refine ih (hu.step (fun hr => ?_) hstep) hafter
    -- with no frame left, a state in which a call has returned is the end
    obtain ⟨s, depth, fs, control⟩ := u
    rw [ht] at hr
    obtain rfl := List.length_eq_zero_iff.1 hr.1
    cases control with
    | enter | execute => cases hr.2
    | deliver outcome => cases hstep

/-- Above other frames, a run that ends comes to the end of the run without them. -/
theorem exists_end_of_above {frames : List Frame} (hv : step? m v = none)
    (h : after m n (u.above frames) = some v) :
    ∃ k w, k ≤ n ∧ after m k u = some w ∧ step? m w = none ∧
      after m (n - k) (w.above frames) = some v := by
  induction n generalizing u with
  | zero =>
    cases hu : step? m u with
    | none => exact ⟨0, u, Nat.le_refl _, rfl, hu, h⟩
    | some u' =>
      cases h
      rw [step_above frames hu] at hv
      cases hv
  | succ n ih =>
    cases hu : step? m u with
    | none => exact ⟨0, u, Nat.zero_le _, rfl, hu, h⟩
    | some u' =>
      rw [after_of_step (step_above frames hu)] at h
      obtain ⟨k, w, hk, hafter, hw, hrest⟩ := ih h
      refine ⟨k + 1, w, Nat.succ_le_succ hk, (after_of_step hu k).trans hafter, hw, ?_⟩
      rwa [Nat.add_sub_add_right]

/-- The end of a call, in a run that ends. -/
theorem exists_call_end {s : Store} {depth index : Nat} {frames : List Frame}
    (hv : step? m v = none) (h : after m n ⟨s, depth, frames, .enter index⟩ = some v) :
    ∃ k s' outcome, 0 < k ∧ k ≤ n ∧
      after m k ⟨s, depth, [], .enter index⟩ = some ⟨s', depth, [], .deliver outcome⟩ ∧
      after m (n - k) ⟨s', depth, frames, .deliver outcome⟩ = some v := by
  obtain ⟨k, w, hk, hafter, hw, hrest⟩ :=
    exists_end_of_above (u := ⟨s, depth, [], .enter index⟩) hv h
  obtain ⟨s', depth', outcome, rfl⟩ := exists_end_of_none hw
  obtain ⟨hdepth, -, -⟩ := returned_of_inside (Inside.start.of_after rfl hafter) ⟨rfl, rfl⟩
  cases hdepth
  refine ⟨k, s', outcome, Nat.pos_of_ne_zero ?_, hk, hafter, hrest⟩
  rintro rfl
  cases hafter

end Calls

end Machine

end StackMachine
