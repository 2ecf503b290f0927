import StackMachine.Proofs.Lists
import StackMachine.Proofs.Machine.Runs

/-! The discipline of calls. Whatever a function leaves on the stack or takes from it, and whichever
faults it passes over on its way, a call that returns has replaced its arguments by nothing, and it
returns to the depth and to the frames that it was made at. Interpreted and compiled functions, and
primitives that call, are under one law: each goes on at its own depth above its own frames, or
calls, or is over. -/

namespace StackMachine

/-- Where the arguments of the function begin that waits here. -/
def Frame.base : Frame → Nat
  | .interpreted a => a.base
  | .primitive a _ => a.base
  | .compiled base _ => base

namespace Control

def isDelivery : Control → Bool
  | .deliver _ => true
  | _ => false

def value? : Control → Option Value
  | .deliver (.ok v) => some v
  | _ => none

def activation? : Control → Option Activation
  | .execute a => some a
  | _ => none

theorem eq_of_value? {c : Control} {v : Value} (h : c.value? = some v) : c = .deliver (.ok v) := by
  unfold value? at h
  split at h <;> cases h
  rfl

theorem eq_of_activation? {c : Control} {a : Activation} (h : c.activation? = some a) :
    c = .execute a := by
  unfold activation? at h
  split at h <;> cases h
  rfl

end Control

/-- A call is over that was made above so many frames. -/
def State.Returned (frames : Nat) (u : State) : Prop :=
  u.frames.length = frames ∧ u.control.isDelivery

instance (frames : Nat) (u : State) : Decidable (u.Returned frames) :=
  inferInstanceAs (Decidable (_ ∧ _))

namespace Action

variable {s s' : Store}

theorem push_ok {v : Value} {u : Unit} (h : liftStack (Stack.push v) s = .ok u s') :
    s'.stack.values = s.stack.values.push v := by
  simp only [liftStack, Stack.push] at h
  by_cases hroom : s.stack.height < s.stack.limit
  · rw [if_pos hroom] at h
    cases h
    rfl
  · rw [if_neg hroom] at h
    cases h

theorem height_of_push {v : Value} {u : Unit} (h : liftStack (Stack.push v) s = .ok u s') :
    s'.stack.height = s.stack.height + 1 := by
  rw [Stack.height, push_ok h, Array.size_push]
  rfl

theorem restore_ok {cursor : Nat} {u : Unit}
    (h : liftStack (Stack.restore cursor) s = .ok u s') :
    cursor ≤ s.stack.height ∧ s'.stack.values = s.stack.values.shrink cursor := by
  simp only [liftStack, Stack.restore] at h
  by_cases hle : cursor ≤ s.stack.height
  · rw [if_pos hle] at h
    cases h
    exact ⟨hle, rfl⟩
  · rw [if_neg hle] at h
    cases h

theorem height_of_restore {cursor : Nat} {u : Unit}
    (h : liftStack (Stack.restore cursor) s = .ok u s') : s'.stack.height = cursor := by
  obtain ⟨hle, hvalues⟩ := restore_ok h
  rw [Stack.height, hvalues, Array.size_shrink]
  exact Nat.min_eq_left hle

end Action

namespace Machine

open StackMachine.Action

/-- The states of the call that starts in `t`, from its start to its return. -/
inductive Inside (m : Setting) (t : State) : State → Prop
  | start : Inside m t t
  | step {u v : State} : Inside m t u → ¬ u.Returned t.frames.length → step? m u = some v →
      Inside m t v

/-- The state in which a call is over that was made above so many frames, if it comes within `n`
steps. -/
def return? (m : Setting) (frames : Nat) : Nat → State → Option State
  | 0, u => if u.Returned frames then some u else none
  | n + 1, u => if u.Returned frames then some u else (step? m u).bind (return? m frames n)

theorem inside_of_return? {m : Setting} {t u w : State} {n : Nat} (hu : Inside m t u)
    (h : return? m t.frames.length n u = some w) :
    Inside m t w ∧ w.Returned t.frames.length := by
  induction n generalizing u with
  | zero =>
    rw [return?] at h
    split at h
    · cases h
      exact ⟨hu, by assumption⟩
    · cases h
  | succ n ih =>
    rw [return?] at h
    split at h
    · cases h
      exact ⟨hu, by assumption⟩
    · obtain ⟨v, hstep, h⟩ := Option.bind_eq_some_iff.1 h
      exact ih (hu.step (by assumption) hstep) h

theorem exists_of_return? {m : Setting} {t : State} {n : Nat} {v : Value}
    (h : (return? m t.frames.length n t).map (·.control.value?) = some (some v)) :
    ∃ u, return? m t.frames.length n t = some u ∧ Inside m t u ∧ u.Returned t.frames.length ∧
      u.control = .deliver (.ok v) := by
  obtain ⟨u, hreturn, hu⟩ := Option.map_eq_some_iff.1 h
  obtain ⟨hinside, hreturned⟩ := inside_of_return? .start hreturn
  exact ⟨u, hreturn, hinside, hreturned, Control.eq_of_value? hu⟩

/-- What a function does next that works at this depth, above these frames, on arguments from `base`
on. -/
inductive Onward (base depth : Nat) (frames : List Frame) : State → Prop
  | executes {s : Store} {a : Activation} : a.base = base →
      Onward base depth frames ⟨s, depth, frames, .execute a⟩
  | calls {s : Store} {frame : Frame} {index : Nat} : frame.base = base →
      Onward base depth frames ⟨s, depth, frame :: frames, .enter index⟩
  | returns {s : Store} {v : Value} : s.stack.height = base →
      Onward base depth frames ⟨s, depth - 1, frames, .deliver (.ok v)⟩
  | fails {s : Store} {f : Fault} :
      Onward base depth frames ⟨s, depth - 1, frames, .deliver (.error f)⟩

section Closing

variable {s s' : Store}

theorem height_of_closeFrame {a : Activation} {v : Value} (h : closeFrame a s = .ok v s') :
    s'.stack.height = a.base := by
  obtain ⟨result, s₁, -, h⟩ := ok_of_bind h
  obtain ⟨_, s₂, hrestore, h⟩ := ok_of_bind h
  obtain ⟨_, _, ⟨⟩, h⟩ := ok_of_bind h
  cases h
  have hheight := height_of_restore hrestore
  exact hheight

theorem height_of_closeCompiled {base : Nat} {v v' : Value}
    (h : closeCompiled base v s = .ok v' s') : s'.stack.height = base := by
  obtain ⟨cursor, s₁, hcursor, h⟩ := ok_of_bind h
  obtain ⟨_, s₂, hrestore, h⟩ := ok_of_bind h
  cases h
  rw [height_of_restore hrestore]
  simp only [liftStack, Stack.cursorAt] at hcursor
  by_cases hle : base ≤ s.stack.height
  · rw [if_pos hle] at hcursor
    cases hcursor
    rfl
  · rw [if_neg hle] at hcursor
    cases hcursor

theorem argumentBase_ok {n base : Nat} (h : argumentBase n s = .ok base s') :
    n ≤ s.stack.height ∧ base = s.stack.height - n ∧ s' = s := by
  obtain ⟨height, s₁, ⟨⟩, h⟩ := ok_of_bind h
  by_cases hle : n ≤ s.stack.height
  · rw [if_pos hle] at h
    cases h
    exact ⟨hle, rfl, rfl⟩
  · rw [if_neg hle] at h
    cases h

theorem functionRecord_ok {arena : Arena} {index : Nat} {r : FuncRecord}
    (h : Machine.functionRecord arena index s = .ok r s') :
    arena.functionRecord index = .ok r ∧ s' = s := by
  unfold Machine.functionRecord at h
  cases hr : arena.functionRecord index with
  | ok f =>
    rw [hr] at h
    cases h
    exact ⟨rfl, rfl⟩
  | error e =>
    rw [hr] at h
    cases h

end Closing

section Steps

variable {m : Setting} {s : Store} {depth : Nat} {frames : List Frame}

theorem onward_runPrimitive (a : Activation) (p : Program Unit) :
    Onward a.base depth frames (runPrimitive m a p s depth frames) := by
  unfold runPrimitive
  rcases p.advance m.module m.arena depth s with ⟨progress, s'⟩
  cases progress with
  | calls index next => exact .calls rfl
  | finished result =>
    cases result with
    | ok u => exact .executes rfl
    | error f => exact .fails

theorem onward_runCompiled (base : Nat) (p : Program Value) :
    Onward base depth frames (runCompiled m base p s depth frames) := by
  unfold runCompiled
  rcases p.advance m.module m.arena depth s with ⟨progress, s'⟩
  cases progress with
  | calls index next => exact .calls rfl
  | finished result =>
    cases result with
    | error f => exact .fails
    | ok v =>
      dsimp only
      cases hclose : closeCompiled base v s' with
      | ok v' t => exact .returns (height_of_closeCompiled hclose)
      | error f t => exact .fails

theorem onward_dispatch (a : Activation) (op : Opcode) (operand : Int) :
    Onward a.base depth frames (dispatch m a op operand s depth frames) := by
  by_cases hcall : op = .functionCall
  · subst hcall
    exact .calls rfl
  by_cases hreturn : op = .functionReturn
  · subst hreturn
    simp only [dispatch]
    cases hclose : closeFrame a s with
    | ok v t => exact .returns (height_of_closeFrame hclose)
    | error f t => exact .fails
  by_cases hprimitive : op = .primitiveCall
  · subst hprimitive
    simp only [dispatch]
    cases m.primitives[operand.toNat]? with
    | some p => exact onward_runPrimitive (a.advance 0) _
    | none => exact .fails
  · rw [dispatch_of_stays ⟨hcall, hreturn, hprimitive⟩]
    cases perform m.arena a op operand s with
    | ok offset t => exact .executes rfl
    | error f t => exact .fails

theorem onward_execute (a : Activation) :
    Onward a.base depth frames (execute m a s depth frames) := by
  unfold execute
  cases a.fetch m.arena with
  | error f => exact .fails
  | ok x => exact onward_dispatch a _ _

theorem onward_deliver (outcome : Except Fault Value) (frame : Frame) :
    Onward frame.base depth frames (deliver m outcome s depth frames frame) := by
  cases frame with
  | primitive a next => exact onward_runPrimitive a _
  | compiled base next => exact onward_runCompiled base _
  | interpreted a =>
    cases outcome with
    | error f => exact .fails
    | ok v =>
      simp only [deliver]
      cases liftStack (Stack.push v) s with
      | ok u t => exact .executes rfl
      | error f t => exact .fails

theorem openFrame_ok {arena : Arena} {index : Nat} {a : Activation} {s' : Store}
    (h : openFrame arena index depth s = .ok a s') :
    arena.functionRecord index = .ok a.function ∧ a.function.nparams.toNat ≤ s.stack.height ∧
      a.base = s.stack.height - a.function.nparams.toNat := by
  obtain ⟨r, s₁, hrecord, hbody⟩ := ok_of_bind h
  obtain ⟨hr, rfl⟩ := functionRecord_ok hrecord
  obtain ⟨base, s₂, hbase, hrest⟩ := ok_of_bind hbody
  obtain ⟨hle, rfl, rfl⟩ := argumentBase_ok hbase
  obtain ⟨_, s₃, -, hend⟩ := ok_of_bind hrest
  obtain ⟨_, _, ⟨⟩, hend⟩ := ok_of_bind hend
  cases hend
  exact ⟨hr, hle, rfl⟩

theorem openCompiled_ok {arena : Arena} {index : Nat} {x : Nat × Array Value} {s' : Store}
    (h : openCompiled arena index s = .ok x s') :
    ∃ r, arena.functionRecord index = .ok r ∧ r.nparams.toNat ≤ s.stack.height ∧
      x.1 = s.stack.height - r.nparams.toNat := by
  obtain ⟨r, s₁, hrecord, hbody⟩ := ok_of_bind h
  obtain ⟨hr, rfl⟩ := functionRecord_ok hrecord
  obtain ⟨base, s₂, hbase, hrest⟩ := ok_of_bind hbody
  obtain ⟨hle, rfl, rfl⟩ := argumentBase_ok hbase
  obtain ⟨_, _, ⟨⟩, hend⟩ := ok_of_bind hrest
  obtain ⟨_, _, ⟨⟩, hend⟩ := ok_of_bind hend
  cases hend
  exact ⟨r, hr, hle, rfl⟩

/-- A function is entered only below the depth limit, and with all its arguments on the stack. -/
theorem enter_cases (index : Nat) :
    (∃ s' f, enter m index s depth frames = ⟨s', depth, frames, .deliver (.error f)⟩) ∨
      depth < m.maxDepth ∧ ∃ r, m.arena.functionRecord index = .ok r ∧
        r.nparams.toNat ≤ s.stack.height ∧
        Onward (s.stack.height - r.nparams.toNat) (depth + 1) frames
          (enter m index s depth frames) := by
  unfold enter
  by_cases hdepth : m.maxDepth ≤ depth
  · rw [if_pos hdepth]
    exact .inl ⟨_, _, rfl⟩
  rw [if_neg hdepth]
  dsimp only
  cases m.compiled[index]?.join with
  | none =>
    dsimp only
    cases hopen : openFrame m.arena index (depth + 1) s with
    | error f s' => exact .inl ⟨s', f, rfl⟩
    | ok a s' =>
      obtain ⟨hr, hle, hbase⟩ := openFrame_ok hopen
      exact .inr ⟨Nat.lt_of_not_le hdepth, _, hr, hle, .executes hbase⟩
  | some function =>
    dsimp only
    cases hopen : openCompiled m.arena index s with
    | error f s' => exact .inl ⟨s', f, rfl⟩
    | ok x s' =>
      obtain ⟨r, hr, hle, hbase⟩ := openCompiled_ok hopen
      refine .inr ⟨Nat.lt_of_not_le hdepth, r, hr, hle, ?_⟩
      rw [← hbase]
      exact onward_runCompiled _ _

end Steps

section Depth

variable {m : Setting} {base depth n : Nat} {frames : List Frame} {u v : State}

theorem Onward.depth_le (h : Onward base depth frames u) : u.depth ≤ depth := by
  cases h with
  | executes | calls => exact Nat.le_refl _
  | returns | fails => exact Nat.sub_le _ _

theorem depth_le_of_step (h : step? m u = some v) : v.depth ≤ max u.depth m.maxDepth := by
  obtain ⟨s, depth, frames, control⟩ := u
  cases control with
  | execute a =>
    cases h
    exact Nat.le_trans (onward_execute a).depth_le (Nat.le_max_left _ _)
  | enter index =>
    cases h
    rcases @enter_cases m s depth frames index with ⟨s', f, h⟩ | ⟨hdepth, r, -, -, h⟩
    · rw [h]
      exact Nat.le_max_left _ _
    · exact Nat.le_trans (Nat.le_trans h.depth_le hdepth) (Nat.le_max_right _ _)
  | deliver outcome =>
    cases frames with
    | nil => cases h
    | cons frame frames =>
      cases h
      exact Nat.le_trans (onward_deliver outcome frame).depth_le (Nat.le_max_left _ _)

theorem depth_le_of_after (h : after m n u = some v) : v.depth ≤ max u.depth m.maxDepth := by
  induction n generalizing u with
  | zero =>
    cases h
    exact Nat.le_max_left _ _
  | succ n ih =>
    obtain ⟨w, hstep, hafter⟩ := Option.bind_eq_some_iff.1 h
    have hw := depth_le_of_step hstep
    have hv := ih hafter
    omega

end Depth

/-- The function that works at this depth, above these frames, goes on, or it waits for a call that
is under way. -/
inductive Held : Nat → Nat → List Frame → State → Prop
  | onward {base depth : Nat} {frames : List Frame} {u : State} :
      Onward base depth frames u → Held base depth frames u
  | waits {base depth inner : Nat} {frame : Frame} {frames : List Frame} {u : State} :
      frame.base = base → Held inner (depth + 1) (frame :: frames) u → Held base depth frames u

section Calls

variable {m : Setting} {base depth : Nat} {frames : List Frame} {u v : State}

theorem Held.length_le (h : Held base depth frames u) : frames.length ≤ u.frames.length := by
  induction h with
  | onward h =>
    cases h with
    | calls => exact Nat.le_succ _
    | executes | returns | fails => exact Nat.le_refl _
  | waits _ _ ih => exact Nat.le_of_succ_le ih

theorem Held.of_returned (h : Held base depth frames u) (hr : u.Returned frames.length) :
    u.depth = depth - 1 ∧ u.frames = frames ∧
      ∀ v, u.control = .deliver (.ok v) → u.store.stack.height = base := by
  cases h with
  | onward h =>
    cases h with
    | executes => cases hr.2
    | calls => cases hr.2
    | returns hheight => exact ⟨rfl, rfl, fun _ _ => hheight⟩
    | fails => exact ⟨rfl, rfl, nofun⟩
  | waits _ h => exact absurd (hr.1 ▸ h.length_le) (Nat.not_succ_le_self _)

theorem Onward.step (h : Onward base depth frames u) (hr : ¬ u.Returned frames.length)
    (hs : step? m u = some v) : Held base depth frames v := by
  cases h with
  | returns | fails => exact absurd ⟨rfl, rfl⟩ hr
  | @executes s a hbase =>
    cases hs
    subst hbase
    exact .onward (onward_execute a)
  | @calls s frame index hframe =>
    cases hs
    rcases @enter_cases m s depth (frame :: frames) index with ⟨s', f, h⟩ | ⟨-, r, -, -, h⟩
    · rw [h]
      exact .waits hframe (@Held.onward 0 _ _ _ .fails)
    · exact .waits hframe (.onward h)

theorem Held.step (h : Held base depth frames u) (hr : ¬ u.Returned frames.length)
    (hs : step? m u = some v) : Held base depth frames v := by
  induction h with
  | onward h => exact h.step hr hs
  | @waits base depth inner frame frames u hframe h ih =>
    by_cases hinner : u.Returned (frames.length + 1)
    · -- the inner call is over, and its outcome goes to the frame that waits
      obtain ⟨hdepth, hframes, -⟩ := h.of_returned hinner
      obtain ⟨s, _, _, control⟩ := u
      cases hdepth
      cases hframes
      cases control with
      | enter | execute => cases hinner.2
      | deliver outcome =>
        cases hs
        subst hframe
        exact .onward (onward_deliver outcome frame)
    · exact .waits hframe (ih hinner hs)

variable {s : Store} {index : Nat}

theorem held_of_inside (h : Inside m ⟨s, depth, frames, .enter index⟩ u) :
    u = ⟨s, depth, frames, .enter index⟩ ∨
      (∃ s' f, u = ⟨s', depth, frames, .deliver (.error f)⟩) ∨
      ∃ r, m.arena.functionRecord index = .ok r ∧ r.nparams.toNat ≤ s.stack.height ∧
        Held (s.stack.height - r.nparams.toNat) (depth + 1) frames u := by
  induction h with
  | start => exact .inl rfl
  | step _ hr hs ih =>
    rcases ih with rfl | ⟨s', f, rfl⟩ | ⟨r, hrecord, hle, hheld⟩
    · cases hs
      rcases @enter_cases m s depth frames index with h | ⟨-, r, hrecord, hle, h⟩
      · exact .inr (.inl h)
      · exact .inr (.inr ⟨r, hrecord, hle, .onward h⟩)
    · exact absurd ⟨rfl, rfl⟩ hr
    · exact .inr (.inr ⟨r, hrecord, hle, hheld.step hr hs⟩)

/-- A call that returns is back at its depth and its frames; one with a result has cut off its
arguments and all above them. -/
theorem returned_of_inside (h : Inside m ⟨s, depth, frames, .enter index⟩ u)
    (hr : u.Returned frames.length) : u.depth = depth ∧ u.frames = frames ∧
      ∀ v, u.control = .deliver (.ok v) → ∃ r, m.arena.functionRecord index = .ok r ∧
        r.nparams.toNat ≤ s.stack.height ∧
        u.store.stack.height = s.stack.height - r.nparams.toNat := by
  rcases held_of_inside h with rfl | ⟨s', f, rfl⟩ | ⟨r, hrecord, hle, hheld⟩
  · cases hr.2
  · exact ⟨rfl, rfl, nofun⟩
  · obtain ⟨hdepth, hframes, hheight⟩ := hheld.of_returned hr
    exact ⟨hdepth, hframes, fun v hv => ⟨r, hrecord, hle, hheight v hv⟩⟩

end Calls

section Instructions
variable {m : Setting} {depth : Nat} {frames : List Frame} {u w : State} {s : Store}

theorem functionCall_height {a b : Activation} {i : Instruction} {operand : Int}
    (hfetch : a.fetch m.arena = .ok (i, .functionCall, operand))
    (h : Inside m (execute m a s depth frames) u) (hr : u.Returned (frames.length + 1))
    (hs : step? m u = some w) (hw : w.control = .execute b) :
    b = a.advance 0 ∧ w.depth = depth ∧ w.frames = frames ∧
      ∃ r, m.arena.functionRecord operand.toNat = .ok r ∧
        r.nparams.toNat ≤ s.stack.height ∧
        w.store.stack.height = s.stack.height - r.nparams.toNat + 1 := by
  simp only [execute, hfetch, dispatch] at h
  obtain ⟨hdepth, hframes, hheight⟩ := returned_of_inside h hr
  obtain ⟨s', _, _, control⟩ := u
  cases hdepth
  cases hframes
  cases control with
  | enter | execute => cases hr.2
  | deliver outcome =>
    cases outcome with
    | error f =>
      cases hs
      cases hw
    | ok v =>
      obtain ⟨r, hrecord, hle, hheight⟩ := hheight v rfl
      rw [report_stack] at hle hheight
      cases hpush : liftStack (Stack.push v) s' with
      | error f t =>
        simp only [step?, deliver, hpush] at hs
        cases hs
        cases hw
      | ok x t =>
        simp only [step?, deliver, hpush] at hs
        cases hs
        cases hw
        refine ⟨rfl, rfl, rfl, r, hrecord, hle, ?_⟩
        rw [height_of_push hpush]
        exact congrArg (· + 1) hheight

theorem invoke_cons {α : Type} (index : Nat) (v : Value) (args : List Value)
    (k : Value → Program α) :
    (Program.invoke index (v :: args) >>= k) = .push v fun
      | .ok () => Program.invoke index args >>= k
      | .error f => .fault f := by
  change Program.push v _ = _
  congr 1
  funext x
  cases x <;> rfl

/-- The first call of a program that invokes a function is that one, with the arguments pushed. -/
theorem calls_of_invoke {α : Type} {k : Value → Program α} {module : Module} {arena : Arena}
    {args : List Value} {index callee : Nat} {next : Except Fault Value → Program α} {s' : Store}
    (h : (Program.invoke index args >>= k).advance module arena depth s =
      (.calls callee next, s')) :
    callee = index ∧ s'.stack.height = s.stack.height + args.length ∧
      (∀ v, next (.ok v) = k v) ∧ ∀ f, next (.error f) = .fault f := by
  induction args generalizing s with
  | nil =>
    cases h
    exact ⟨rfl, rfl, fun _ => rfl, fun _ => rfl⟩
  | cons v args ih =>
    rw [invoke_cons] at h
    simp only [Program.advance, Program.attempt] at h
    cases hpush : liftStack (Stack.push v) s with
    | error f t =>
      rw [hpush] at h
      cases h
    | ok x t =>
      rw [hpush] at h
      obtain ⟨hcallee, hheight, hnext⟩ := ih h
      refine ⟨hcallee, ?_, hnext⟩
      rw [hheight, height_of_push hpush, List.length_cons]
      omega

end Instructions

/-- The law of calls, for any primitives and compiled functions. -/
theorem call_discipline (m : Setting) :
    -- a call that returns is at the depth where it was made, and one with a result has its
    -- arguments off the stack
    (∀ index s depth frames u, Inside m ⟨s, depth, frames, .enter index⟩ u →
      u.Returned frames.length → u.depth = depth ∧ u.frames = frames ∧
        ∀ v, u.control = .deliver (.ok v) → ∃ r, m.arena.functionRecord index = .ok r ∧
          r.nparams.toNat ≤ s.stack.height ∧
          u.store.stack.height = s.stack.height - r.nparams.toNat) ∧
    -- a call instruction puts the result in their place
    (∀ a b i operand s depth frames u w, a.fetch m.arena = .ok (i, .functionCall, operand) →
      Inside m (execute m a s depth frames) u → u.Returned (frames.length + 1) →
      step? m u = some w → w.control = .execute b →
        b = a.advance 0 ∧ w.depth = depth ∧ w.frames = frames ∧
        ∃ r, m.arena.functionRecord operand.toNat = .ok r ∧
          r.nparams.toNat ≤ s.stack.height ∧
          w.store.stack.height = s.stack.height - r.nparams.toNat + 1) ∧
    -- a program that invokes a function pushes its arguments first, and goes on with its result
    (∀ (α : Type) (k : Value → Program α) index args s depth callee next s' frames u v,
      (Program.invoke index args >>= k).advance m.module m.arena depth s =
        (.calls callee next, s') →
      Inside m ⟨s', depth, frames, .enter callee⟩ u → u.Returned frames.length →
      u.control = .deliver (.ok v) →
        next (.ok v) = k v ∧ ∃ r, m.arena.functionRecord index = .ok r ∧
          r.nparams.toNat ≤ s.stack.height + args.length ∧
          u.store.stack.height = s.stack.height + args.length - r.nparams.toNat) ∧
    -- and no state of a run is deeper than the limit
    ∀ index s n u, after m n (call index s) = some u → u.depth ≤ m.maxDepth := by
  refine ⟨fun index s depth frames u h hr => returned_of_inside h hr,
    fun a b i operand s depth frames u w hfetch h hr hs hw => functionCall_height hfetch h hr hs hw,
    fun α k index args s depth callee next s' frames u v hcalls h hr hv => ?_,
    fun index s n u h => ?_⟩
  · obtain ⟨rfl, hheight, hok, -⟩ := calls_of_invoke hcalls
    obtain ⟨-, -, hresult⟩ := returned_of_inside h hr
    rw [hheight] at hresult
    exact ⟨hok v, hresult v hv⟩
  · have hdepth := depth_le_of_after h
    simpa [call] using hdepth

/-- The second function is compiled: it invokes the third with an argument too many, passes over the
fault of the last, and leaves a value behind. -/
def native : CompiledFunction := fun args => do
  let v ← Program.invoke 2 (args.toList ++ [.int 5])
  Program.call 3 fun _ => .push v fun _ => .done (.ok v)

def mixed : Setting where
  module := {}
  arena := .ofModule { functions := [
    Func.ofBody "main" 0 0 [.make .pushInt 7, .make .functionCall 1, .make .functionReturn 0],
    Func.ofBody "native" 1 0 [],
    Func.ofBody "same" 1 0 [.make .pushParam 0, .make .functionReturn 0],
    Func.ofBody "fails" 0 0 [.make .callIndirect 0]] }
  compiled := #[none, some native, none, none]
  primitives := .standard
  maxDepth := 3
  debug := false

def mixedStore : Store := ⟨⟨#[.int 7], 8⟩, .new 100, {}, {}⟩

/-- The first function at its call of the second. -/
def mixedCaller : Activation := ⟨⟨0, "main", 0, 0, 16, 4⟩, 0, 1⟩

theorem nparams_mixed : ∀ index ∈ [1, 2], ∀ r, mixed.arena.functionRecord index = .ok r →
    r.nparams.toNat = 1 := by
  have hnative : mixed.arena.functionRecord 1 = .ok ⟨1, "native", 1, 0, 50, 1⟩ := by
    decide +kernel
  have hsame : mixed.arena.functionRecord 2 = .ok ⟨2, "same", 1, 0, 70, 3⟩ := by decide +kernel
  intro index hindex r hr
  rcases List.mem_pair.1 hindex with rfl | rfl
  · cases hr.symm.trans hnative
    rfl
  · cases hr.symm.trans hsame
    rfl

theorem call_discipline_mixed :
    (∃ u, Inside mixed ⟨mixedStore, 1, [], .enter 1⟩ u ∧ u.Returned 0 ∧
      u.control = .deliver (.ok (.int 5)) ∧ u.depth = 1 ∧ u.store.stack.height = 0) ∧
    (∃ u w, Inside mixed (execute mixed mixedCaller mixedStore 1 []) u ∧ u.Returned 1 ∧
      step? mixed u = some w ∧ w.control = .execute (mixedCaller.advance 0) ∧ w.depth = 1 ∧
      w.store.stack.height = 1) ∧
    (∃ next s' u, (Program.invoke 2 [.int 4, .int 5] >>= pure).advance mixed.module mixed.arena 1
        mixedStore = (.calls 2 next, s') ∧ Inside mixed ⟨s', 1, [], .enter 2⟩ u ∧
      u.Returned 0 ∧ u.control = .deliver (.ok (.int 5)) ∧
      next (.ok (.int 5)) = pure (.int 5) ∧ u.store.stack.height = 2) ∧
    ∃ u, after mixed 6 (call 0 mixedStore) = some u ∧ u.depth = 3 ∧ u.depth ≤ mixed.maxDepth := by
  obtain ⟨hcall, hinstruction, hinvoke, hdepth⟩ := call_discipline mixed
  refine ⟨?_, ?_, ?_, ?_⟩
  · obtain ⟨u, -, hinside, hreturned, hcontrol⟩ := exists_of_return? (m := mixed) (n := 8)
      (t := ⟨mixedStore, 1, [], .enter 1⟩) (v := .int 5) (by decide +kernel)
    obtain ⟨hd, -, hresult⟩ := hcall _ _ _ _ u hinside hreturned
    obtain ⟨r, hr, -, hheight⟩ := hresult _ hcontrol
    rw [nparams_mixed 1 (by decide) r hr] at hheight
    exact ⟨u, hinside, hreturned, hcontrol, hd, hheight⟩
  · obtain ⟨u, hreturn, hinside, hreturned, -⟩ := exists_of_return? (m := mixed) (n := 8)
      (t := execute mixed mixedCaller mixedStore 1 []) (v := .int 5) (by decide +kernel)
    have hnext : ((return? mixed 1 8 (execute mixed mixedCaller mixedStore 1 [])).bind
        (step? mixed)).map (·.control.activation?) = some (some (mixedCaller.advance 0)) := by
      decide +kernel
    rw [show return? mixed 1 8 _ = some u from hreturn] at hnext
    obtain ⟨w, hstep, hw⟩ := Option.map_eq_some_iff.1 hnext
    have hcontrol := Control.eq_of_activation? hw
    have hfetch : mixedCaller.fetch mixed.arena =
        .ok (.make .functionCall 1, .functionCall, 1) := by decide +kernel
    obtain ⟨-, hd, -, r, hr, -, hheight⟩ :=
      hinstruction _ _ _ _ _ _ _ u w hfetch hinside hreturned hstep hcontrol
    rw [nparams_mixed 1 (by decide) r hr] at hheight
    exact ⟨u, w, hinside, hreturned, hstep, hcontrol, hd, hheight⟩
  · let s' : Store := ⟨⟨#[.int 7, .int 4, .int 5], 8⟩, .new 100, {}, {}⟩
    obtain ⟨u, -, hinside, hreturned, hcontrol⟩ := exists_of_return? (m := mixed) (n := 3)
      (t := ⟨s', 1, [], .enter 2⟩) (v := .int 5) (by decide +kernel)
    obtain ⟨hnext, r, hr, -, hheight⟩ := hinvoke Value pure 2 [.int 4, .int 5] mixedStore 1 2 _ s'
      [] u _ rfl hinside hreturned hcontrol
    rw [nparams_mixed 2 (by decide) r hr] at hheight
    exact ⟨_, s', u, rfl, hinside, hreturned, hcontrol, hnext, hheight⟩
  · have hrun : (after mixed 6 (call 0 mixedStore)).map (·.depth) = some 3 := by
      decide +kernel
    obtain ⟨u, hafter, hu⟩ := Option.map_eq_some_iff.1 hrun
    exact ⟨u, hafter, hu, hdepth _ _ _ u hafter⟩

end Machine

end StackMachine
