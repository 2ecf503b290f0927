import StackMachine.Proofs.Machine.Primitives
import StackMachine.Proofs.Machine.Runs

/-! Two runs in step. States agree when their frames wait for the same calls and their controls do
the same; every step keeps that, as long as no heap has more slots than handles can name. So two
runs from states that agree end after the same number of steps, or never, and end alike. -/

namespace StackMachine

open Machine

def Activation.PrintsStack (a : Activation) (arena : Arena) : Prop :=
  ∃ i operand, a.fetch arena = .ok (i, .primitiveCall, operand) ∧ operand.toNat = 2

def State.PrintsStack (s : State) (m : Setting) : Prop :=
  ∃ a, s.control = .execute a ∧ a.PrintsStack m.arena

/-- Every slot of the heap has a number that a handle can carry. -/
def State.Roomy (s : State) : Prop := s.store.heap.slots.size ≤ 0x100000000

namespace Comparison

variable (K : Comparison)

inductive Frames : Frame → Frame → Prop
  | interpreted {a₁ a₂ : Activation} : K.code a₁ a₂ → Frames (.interpreted a₁) (.interpreted a₂)

inductive Controls (pairs : ObjectRef → ObjectRef → Prop) : Control → Control → Prop
  | enter {i : Nat} : K.entry i → Controls pairs (.enter i) (.enter i)
  | execute {a₁ a₂ : Activation} : K.code a₁ a₂ → Controls pairs (.execute a₁) (.execute a₂)
  | deliver {v₁ v₂ : Value} :
      K.Values pairs v₁ v₂ → Controls pairs (.deliver (.ok v₁)) (.deliver (.ok v₂))

inductive States : State → State → Prop
  | going {pairs : ObjectRef → ObjectRef → Prop} {s₁ s₂ : Store} {depth : Nat}
      {fs₁ fs₂ : List Frame} {c₁ c₂ : Control} :
      K.Stores pairs (fun _ => True) s₁ s₂ → List.Forall₂ K.Frames fs₁ fs₂ →
      K.Controls pairs c₁ c₂ → States ⟨s₁, depth, fs₁, c₁⟩ ⟨s₂, depth, fs₂, c₂⟩
  | faulted {f : Fault} {s₁ s₂ : Store} {depth : Nat} {fs₁ fs₂ : List Frame} :
      K.allowed f → K.Kept s₁ s₂ → List.Forall₂ K.Frames fs₁ fs₂ →
      States ⟨s₁, depth, fs₁, .deliver (.error f)⟩ ⟨s₂, depth, fs₂, .deliver (.error f)⟩

variable {K} {pairs : ObjectRef → ObjectRef → Prop} {s₁ s₂ : Store} {depth : Nat}
  {fs₁ fs₂ : List Frame} {a₁ a₂ : Activation}

theorem States.output {u₁ u₂ : State} (h : K.States u₁ u₂) :
    K.outputs u₁.store.output u₂.store.output := by
  cases h with
  | going hs _ _ => exact hs.output
  | faulted _ hk _ =>
    obtain ⟨_, -, ho⟩ := hk
    exact ho

section Steps

variable (hK : K.Lawful) (hf : List.Forall₂ K.Frames fs₁ fs₂)

include hf in
theorem runPrimitive_alike {p : Program Unit} {act₁ act₂ : Action Unit}
    (h₁ : p.Does K.left.module K.left.arena depth act₁)
    (h₂ : p.Does K.right.module K.right.arena depth act₂)
    (h : K.Alike (K.Stores pairs fun _ => True) act₁ act₂
      (K.Returns pairs (fun _ => True) fun _ _ => True))
    (hs : K.Stores pairs (fun _ => True) s₁ s₂) (hc : K.code a₁ a₂) :
    K.States (runPrimitive K.left a₁ p s₁ depth fs₁) (runPrimitive K.right a₂ p s₂ depth fs₂) := by
  have hr := h hs
  simp only [runPrimitive, h₁ s₁, h₂ s₂, Program.attempt]
  generalize act₁ s₁ = r₁ at hr
  generalize act₂ s₂ = r₂ at hr
  cases hr with
  | ok hq => exact .going hq.2 hf (.execute hc)
  | error ha hk => exact .faulted ha hk hf

include hK

theorem closeFrame_alike (hbase : a₁.base = a₂.base) :
    K.Alike (K.Stores pairs fun _ => True) (closeFrame a₁) (closeFrame a₂)
      (K.Returns pairs (fun _ => True) (K.Values pairs)) := by
  unfold closeFrame
  rw [hbase]
  refine (pop_alike hK).bind fun v₁ v₂ hv => ?_
  refine (restore_alike hK _).bind fun _ _ _ => ?_
  exact (record_alike _ _).bind fun _ _ _ => Alike.pure hv

include hf

theorem primitiveCall_alike {n : Nat} (hn : n < 3 ∨ K.allowed (.unknownPrimitive n 3))
    (hprint : K.rigid ∨ K.Tolerant ∨ n ≠ 2) (hs : K.Stores pairs (fun _ => True) s₁ s₂)
    (hc : K.code a₁ a₂) :
    K.States
      (match K.left.primitives[n]? with
        | some p => runPrimitive K.left a₁ p.program s₁ depth fs₁
        | none => leave s₁ depth fs₁ (.error (.unknownPrimitive n K.left.primitives.length)))
      (match K.right.primitives[n]? with
        | some p => runPrimitive K.right a₂ p.program s₂ depth fs₂
        | none => leave s₂ depth fs₂ (.error (.unknownPrimitive n K.right.primitives.length))) := by
  rw [hK.primitives.1, hK.primitives.2]
  match n with
  | 0 =>
    exact runPrimitive_alike hf (does_printString _ _ _) (does_printString _ _ _)
      (printString_alike hK) hs hc
  | 1 =>
    exact runPrimitive_alike hf (does_printNumber _ _ _) (does_printNumber _ _ _)
      (printNumber_alike hK) hs hc
  | 2 =>
    have hlisting : K.rigid ∨ K.Tolerant := by simpa using hprint
    exact runPrimitive_alike hf (does_printStack _ _ _) (does_printStack _ _ _)
      (printStack_alike hK hlisting) hs hc
  | n + 3 =>
    have hallowed := hn.resolve_left (by omega)
    exact .faulted hallowed hs.kept hf

end Steps

theorem heap_newObject (arena : Arena) (a : Activation) (operand : Int) (s : Store) :
    (Program.attempt (perform arena a .newObject operand) s).2.heap =
      (s.heap.allocate s.stack.values).2.1 := by
  simp only [perform, ahead, Program.attempt, bind, EStateM.bind, allocate_eq, Action.liftStack,
    Stack.push]
  by_cases hroom : s.stack.height < s.stack.limit
  · simp only [if_pos hroom]
    rfl
  · simp only [if_neg hroom]

/-- The log is no part of the agreement. -/
theorem Stores.report (hs : K.Stores pairs (fun _ => True) s₁ s₂) (m₁ m₂ : Setting)
    (i₁ i₂ : Instruction) :
    K.Stores pairs (fun _ => True) (report m₁ a₁ i₁ s₁) (report m₂ a₂ i₂ s₂) := by
  obtain ⟨log₁, h₁⟩ := Machine.report_eq m₁ a₁ i₁ s₁
  obtain ⟨log₂, h₂⟩ := Machine.report_eq m₂ a₂ i₂ s₂
  rw [h₁, h₂]
  exact ⟨hs.stack, hs.heap, hs.fact, hs.output⟩

theorem room_of_roomy {m : Setting} {a : Activation} {operand : Int} {s : Store} {depth : Nat}
    {frames : List Frame} (h : (dispatch m a .newObject operand s depth frames).Roomy) :
    Room s := by
  have hheap := heap_newObject m.arena a operand s
  rw [dispatch_of_stays (by decide)] at h
  unfold Program.attempt at hheap
  unfold State.Roomy at h
  unfold Room
  cases hp : perform m.arena a .newObject operand s with
  | ok offset s' =>
    simp only [hp] at h hheap
    rwa [← hheap]
  | error f s' =>
    simp only [hp] at h hheap
    rwa [← hheap]

section Dispatch

variable (hK : K.Lawful) (hf : List.Forall₂ K.Frames fs₁ fs₂)
include hK hf

theorem dispatch_alike {op : Opcode} {operand : Int} (hbase : a₁.base = a₂.base)
    (ho : K.Operand a₁ a₂ operand op)
    (hl : ∀ offset, op.Lands operand offset → K.code (a₁.advance offset) (a₂.advance offset))
    (hs : K.Stores pairs (fun _ => True) s₁ s₂)
    (hprint : K.rigid ∨ K.Tolerant ∨ ¬ (op = .primitiveCall ∧ operand.toNat = 2))
    (hroom₁ : (dispatch K.left a₁ op operand s₁ depth fs₁).Roomy)
    (hroom₂ : (dispatch K.right a₂ op operand s₂ depth fs₂).Roomy) :
    K.States (dispatch K.left a₁ op operand s₁ depth fs₁)
      (dispatch K.right a₂ op operand s₂ depth fs₂) := by
  -- calls, returns and primitives change the frames; all other instructions are `perform`
  by_cases hcall : op = .functionCall
  · subst hcall
    exact .going hs (.cons (.interpreted (hl 0 rfl)) hf) (.enter ho)
  by_cases hreturn : op = .functionReturn
  · subst hreturn
    have hr := closeFrame_alike hK hbase hs
    simp only [dispatch]
    generalize closeFrame a₁ s₁ = r₁ at hr
    generalize closeFrame a₂ s₂ = r₂ at hr
    cases hr with
    | ok hq => exact .going hq.2 hf (.deliver hq.1)
    | error ha hk => exact .faulted ha hk hf
  by_cases hprimitive : op = .primitiveCall
  · subst hprimitive
    have hn : K.rigid ∨ K.Tolerant ∨ operand.toNat ≠ 2 := by simpa using hprint
    exact primitiveCall_alike hK hf ho hn hs (hl 0 rfl)
  · have hstays := And.intro hcall (And.intro hreturn hprimitive)
    have hroom : op = .newObject → Room s₁ ∧ Room s₂ := by
      rintro rfl
      exact ⟨room_of_roomy hroom₁, room_of_roomy hroom₂⟩
    have hr := perform_alike hK hstays ho ⟨hs, hroom⟩
    rw [dispatch_of_stays hstays, dispatch_of_stays hstays]
    generalize perform K.left.arena a₁ op operand s₁ = r₁ at hr
    generalize perform K.right.arena a₂ op operand s₂ = r₂ at hr
    cases hr with
    | ok hq =>
      obtain ⟨hoffset, hlands, pairs', hs'⟩ := hq
      subst hoffset
      exact .going hs' hf (.execute (hl _ hlands))
    | error ha hk => exact .faulted ha hk hf

theorem execute_alike (hc : K.code a₁ a₂) (hs : K.Stores pairs (fun _ => True) s₁ s₂)
    (hprint : K.rigid ∨ K.Tolerant ∨ ¬ a₁.PrintsStack K.left.arena)
    (hroom₁ : (execute K.left a₁ s₁ depth fs₁).Roomy)
    (hroom₂ : (execute K.right a₂ s₂ depth fs₂).Roomy) :
    K.States (execute K.left a₁ s₁ depth fs₁) (execute K.right a₂ s₂ depth fs₂) := by
  have hfetch := hK.fetch hc
  unfold execute at *
  unfold Activation.PrintsStack at hprint
  generalize a₁.fetch K.left.arena = x₁ at *
  generalize a₂.fetch K.right.arena = x₂ at *
  cases hfetch with
  | error ha => exact .faulted ha hs.kept hf
  | @ok x₁ x₂ hx =>
    obtain ⟨i₁, op, operand⟩ := x₁
    obtain ⟨i₂, op', operand'⟩ := x₂
    obtain ⟨⟨⟩, hbase, ho, hl⟩ := hx
    have hn : K.rigid ∨ K.Tolerant ∨ ¬ (op = .primitiveCall ∧ operand.toNat = 2) := by
      refine hprint.imp_right (Or.imp_right fun h => ?_)
      rintro ⟨rfl, hn⟩
      exact h ⟨_, _, rfl, hn⟩
    exact dispatch_alike hK hf hbase ho hl (hs.report _ _ _ _) hn hroom₁ hroom₂

end Dispatch

section Calls

variable (hK : K.Lawful)
include hK

theorem functionRecord_alike {i : Nat} (hi : K.entry i) :
    K.Alike (K.Stores pairs fun _ => True) (functionRecord K.left.arena i)
      (functionRecord K.right.arena i) (K.Returns pairs (fun _ => True) K.Opened) := by
  have hentry := hK.entry hi
  unfold functionRecord
  generalize K.left.arena.functionRecord i = x₁ at hentry
  generalize K.right.arena.functionRecord i = x₂ at hentry
  cases hentry with
  | ok h => exact Alike.pure h
  | error ha => exact Alike.throw ha

theorem argumentBase_alike (n : Nat) :
    K.Alike (K.Stores pairs fun _ => True) (argumentBase n) (argumentBase n)
      (K.Returns pairs (fun _ => True) Eq) := by
  have hheight : K.Alike (K.Stores pairs fun _ => True) Action.height Action.height
      (K.Returns pairs (fun _ => True) Eq) := fun _ _ hs => .ok ⟨hs.stack.size, hs⟩
  refine hheight.bind fun m m' hm => ?_
  subst hm
  split
  · exact Alike.pure rfl
  · exact Alike.throw (hK.ordinary rfl)

theorem openFrame_alike {i : Nat} (hi : K.entry i) (depth : Nat) :
    K.Alike (K.Stores pairs fun _ => True) (openFrame K.left.arena i depth)
      (openFrame K.right.arena i depth) (K.Returns pairs (fun _ => True) K.code) := by
  refine (functionRecord_alike hK hi).bind fun f₁ f₂ hopened => ?_
  rw [hopened.nparams, hopened.nlocals]
  refine (argumentBase_alike hK _).bind fun base base' hbase => ?_
  subst hbase
  refine (pushZeros_alike hK _).bind fun _ _ _ => ?_
  exact (record_alike _ _).bind fun _ _ _ => Alike.pure (hopened.code base)

theorem enter_alike {i : Nat} (hi : K.entry i) (hs : K.Stores pairs (fun _ => True) s₁ s₂)
    (hf : List.Forall₂ K.Frames fs₁ fs₂) :
    K.States (enter K.left i s₁ depth fs₁) (enter K.right i s₂ depth fs₂) := by
  unfold enter
  rw [(hK.interpreted i).1, (hK.interpreted i).2, hK.depth]
  by_cases hdepth : K.right.maxDepth ≤ depth
  · rw [if_pos hdepth, if_pos hdepth]
    exact .faulted (hK.ordinary rfl) hs.kept hf
  · rw [if_neg hdepth, if_neg hdepth]
    have hr := openFrame_alike hK hi (depth + 1) hs
    simp only
    generalize openFrame K.left.arena i (depth + 1) s₁ = r₁ at hr
    generalize openFrame K.right.arena i (depth + 1) s₂ = r₂ at hr
    cases hr with
    | ok hq => exact .going hq.2 hf (.execute hq.1)
    | error ha hk => exact .faulted ha hk hf

theorem deliver_alike {v₁ v₂ : Value} (hv : K.Values pairs v₁ v₂)
    (hs : K.Stores pairs (fun _ => True) s₁ s₂) (hf : List.Forall₂ K.Frames fs₁ fs₂)
    (hc : K.code a₁ a₂) :
    K.States (deliver K.left (.ok v₁) s₁ depth fs₁ (.interpreted a₁))
      (deliver K.right (.ok v₂) s₂ depth fs₂ (.interpreted a₂)) := by
  have hr := push_alike hK hv hs
  simp only [deliver]
  generalize Action.liftStack (Stack.push v₁) s₁ = r₁ at hr
  generalize Action.liftStack (Stack.push v₂) s₂ = r₂ at hr
  cases hr with
  | ok hq => exact .going hq.2 hf (.execute hc)
  | error ha hk => exact .faulted ha hk hf

/-- One step on each side, or none on either. -/
theorem step_alike {t₁ t₂ : State} (h : K.States t₁ t₂)
    (hprint : K.rigid ∨ K.Tolerant ∨ ¬ t₁.PrintsStack K.left) :
    Option.Rel (fun u₁ u₂ => u₁.Roomy → u₂.Roomy → K.States u₁ u₂) (step? K.left t₁)
      (step? K.right t₂) := by
  cases h with
  | going hs hf hc =>
    cases hc with
    | enter hi => exact .some fun _ _ => enter_alike hK hi hs hf
    | execute hc =>
      refine .some fun h₁ h₂ => execute_alike hK hf hc hs ?_ h₁ h₂
      exact hprint.imp_right (Or.imp_right fun h ha => h ⟨_, rfl, ha⟩)
    | deliver hv =>
      cases hf with
      | nil => exact .none
      | cons hframe hf =>
        cases hframe with
        | interpreted hc => exact .some fun _ _ => deliver_alike hK hv hs hf hc
  | faulted ha hk hf =>
    cases hf with
    | nil => exact .none
    | cons hframe hf =>
      cases hframe with
      | interpreted hc => exact .some fun _ _ => .faulted ha hk hf

/-- The states on both sides are named by the number of steps; `after` stops where a run ends. -/
theorem after_alike {t₁ t₂ : State} (h : K.States t₁ t₂)
    (hroom₁ : ∀ n u, after K.left n t₁ = some u → u.Roomy)
    (hroom₂ : ∀ n u, after K.right n t₂ = some u → u.Roomy)
    (hprint : K.rigid ∨ K.Tolerant ∨
      ∀ n u, after K.left n t₁ = some u → ¬ u.PrintsStack K.left) (n : Nat) :
    Option.Rel K.States (after K.left n t₁) (after K.right n t₂) := by
  induction n generalizing t₁ t₂ with
  | zero => exact .some h
  | succ n ih =>
    have hstep := step_alike hK h (hprint.imp_right (Or.imp_right fun hp => hp 0 t₁ rfl))
    cases h₁ : step? K.left t₁ with
    | none =>
      cases h₂ : step? K.right t₂ with
      | none =>
        simp only [after, h₁, h₂, Option.bind_none]
        exact .none
      | some u₂ =>
        rw [h₁, h₂] at hstep
        cases hstep
    | some u₁ =>
      cases h₂ : step? K.right t₂ with
      | none =>
        rw [h₁, h₂] at hstep
        cases hstep
      | some u₂ =>
        rw [h₁, h₂] at hstep
        cases hstep with
        | some hu =>
          rw [after_of_step h₁, after_of_step h₂]
          -- what is assumed of all later states holds one step on
          refine ih (hu (hroom₁ 1 u₁ ?_) (hroom₂ 1 u₂ ?_)) ?_ ?_ ?_
          · rw [after_of_step h₁]
            rfl
          · rw [after_of_step h₂]
            rfl
          · intro k u hk
            exact hroom₁ (k + 1) u ((after_of_step h₁ k).trans hk)
          · intro k u hk
            exact hroom₂ (k + 1) u ((after_of_step h₂ k).trans hk)
          · refine hprint.imp_right (Or.imp_right fun hp k u hk => ?_)
            exact hp (k + 1) u ((after_of_step h₁ k).trans hk)

end Calls

/-- Both runs are still under way, or both have ended alike. -/
inductive Outcomes (K : Comparison) : Option (Except Fault Value × Store) →
    Option (Except Fault Value × Store) → Prop
  | running : Outcomes K none none
  | value {pairs : ObjectRef → ObjectRef → Prop} {v₁ v₂ : Value} {s₁ s₂ : Store} :
      K.Values pairs v₁ v₂ → K.Stores pairs (fun _ => True) s₁ s₂ →
      Outcomes K (some (.ok v₁, s₁)) (some (.ok v₂, s₂))
  | fault {f : Fault} {s₁ s₂ : Store} :
      K.allowed f → K.Kept s₁ s₂ → Outcomes K (some (.error f, s₁)) (some (.error f, s₂))

theorem outcomes_of_ended {outcome₁ outcome₂ : Except Fault Value} {depth₁ depth₂ : Nat}
    (h : K.States ⟨s₁, depth₁, [], .deliver outcome₁⟩ ⟨s₂, depth₂, [], .deliver outcome₂⟩) :
    Outcomes K (some (outcome₁, s₁)) (some (outcome₂, s₂)) := by
  cases h with
  | faulted ha hk _ => exact .fault ha hk
  | going hs _ hc =>
    cases hc with
    | deliver hv => exact .value hv hs

theorem run_alike_of_none {t₁ t₂ : State} (h : K.States t₁ t₂) (h₁ : step? K.left t₁ = none)
    (h₂ : step? K.right t₂ = none) (fuel : Nat) :
    Outcomes K (run K.left fuel t₁) (run K.right fuel t₂) := by
  obtain ⟨s₁, depth₁, outcome₁, rfl⟩ := exists_end_of_none h₁
  obtain ⟨s₂, depth₂, outcome₂, rfl⟩ := exists_end_of_none h₂
  rw [run_of_end, run_of_end]
  exact outcomes_of_ended h

/-- Both states have a step, or neither has. -/
theorem step_cases {t₁ t₂ : State}
    (hafter : ∀ n, Option.Rel K.States (after K.left n t₁) (after K.right n t₂)) :
    step? K.left t₁ = none ∧ step? K.right t₂ = none ∨
      ∃ u₁ u₂, step? K.left t₁ = some u₁ ∧ step? K.right t₂ = some u₂ := by
  have h := hafter 1
  simp only [after] at h
  cases h₁ : step? K.left t₁ with
  | none =>
    cases h₂ : step? K.right t₂ with
    | none => exact .inl ⟨rfl, rfl⟩
    | some u₂ =>
      rw [h₁, h₂] at h
      cases h
  | some u₁ =>
    cases h₂ : step? K.right t₂ with
    | none =>
      rw [h₁, h₂] at h
      cases h
    | some u₂ => exact .inr ⟨u₁, u₂, rfl, rfl⟩

/-- States that agree after every number of steps end alike. -/
theorem run_alike {t₁ t₂ : State}
    (hafter : ∀ n, Option.Rel K.States (after K.left n t₁) (after K.right n t₂)) (fuel : Nat) :
    Outcomes K (run K.left fuel t₁) (run K.right fuel t₂) := by
  induction fuel generalizing t₁ t₂ with
  | zero =>
    rcases step_cases hafter with ⟨h₁, h₂⟩ | ⟨u₁, u₂, h₁, h₂⟩
    · cases hafter 0 with
      | some h => exact run_alike_of_none h h₁ h₂ 0
    · rw [(run_of_step h₁ 0).1, (run_of_step h₂ 0).1]
      exact .running
  | succ fuel ih =>
    rcases step_cases hafter with ⟨h₁, h₂⟩ | ⟨u₁, u₂, h₁, h₂⟩
    · cases hafter 0 with
      | some h => exact run_alike_of_none h h₁ h₂ (fuel + 1)
    · rw [(run_of_step h₁ fuel).2, (run_of_step h₂ fuel).2]
      refine ih fun n => ?_
      rw [← after_of_step h₁, ← after_of_step h₂]
      exact hafter (n + 1)

end Comparison

end StackMachine
