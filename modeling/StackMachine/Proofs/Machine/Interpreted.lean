import StackMachine.Proofs.Machine.Discipline
import StackMachine.Proofs.Machine.Primitives

/-! Code that is interpreted throughout. The standard primitives do not call, so a step opens or
closes a frame, or it executes one instruction, which is an action on the store. Every frame is that
of an interpreted function, and a fault ends the whole run. -/

namespace StackMachine

/-- No function is compiled, and the primitives are the standard ones. -/
structure Setting.Plain (m : Setting) : Prop where
  primitives : m.primitives = .standard
  interpreted : ∀ i : Nat, m.compiled[i]?.join = none

/-- Every call that waits is one that an interpreted function made itself. -/
def State.Interpreted (u : State) : Prop := ∀ frame ∈ u.frames, ∃ a, frame = .interpreted a

namespace Machine

open StackMachine.Action

def primitiveAction (arena : Arena) : Nat → Action Unit
  | 0 => Comparison.printString arena
  | 1 => Comparison.printNumber
  | 2 => Comparison.printStack
  | index => throw (.unknownPrimitive index 3)

/-- Executes an instruction that neither calls a function nor returns, in a plain setting. -/
def effect (arena : Arena) (a : Activation) (op : Opcode) (operand : Int) : Action Int :=
  match op with
  | .primitiveCall => ahead (primitiveAction arena operand.toNat)
  | op => perform arena a op operand

section Lands

variable {arena : Arena} {a : Activation} {op : Opcode} {operand offset : Int} {s s' : Store}

theorem ahead_ok {act : Action Unit} (h : ahead act s = .ok offset s') : offset = 0 := by
  obtain ⟨_, _, -, h⟩ := ok_of_bind h
  cases h
  rfl

/-- Only a jump does not go on with the next instruction. -/
theorem lands_of_effect (h : effect arena a op operand s = .ok offset s') :
    op.Lands operand offset := by
  cases op with
  | jump =>
    cases h
    rfl
  | branch relation =>
    obtain ⟨⟨left, right⟩, _, -, h⟩ := ok_of_bind h
    obtain ⟨taken, _, -, h⟩ := ok_of_bind h
    cases h
    cases taken with
    | true => exact .inr rfl
    | false => exact .inl rfl
  | callIndirect | endSection | functionCall | functionReturn => cases h
  | _ => exact ahead_ok h

end Lands

/-- What a step does in a plain setting. -/
inductive Moves (m : Setting) : State → State → Prop
  | opens {index depth : Nat} {frames : List Frame} {a : Activation} {s s' : Store} :
      openFrame m.arena index (depth + 1) s = .ok a s' →
      Moves m ⟨s, depth, frames, .enter index⟩ ⟨s', depth + 1, frames, .execute a⟩
  | calls {depth : Nat} {frames : List Frame} {a : Activation} {i : Instruction} {operand : Int}
      {s : Store} : a.fetch m.arena = .ok (i, .functionCall, operand) →
      Moves m ⟨s, depth, frames, .execute a⟩
        ⟨report m a i s, depth, .interpreted (a.advance 0) :: frames, .enter operand.toNat⟩
  | returns {depth : Nat} {frames : List Frame} {a : Activation} {i : Instruction} {operand : Int}
      {v : Value} {s s' : Store} : a.fetch m.arena = .ok (i, .functionReturn, operand) →
      closeFrame a (report m a i s) = .ok v s' →
      Moves m ⟨s, depth, frames, .execute a⟩ ⟨s', depth - 1, frames, .deliver (.ok v)⟩
  | acts {depth : Nat} {frames : List Frame} {a : Activation} {i : Instruction} {op : Opcode}
      {operand offset : Int} {s s' : Store} : a.fetch m.arena = .ok (i, op, operand) →
      op ≠ .functionCall ∧ op ≠ .functionReturn →
      effect m.arena a op operand (report m a i s) = .ok offset s' →
      Moves m ⟨s, depth, frames, .execute a⟩ ⟨s', depth, frames, .execute (a.advance offset)⟩
  | resumes {depth : Nat} {frames : List Frame} {a : Activation} {v : Value} {s s' : Store} :
      liftStack (Stack.push v) s = .ok () s' →
      Moves m ⟨s, depth, .interpreted a :: frames, .deliver (.ok v)⟩
        ⟨s', depth, frames, .execute a⟩
  | fails {depth depth' : Nat} {frames : List Frame} {control : Control} {f : Fault}
      {s s' : Store} : control.isDelivery = false →
      Moves m ⟨s, depth, frames, control⟩ ⟨s', depth', frames, .deliver (.error f)⟩
  | unwinds {depth depth' : Nat} {frame : Frame} {frames : List Frame} {f : Fault}
      {outcome : Except Fault Value} {s s' : Store} :
      Moves m ⟨s, depth, frame :: frames, .deliver outcome⟩
        ⟨s', depth', frames, .deliver (.error f)⟩

section Steps

variable {m : Setting} (hm : m.Plain) {u v : State}

theorem runPrimitive_of_does {a : Activation} {p : Program Unit} {act : Action Unit} {s : Store}
    {depth : Nat} {frames : List Frame} (h : p.Does m.module m.arena depth act) :
    runPrimitive m (a.advance 0) p s depth frames =
      match ahead act s with
      | .ok offset s => ⟨s, depth, frames, .execute (a.advance offset)⟩
      | .error f s => leave s depth frames (.error f) := by
  simp only [runPrimitive, h s, Program.attempt, ahead, bind, EStateM.bind]
  cases act s <;> rfl

include hm

theorem dispatch_plain {a : Activation} {op : Opcode}
    (hop : op ≠ .functionCall ∧ op ≠ .functionReturn) (operand : Int) (s : Store) (depth : Nat)
    (frames : List Frame) :
    dispatch m a op operand s depth frames =
      match effect m.arena a op operand s with
      | .ok offset s => ⟨s, depth, frames, .execute (a.advance offset)⟩
      | .error f s => leave s depth frames (.error f) := by
  by_cases hprimitive : op = .primitiveCall
  · subst hprimitive
    simp only [dispatch, effect, hm.primitives]
    rcases operand.toNat with _ | _ | _ | n
    · exact runPrimitive_of_does (Comparison.does_printString _ _ _)
    · exact runPrimitive_of_does (Comparison.does_printNumber _ _ _)
    · exact runPrimitive_of_does (Comparison.does_printStack _ _ _)
    · rfl
  · rw [dispatch_of_stays ⟨hop.1, hop.2, hprimitive⟩]
    have heffect : effect m.arena a op operand = perform m.arena a op operand := by
      unfold effect
      split
      · exact absurd rfl hprimitive
      · rfl
    generalize effect m.arena a op operand = act at heffect
    subst heffect
    rfl

theorem moves_execute (a : Activation) (s : Store) (depth : Nat) (frames : List Frame) :
    Moves m ⟨s, depth, frames, .execute a⟩ (execute m a s depth frames) := by
  unfold execute
  cases hfetch : a.fetch m.arena with
  | error f => exact .fails rfl
  | ok x =>
    obtain ⟨i, op, operand⟩ := x
    dsimp only
    by_cases hcall : op = .functionCall
    · subst hcall
      exact .calls hfetch
    by_cases hreturn : op = .functionReturn
    · subst hreturn
      simp only [dispatch]
      cases hclose : closeFrame a (report m a i s) with
      | ok v t => exact .returns hfetch hclose
      | error f t => exact .fails rfl
    · rw [dispatch_plain hm ⟨hcall, hreturn⟩]
      cases heffect : effect m.arena a op operand (report m a i s) with
      | ok offset t => exact .acts hfetch ⟨hcall, hreturn⟩ heffect
      | error f t => exact .fails rfl

theorem moves_enter (index : Nat) (s : Store) (depth : Nat) (frames : List Frame) :
    Moves m ⟨s, depth, frames, .enter index⟩ (enter m index s depth frames) := by
  unfold enter
  split
  · exact .fails rfl
  · simp only [hm.interpreted index]
    cases hopen : openFrame m.arena index (depth + 1) s with
    | ok a t => exact .opens hopen
    | error f t => exact .fails rfl

theorem moves_of_step (hu : u.Interpreted) (h : step? m u = some v) : Moves m u v := by
  obtain ⟨s, depth, frames, control⟩ := u
  cases control with
  | enter index =>
    cases h
    exact moves_enter hm index s depth frames
  | execute a =>
    cases h
    exact moves_execute hm a s depth frames
  | deliver outcome =>
    cases frames with
    | nil => cases h
    | cons frame frames =>
      obtain ⟨a, rfl⟩ := hu frame List.mem_cons_self
      cases h
      cases outcome with
      | error f => exact .unwinds
      | ok v =>
        simp only [deliver]
        cases hpush : liftStack (Stack.push v) s with
        | ok x t => exact .resumes hpush
        | error f t => exact .unwinds

end Steps

theorem Moves.interpreted {m : Setting} {u v : State} (h : Moves m u v) (hu : u.Interpreted) :
    v.Interpreted := by
  cases h with
  | opens | returns | acts | fails => exact hu
  | calls => exact List.forall_mem_cons.2 ⟨⟨_, rfl⟩, hu⟩
  | resumes | unwinds => exact (List.forall_mem_cons.1 hu).2

theorem interpreted_of_after {m : Setting} (hm : m.Plain) {n : Nat} {u v : State}
    (hu : u.Interpreted) (h : after m n u = some v) : v.Interpreted := by
  induction n generalizing u with
  | zero =>
    cases h
    exact hu
  | succ n ih =>
    obtain ⟨w, hstep, hafter⟩ := Option.bind_eq_some_iff.1 h
    exact ih ((moves_of_step hm hu hstep).interpreted hu) hafter

/-- A fault goes through all the frames to the end of the run. -/
theorem after_of_fault {m : Setting} (f : Fault) (s : Store) (depth : Nat) {frames : List Frame}
    (h : ∀ frame ∈ frames, ∃ a, frame = .interpreted a) :
    after m frames.length ⟨s, depth, frames, .deliver (.error f)⟩ =
      some ⟨s, depth - frames.length, [], .deliver (.error f)⟩ := by
  induction frames generalizing depth with
  | nil => rfl
  | cons frame frames ih =>
    obtain ⟨⟨a, rfl⟩, hframes⟩ := List.forall_mem_cons.1 h
    rw [List.length_cons, after_of_step rfl]
    rw [deliver, leave, ih (depth - 1) hframes, Nat.sub_sub, Nat.add_comm 1]

end Machine

end StackMachine
