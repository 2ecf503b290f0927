import StackMachine.Proofs.Machine.Actions
import StackMachine.Proofs.Machine.Runs

/-! Invariants of the store. What no request of a program breaks, and no event in the log, is not
broken by a run, whatever the code, the primitives and the compiled functions are. The first of them
is that the stack stays within its limit. -/

namespace StackMachine

namespace Action

/-- The invariant holds after the action if it holds before it, whether the action faults or not. -/
def Preserves (I : Store → Prop) {α : Type} (act : Action α) : Prop :=
  ∀ s, I s → I (Program.attempt act s).2

end Action

/-- What a program can do to the store, and an event in the log, keep to the invariant. -/
structure Store.Invariant (I : Store → Prop) : Prop where
  push (v : Value) : Action.Preserves I (Action.liftStack (Stack.push v))
  pop : Action.Preserves I (Action.liftStack Stack.pop)
  pushZeros (n : Nat) : Action.Preserves I (Action.liftStack (Stack.pushZeros n))
  restore (cursor : Nat) : Action.Preserves I (Action.liftStack (Stack.restore cursor))
  set (index : Nat) (v : Value) : Action.Preserves I (Action.liftStack (Stack.set index v))
  allocate (roots : Array Value) (log : Log) {s : Store} :
    I s → I { s with heap := (s.heap.allocate roots).2.1, log }
  addField (r : ObjectRef) (id : FieldId) : Action.Preserves I (Action.addField r id)
  setField (r : ObjectRef) (slot : Nat) (v : Value) :
    Action.Preserves I (Action.setField r slot v)
  collect (roots : Array Value) (log : Log) {s : Store} :
    I s → I { s with heap := (s.heap.collect roots).2, log }
  write (bytes : List UInt8) : Action.Preserves I (Action.write bytes)
  log (log : Log) {s : Store} : I s → I { s with log }

namespace Action

variable {I : Store → Prop} {α β : Type} {act : Action α} {s t : Store}

theorem preserves_pure (a : α) : Preserves I (pure a) := fun _ h => h

theorem preserves_throw (f : Fault) : Preserves I (throw f : Action α) := fun _ h => h

theorem Preserves.bind {next : α → Action β} (h : Preserves I act)
    (hn : ∀ a, Preserves I (next a)) : Preserves I (act >>= next) := by
  intro s hs
  have hmid := h s hs
  simp only [Program.attempt, Bind.bind, EStateM.bind] at hmid ⊢
  cases hact : act s with
  | ok a s' =>
    rw [hact] at hmid
    exact hn a s' hmid
  | error f s' =>
    rw [hact] at hmid
    exact hmid

theorem Preserves.of_ok (h : Preserves I act) (hs : I s) {a : α} (ha : act s = .ok a t) : I t := by
  have ht := h s hs
  rwa [Program.attempt, ha] at ht

theorem Preserves.of_error (h : Preserves I act) (hs : I s) {f : Fault} (hf : act s = .error f t) :
    I t := by
  have ht := h s hs
  rwa [Program.attempt, hf] at ht

/-- An action that only looks at the stack. -/
theorem preserves_of_reads {op : StackOp α}
    (h : ∀ t, (∃ a, op t = .ok a t) ∨ ∃ f, op t = .error f t) :
    Preserves I (liftStack op) := by
  intro s hs
  rcases h s.stack with ⟨a, ha⟩ | ⟨f, hf⟩
  · simpa only [Program.attempt, liftStack, ha] using hs
  · simpa only [Program.attempt, liftStack, hf] using hs

end Action

namespace Store.Invariant

open StackMachine.Action Machine

variable {I : Store → Prop} (hI : Store.Invariant I)
include hI

theorem rules : Action.Rules (Preserves I) where
  pure := preserves_pure
  throw := preserves_throw
  bind := Preserves.bind
  read h s hs := h s.stack s.heap s hs
  push := hI.push
  pop := hI.pop
  peek := preserves_of_reads fun t => by
    unfold Stack.peek
    cases t.values.back? with
    | some v => exact .inl ⟨v, rfl⟩
    | none => exact .inr ⟨_, rfl⟩
  pushZeros := hI.pushZeros
  cursorAt height := preserves_of_reads fun t => by
    unfold Stack.cursorAt
    split
    · exact .inl ⟨height, rfl⟩
    · exact .inr ⟨_, rfl⟩
  restore := hI.restore
  get index := preserves_of_reads fun t => by
    unfold Stack.get
    cases t.values[index]? with
    | some v => exact .inl ⟨v, rfl⟩
    | none => exact .inr ⟨_, rfl⟩
  set := hI.set
  addField := hI.addField
  setField := hI.setField
  allocate s hs := hI.allocate s.stack.values _ hs
  collect s hs := hI.collect s.stack.values _ hs
  record _ _ hs := hI.log _ hs

theorem advance {α : Type} (module : Module) (arena : Arena) (depth : Nat) (p : Program α)
    {s : Store} (hs : I s) : I (p.advance module arena depth s).2 := by
  -- each request keeps to the invariant, and the program goes on with its answer
  induction p generalizing s with
  | done result => exact hs
  | call index next => exact hs
  | view next ih => exact ih _ hs
  | flush next ih => exact ih _ hs
  | push v next ih => exact ih _ (hI.push v s hs)
  | pop next ih => exact ih _ (hI.pop s hs)
  | pushZeros n next ih => exact ih _ (hI.pushZeros n s hs)
  | restore cursor next ih => exact ih _ (hI.restore cursor s hs)
  | set index v next ih => exact ih _ (hI.set index v s hs)
  | allocate roots next ih => exact ih _ (hI.allocate roots _ hs)
  | addField r id next ih => exact ih _ (hI.addField r id s hs)
  | setField r slot v next ih => exact ih _ (hI.setField r slot v s hs)
  | collect roots next ih => exact ih _ (hI.collect roots _ hs)
  | write bytes next ih => exact ih _ (hI.write bytes s hs)

variable {m : Setting} {s : Store} {depth : Nat} {frames : List Frame}

theorem runPrimitive (a : Activation) (p : Program Unit) (hs : I s) :
    I (Machine.runPrimitive m a p s depth frames).store := by
  have h := hI.advance m.module m.arena depth p hs
  unfold Machine.runPrimitive
  rcases hp : p.advance m.module m.arena depth s with ⟨progress, s'⟩
  rw [hp] at h
  cases progress with
  | finished result => cases result <;> exact h
  | calls index next => exact h

theorem runCompiled (base : Nat) (p : Program Value) (hs : I s) :
    I (Machine.runCompiled m base p s depth frames).store := by
  have h := hI.advance m.module m.arena depth p hs
  unfold Machine.runCompiled
  rcases hp : p.advance m.module m.arena depth s with ⟨progress, s'⟩
  rw [hp] at h
  cases progress with
  | calls index next => exact h
  | finished result =>
    cases result with
    | error f => exact h
    | ok v =>
      dsimp only
      cases hclose : Machine.closeCompiled base v s' with
      | ok v' t => exact (hI.rules.closeCompiled base v).of_ok h hclose
      | error f t => exact (hI.rules.closeCompiled base v).of_error h hclose

theorem dispatch (a : Activation) (op : Opcode) (operand : Int) (hs : I s) :
    I (Machine.dispatch m a op operand s depth frames).store := by
  by_cases hcall : op = .functionCall
  · subst hcall
    exact hs
  by_cases hreturn : op = .functionReturn
  · subst hreturn
    simp only [Machine.dispatch]
    cases hclose : Machine.closeFrame a s with
    | ok v t => exact (hI.rules.closeFrame a).of_ok hs hclose
    | error f t => exact (hI.rules.closeFrame a).of_error hs hclose
  by_cases hprimitive : op = .primitiveCall
  · subst hprimitive
    simp only [Machine.dispatch]
    cases m.primitives[operand.toNat]? with
    | some p => exact hI.runPrimitive _ _ hs
    | none => exact hs
  · rw [dispatch_of_stays ⟨hcall, hreturn, hprimitive⟩]
    cases hperform : Machine.perform m.arena a op operand s with
    | ok offset t => exact (hI.rules.perform m.arena a op operand).of_ok hs hperform
    | error f t => exact (hI.rules.perform m.arena a op operand).of_error hs hperform

theorem enter (index : Nat) (hs : I s) : I (Machine.enter m index s depth frames).store := by
  unfold Machine.enter
  split
  · exact hs
  · dsimp only
    cases m.compiled[index]?.join with
    | none =>
      dsimp only
      cases hopen : Machine.openFrame m.arena index (depth + 1) s with
      | ok a t => exact (hI.rules.openFrame m.arena index (depth + 1)).of_ok hs hopen
      | error f t => exact (hI.rules.openFrame m.arena index (depth + 1)).of_error hs hopen
    | some function =>
      dsimp only
      cases hopen : Machine.openCompiled m.arena index s with
      | ok x t =>
        have ht := (hI.rules.openCompiled m.arena index).of_ok hs hopen
        exact hI.runCompiled _ _ ht
      | error f t => exact (hI.rules.openCompiled m.arena index).of_error hs hopen

theorem execute (a : Activation) (hs : I s) : I (Machine.execute m a s depth frames).store := by
  unfold Machine.execute
  cases a.fetch m.arena with
  | error f => exact hs
  | ok x =>
    obtain ⟨log, hreport⟩ := report_eq m a x.1 s
    simp only [hreport]
    exact hI.dispatch a _ _ (hI.log log hs)

theorem deliver (outcome : Except Fault Value) (frame : Frame) (hs : I s) :
    I (Machine.deliver m outcome s depth frames frame).store := by
  cases frame with
  | primitive a next => exact hI.runPrimitive _ _ hs
  | compiled base next => exact hI.runCompiled _ _ hs
  | interpreted a =>
    cases outcome with
    | error f => exact hs
    | ok v =>
      simp only [Machine.deliver]
      cases hpush : liftStack (Stack.push v) s with
      | ok u t => exact (hI.push v).of_ok hs hpush
      | error f t => exact (hI.push v).of_error hs hpush

theorem step {t u : State} (h : step? m t = some u) (ht : I t.store) : I u.store := by
  obtain ⟨s, depth, frames, control⟩ := t
  cases control with
  | enter index =>
    cases h
    exact hI.enter index ht
  | execute a =>
    cases h
    exact hI.execute a ht
  | deliver outcome =>
    cases frames with
    | nil => cases h
    | cons frame frames =>
      cases h
      exact hI.deliver outcome frame ht

theorem after {n : Nat} {t u : State} (h : Machine.after m n t = some u) (ht : I t.store) :
    I u.store := by
  induction n generalizing t with
  | zero =>
    cases h
    exact ht
  | succ n ih =>
    obtain ⟨t', hstep, hafter⟩ := Option.bind_eq_some_iff.1 h
    exact ih hafter (hI.step hstep ht)

end Store.Invariant

/-- The stack has this limit, and is no higher. -/
def Stack.Within (limit : Nat) (t : Stack) : Prop := t.limit = limit ∧ t.height ≤ limit

namespace Action

variable {limit : Nat} {α : Type} {act : Action α}

theorem preserves_of_stack {P : Stack → Prop}
    (h : ∀ s, (Program.attempt act s).2.stack = s.stack) :
    Preserves (fun s => P s.stack) act := by
  intro s hs
  rwa [h s]

/-- An action that changes the stack on a condition, and faults without it. -/
theorem preserves_of_guard {P : Stack → Prop} {c : Stack → Prop} [DecidablePred c]
    {f : Stack → Fault} {next : Stack → Stack} (h : ∀ t, P t → c t → P (next t)) :
    Preserves (fun s => P s.stack)
      (liftStack fun t => if c t then .ok () (next t) else .error (f t) t) := by
  intro s hs
  simp only [Program.attempt, liftStack]
  by_cases hc : c s.stack
  · rw [if_pos hc]
    exact h s.stack hs hc
  · rw [if_neg hc]
    exact hs

theorem within_push (v : Value) :
    Preserves (fun s => s.stack.Within limit) (liftStack (Stack.push v)) :=
  preserves_of_guard fun t ht hroom => by
    refine ⟨ht.1, ?_⟩
    rw [ht.1] at hroom
    rw [Stack.height, Array.size_push]
    exact hroom

theorem within_pushZeros (n : Nat) :
    Preserves (fun s => s.stack.Within limit) (liftStack (Stack.pushZeros n)) :=
  preserves_of_guard fun t ⟨hlimit, hheight⟩ hroom => by
    refine ⟨hlimit, ?_⟩
    rw [hlimit] at hroom
    rw [Stack.height, Array.size_append, Array.size_replicate]
    exact Nat.add_le_of_le_sub' hheight hroom

theorem within_restore (cursor : Nat) :
    Preserves (fun s => s.stack.Within limit) (liftStack (Stack.restore cursor)) :=
  preserves_of_guard fun t ht _ => by
    refine ⟨ht.1, Nat.le_trans ?_ ht.2⟩
    rw [Stack.height, Array.size_shrink]
    exact Nat.min_le_right _ _

theorem within_set (index : Nat) (v : Value) :
    Preserves (fun s => s.stack.Within limit) (liftStack (Stack.set index v)) :=
  preserves_of_guard fun _ ht _ => by
    refine ⟨ht.1, ?_⟩
    rw [Stack.height, Array.size_setIfInBounds]
    exact ht.2

theorem within_pop : Preserves (fun s => s.stack.Within limit) (liftStack Stack.pop) := by
  intro s hs
  simp only [Program.attempt, liftStack, Stack.pop]
  cases s.stack.values.back? with
  | none => exact hs
  | some v =>
    refine ⟨hs.1, Nat.le_trans ?_ hs.2⟩
    simp only [Stack.height, Array.size_pop]
    exact Nat.sub_le _ _

theorem stack_liftHeap (act : HeapOp α) (s : Store) :
    (Program.attempt (liftHeap act) s).2.stack = s.stack := by
  simp only [Program.attempt, liftHeap]
  cases act s.heap <;> rfl

theorem stack_write (bytes : List UInt8) (s : Store) :
    (Program.attempt (write bytes) s).2.stack = s.stack := by
  simp only [Program.attempt, write]
  rcases s.output.write bytes with ⟨_ | _, _⟩ <;> rfl

theorem invariant_within (limit : Nat) : Store.Invariant fun s => s.stack.Within limit where
  push := within_push
  pop := within_pop
  pushZeros := within_pushZeros
  restore := within_restore
  set := within_set
  allocate _ _ _ hs := hs
  addField _ _ := preserves_of_stack (stack_liftHeap _)
  setField _ _ _ := preserves_of_stack (stack_liftHeap _)
  collect _ _ _ hs := hs
  write bytes := preserves_of_stack (stack_write bytes)
  log _ _ hs := hs

end Action

end StackMachine
