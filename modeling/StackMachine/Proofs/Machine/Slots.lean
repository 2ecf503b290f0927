import StackMachine.Proofs.Machine.Interpreted
import StackMachine.Proofs.Machine.Sessions

/-! What a call leaves of its caller's part of the stack. All frames share one stack, and an operand
may be taken from below the frame of the function that takes it. A slot of the caller that no
instruction of the call takes keeps its value; one that is taken may be filled again, and then
nothing tells. A function that has eaten into its caller's part when it returns does not return. -/

namespace StackMachine

/-- How many values an instruction with this operand takes from the stack before it puts one there,
in a plain setting. -/
def Opcode.taken (operand : Int) : Opcode → Nat
  | .primitiveCall => if operand.toNat < 2 then 1 else 0
  | .functionReturn | .drop | .popLocal | .popParam | .not | .pushField => 1
  | .binary _ | .branch _ | .popField => 2
  | _ => 0

/-- How many values are taken in the next step. A call has its arguments for its own. -/
def State.taken (m : Setting) (u : State) : Nat :=
  match u.control with
  | .enter index =>
    match m.arena.functionRecord index with
    | .ok f => f.nparams.toNat
    | .error _ => 0
  | .execute a =>
    match a.fetch m.arena with
    | .ok (_, op, operand) => op.taken operand
    | .error _ => 0
  | .deliver _ => 0

namespace Action

/-- With more than `n` values above the slot `j`, the action leaves the slot alone, and more than
`n'` values above it. -/
def Spares {α : Type} (j n n' : Nat) (act : Action α) : Prop :=
  ∀ ⦃s : Store⦄ ⦃a : α⦄ ⦃s' : Store⦄, act s = .ok a s' → j + n < s.stack.height →
    s'.stack.values[j]? = s.stack.values[j]? ∧ j + n' < s'.stack.height

variable {α β : Type} {j n n' n'' : Nat}

theorem spares_pure (a : α) : Spares j n n (pure a) := by
  rintro s a s' ⟨⟩ h
  exact ⟨rfl, h⟩

theorem spares_throw (f : Fault) : Spares j n n' (throw f : Action α) := nofun

theorem Spares.bind {act : Action α} {next : α → Action β} (h : Spares j n n' act)
    (hn : ∀ a, Spares j n' n'' (next a)) : Spares j n n'' (act >>= next) := by
  intro s b s' hs hheight
  obtain ⟨a, t, hact, hnext⟩ := ok_of_bind hs
  obtain ⟨hslot, hroom⟩ := h hact hheight
  obtain ⟨hslot', hroom'⟩ := hn a hnext hroom
  exact ⟨hslot'.trans hslot, hroom'⟩

/-- An action that leaves the stack as it is. -/
theorem spares_of_stack {act : Action α} (h : ∀ {s a s'}, act s = .ok a s' → s'.stack = s.stack) :
    Spares j n n act := by
  intro s a s' hs hheight
  rw [h hs]
  exact ⟨rfl, hheight⟩

theorem spares_ofExcept (r : Except Fault α) : Spares j n n (MonadExcept.ofExcept r) := by
  cases r with
  | ok a => exact spares_pure a
  | error f => exact spares_throw f

section Stack

theorem spares_pop : Spares j (n + 1) n (liftStack Stack.pop) := by
  intro s v s' hs hheight
  simp only [liftStack, Stack.pop] at hs
  cases hback : s.stack.values.back? with
  | none =>
    rw [hback] at hs
    cases hs
  | some w =>
    rw [hback] at hs
    cases hs
    simp only [Stack.height, Array.size_pop] at hheight ⊢
    refine ⟨?_, by omega⟩
    rw [Array.getElem?_pop, if_pos (by omega)]

theorem spares_popTwo : Spares j (n + 2) n (liftStack Stack.popTwo) := by
  rw [Stack.popTwo, liftStack_bind]
  refine spares_pop.bind fun right => ?_
  rw [liftStack_bind]
  exact spares_pop.bind fun left => spares_pure _

theorem spares_drop : Spares j (n + 1) n (liftStack (discard Stack.pop)) := by
  rw [liftStack_discard]
  exact spares_pop.bind fun _ => spares_pure _

theorem spares_push (v : Value) : Spares j n n (liftStack (Stack.push v)) := by
  intro s x s' hs hheight
  rw [height_of_push hs, push_ok hs, Array.getElem?_push]
  have hne : j ≠ s.stack.values.size := by
    simp only [Stack.height] at hheight
    omega
  exact ⟨if_neg hne, by omega⟩

theorem spares_peek : Spares j n n (liftStack Stack.peek) := by
  refine spares_of_stack fun {s v s'} hs => ?_
  simp only [liftStack, Stack.peek] at hs
  cases hback : s.stack.values.back? <;> rw [hback] at hs <;> cases hs
  rfl

theorem spares_get (index : Nat) : Spares j n n (liftStack (Stack.get index)) := by
  refine spares_of_stack fun {s v s'} hs => ?_
  simp only [liftStack, Stack.get] at hs
  cases hget : s.stack.values[index]? <;> rw [hget] at hs <;> cases hs
  rfl

theorem spares_set {index : Nat} (h : j < index) (v : Value) :
    Spares j n n (liftStack (Stack.set index v)) := by
  intro s x s' hs hheight
  simp only [liftStack, Stack.set] at hs
  by_cases hlt : index < s.stack.height
  · rw [if_pos hlt] at hs
    cases hs
    simp only [Stack.height, Array.size_setIfInBounds]
    exact ⟨Array.getElem?_setIfInBounds_ne (Nat.ne_of_gt h), hheight⟩
  · rw [if_neg hlt] at hs
    cases hs

theorem spares_pushZeros (count : Nat) : Spares j n n (liftStack (Stack.pushZeros count)) := by
  intro s x s' hs hheight
  simp only [liftStack, Stack.pushZeros] at hs
  by_cases hroom : count ≤ s.stack.limit - s.stack.height
  · rw [if_pos hroom] at hs
    cases hs
    simp only [Stack.height, Array.size_append] at hheight ⊢
    exact ⟨Array.getElem?_append_left (by omega), by omega⟩
  · rw [if_neg hroom] at hs
    cases hs

theorem spares_restore {cursor : Nat} (h : j < cursor) :
    Spares j n 0 (liftStack (Stack.restore cursor)) := by
  intro s x s' hs hheight
  obtain ⟨hle, hvalues⟩ := restore_ok hs
  have htake : s'.stack.values.toList = s.stack.values.toList.take cursor := by simp [hvalues]
  rw [height_of_restore hs, ← Array.getElem?_toList, htake, List.getElem?_take_of_lt h,
    Array.getElem?_toList]
  exact ⟨rfl, h⟩

end Stack

section Heap

theorem spares_ofMemory (r : Except MemoryError α) : Spares j n n (ofMemory r) := by
  cases r with
  | ok a => exact spares_pure a
  | error e => exact spares_throw _

theorem spares_liftHeap (act : HeapOp α) : Spares j n n (liftHeap act) := by
  refine spares_of_stack fun {s a s'} hs => ?_
  simp only [liftHeap] at hs
  cases hact : act s.heap <;> rw [hact] at hs <;> cases hs
  rfl

theorem spares_get_store : Spares j n n (get : Action Store) :=
  spares_of_stack fun hs => by cases hs; rfl

theorem spares_lookupField (r : ObjectRef) (id : FieldId) : Spares j n n (lookupField r id) :=
  spares_get_store.bind fun _ => spares_ofMemory _

theorem spares_getField (r : ObjectRef) (slot : Nat) : Spares j n n (getField r slot) :=
  spares_get_store.bind fun _ => spares_ofMemory _

theorem spares_allocate : Spares j n n allocate := spares_of_stack fun hs => by cases hs; rfl

theorem spares_collect : Spares j n n collect := spares_of_stack fun hs => by cases hs; rfl

theorem spares_record (e : Event) : Spares j n n (record e) :=
  spares_of_stack fun hs => by cases hs; rfl

theorem spares_write (bytes : List UInt8) : Spares j n n (write bytes) := by
  refine spares_of_stack fun {s x s'} hs => ?_
  simp only [write] at hs
  split at hs <;> cases hs
  rfl

end Heap

section Instructions

open Machine

theorem Spares.ahead {act : Action Unit} (h : Spares j n n' act) :
    Spares j n n' (Machine.ahead act) := h.bind fun _ => spares_pure _

theorem spares_pushResult (r : Except Fault Value) : Spares j n n (pushResult r) :=
  (spares_ofExcept r).bind fun v => spares_push v

theorem spares_expectRef (op : Opcode) (v : Value) : Spares j n n (expectRef op v) := by
  cases v with
  | ref r => exact spares_pure r
  | _ => exact spares_throw _

theorem spares_load (slot : Except Fault Nat) :
    Spares j n n (do let slot ← ofExcept slot; liftStack do Stack.push (← Stack.get slot)) := by
  refine (spares_ofExcept slot).bind fun index => ?_
  rw [liftStack_bind]
  exact (spares_get index).bind fun v => spares_push v

theorem spares_store {slot : Except Fault Nat} (h : ∀ index, slot = .ok index → j < index) :
    Spares j (n + 1) n
      (do let slot ← ofExcept slot; liftStack do Stack.set slot (← Stack.pop)) := by
  cases slot with
  | error f => exact spares_throw f
  | ok index =>
    change Spares j (n + 1) n (liftStack do Stack.set index (← Stack.pop))
    rw [liftStack_bind]
    exact spares_pop.bind fun v => spares_set (h index rfl) v

theorem spares_pushField (id : FieldId) : Spares j (n + 1) n (Machine.pushField id) := by
  refine spares_pop.bind fun v => (spares_expectRef _ v).bind fun r => ?_
  refine (spares_lookupField r id).bind fun answer => ?_
  cases answer with
  | none => exact spares_throw _
  | some slot => exact (spares_getField r slot).bind fun v => spares_push v

theorem spares_popField (id : FieldId) : Spares j (n + 2) n (Machine.popField id) := by
  refine spares_peek.bind fun v => (spares_expectRef _ v).bind fun r => ?_
  refine (spares_lookupField r id).bind fun answer => ?_
  have hstore : ∀ slot, Spares j (n + 2) n (do
      discard <| liftStack Stack.pop
      let v ← liftStack Stack.pop
      setField r slot v) := by
    intro slot
    refine (spares_pop.bind fun _ => spares_pure _).bind fun _ => ?_
    exact spares_pop.bind fun v => spares_liftHeap _
  cases answer with
  | none => exact (spares_liftHeap _).bind hstore
  | some slot => exact hstore slot

theorem spares_printString (arena : Arena) :
    Spares j (n + 1) n (Comparison.printString arena) := by
  refine spares_pop.bind fun v => ?_
  cases v with
  | uint48 index =>
    refine (spares_ofExcept _).bind fun s => (spares_write _).bind fun _ => ?_
    exact spares_push _
  | _ => exact spares_throw _

theorem spares_printNumber : Spares j (n + 1) n Comparison.printNumber := by
  refine spares_pop.bind fun v => ?_
  cases v with
  | int48 n => exact (spares_write _).bind fun _ => spares_push _
  | _ => exact spares_throw _

theorem spares_printStack : Spares j n n Comparison.printStack := fun _ _ _ hs =>
  ((spares_write _).bind fun _ => spares_push _) hs

section Frames

variable {arena : Arena} {a : Activation} (hbase : j < a.base)
include hbase

theorem lt_of_localSlot {index slot : Nat} (h : a.localSlot index = .ok slot) : j < slot := by
  unfold Activation.localSlot at h
  split at h
  · cases h
    simp only [Activation.locals]
    omega
  · cases h

theorem lt_of_paramSlot {index slot : Nat} (h : a.paramSlot index = .ok slot) : j < slot := by
  unfold Activation.paramSlot at h
  split at h
  · cases h
    omega
  · cases h

/-- An instruction takes no more than it is said to; locals and parameters are in its own frame. -/
theorem spares_perform (op : Opcode) (operand : Int) :
    Spares j (op.taken operand) 0 (perform arena a op operand) := by
  cases op with
  | jump => exact spares_pure _
  | branch relation =>
    exact spares_popTwo.bind fun x => (spares_ofExcept _).bind fun _ => spares_pure _
  | duplicate =>
    have h : Spares j 0 0 (liftStack do Stack.push (← Stack.peek)) := by
      rw [liftStack_bind]
      exact spares_peek.bind fun v => spares_push v
    exact h.ahead
  | drop => exact spares_drop.ahead
  | pushLocal | pushParam => exact (spares_load _).ahead
  | popLocal => exact (spares_store fun _ => lt_of_localSlot hbase).ahead
  | popParam => exact (spares_store fun _ => lt_of_paramSlot hbase).ahead
  | pushInt | pushString => exact (spares_push _).ahead
  | binary op => exact (spares_popTwo.bind fun x => spares_pushResult _).ahead
  | not => exact (spares_pop.bind fun v => spares_pushResult _).ahead
  | newObject => exact (spares_allocate.bind fun r => spares_push _).ahead
  | pushField => exact (spares_pushField _).ahead
  | popField => exact (spares_popField _).ahead
  | collect => exact spares_collect.ahead
  | callIndirect | endSection | functionCall | functionReturn | primitiveCall =>
    exact spares_throw _

theorem spares_effect (op : Opcode) (operand : Int) :
    Spares j (op.taken operand) 0 (effect arena a op operand) := by
  unfold effect
  split
  · simp only [Opcode.taken]
    generalize operand.toNat = index
    match index with
    | 0 => exact (spares_printString arena).ahead
    | 1 => exact spares_printNumber.ahead
    | 2 => exact spares_printStack.ahead
    | index + 3 => exact Spares.ahead (spares_throw _)
  · exact spares_perform hbase op operand

theorem spares_closeFrame : Spares j 1 0 (closeFrame a) := by
  refine spares_pop.bind fun result => (spares_restore hbase).bind fun _ => ?_
  exact (spares_record _).bind fun _ => spares_pure _

end Frames

theorem spares_openFrame (arena : Arena) (index depth : Nat) :
    Spares j n n (openFrame arena index depth) := by
  have hrecord : Spares j n n (Machine.functionRecord arena index) :=
    spares_of_stack fun hs => congrArg Store.stack (functionRecord_ok hs).2
  have hbase : ∀ count, Spares j n n (argumentBase count) := fun count =>
    spares_of_stack fun hs => congrArg Store.stack (argumentBase_ok hs).2.2
  refine hrecord.bind fun f => (hbase _).bind fun base => (spares_pushZeros _).bind fun _ => ?_
  exact (spares_record _).bind fun _ => spares_pure _

end Instructions

end Action

namespace Machine

open StackMachine.Action

/-- The slot `j` has the value `x`, or the run is about to fail, and no function of the call has it
in its frame. -/
structure Keeps (j : Nat) (x : Option Value) (outer : List Frame) (u : State) : Prop where
  frames : ∃ inner, u.frames = inner ++ outer ∧ ∀ frame ∈ inner, j < frame.base
  control : ∀ a, u.control = .execute a → j < a.base
  slot : u.store.stack.values[j]? = x ∨ ∃ f, u.control = .deliver (.error f)

variable {m : Setting} {j : Nat} {x : Option Value} {outer : List Frame} {u v : State}

theorem Keeps.step (h : Keeps j x outer u) (hr : ¬ u.Returned outer.length)
    (hj : j + u.taken m < u.store.stack.height) (hmoves : Moves m u v) : Keeps j x outer v := by
  obtain ⟨⟨inner, hframes, hinner⟩, hcontrol, hslot⟩ := h
  -- a call that goes on has a frame of its own on top when an outcome is delivered to it
  have htop : ∀ {s depth frame frames outcome}, u = ⟨s, depth, frame :: frames, .deliver outcome⟩ →
      j < frame.base ∧ ∃ inner, frames = inner ++ outer ∧ ∀ frame ∈ inner, j < frame.base := by
    rintro s depth frame frames outcome rfl
    cases inner with
    | nil => exact absurd ⟨congrArg List.length hframes, rfl⟩ hr
    | cons top inner =>
      cases hframes
      obtain ⟨htop, hinner⟩ := List.forall_mem_cons.1 hinner
      exact ⟨htop, inner, rfl, hinner⟩
  cases hmoves with
  | opens hopen =>
    obtain ⟨hrecord, hle, hbase⟩ := openFrame_ok hopen
    simp only [State.taken, hrecord] at hj
    obtain ⟨hslot', -⟩ := spares_openFrame m.arena _ _ hopen hj
    refine ⟨⟨inner, hframes, hinner⟩, ?_, .inl (hslot'.trans (hslot.resolve_right nofun))⟩
    rintro a ⟨⟩
    omega
  | @calls _ frames a =>
    refine ⟨⟨.interpreted (a.advance 0) :: inner, congrArg _ hframes, ?_⟩, nofun, .inl ?_⟩
    · exact List.forall_mem_cons.2 ⟨hcontrol a rfl, hinner⟩
    · rw [report_stack]
      exact hslot.resolve_right nofun
  | @returns _ _ a i _ _ s _ hfetch hclose =>
    simp only [State.taken, hfetch] at hj
    rw [← report_stack m a i s] at hj hslot
    obtain ⟨hslot', -⟩ := spares_closeFrame (hcontrol a rfl) hclose hj
    exact ⟨⟨inner, hframes, hinner⟩, nofun, .inl (hslot'.trans (hslot.resolve_right nofun))⟩
  | @acts _ _ a i op operand _ s _ hfetch hop heffect =>
    simp only [State.taken, hfetch] at hj
    rw [← report_stack m a i s] at hj hslot
    obtain ⟨hslot', -⟩ := spares_effect (hcontrol a rfl) op operand heffect hj
    refine ⟨⟨inner, hframes, hinner⟩, ?_, .inl (hslot'.trans (hslot.resolve_right nofun))⟩
    rintro _ ⟨⟩
    exact hcontrol a rfl
  | resumes hpush =>
    obtain ⟨hbase, hframes⟩ := htop rfl
    obtain ⟨hslot', -⟩ := spares_push _ hpush hj
    refine ⟨hframes, ?_, .inl (hslot'.trans (hslot.resolve_right nofun))⟩
    rintro _ ⟨⟩
    exact hbase
  | fails => exact ⟨⟨inner, hframes, hinner⟩, nofun, .inr ⟨_, rfl⟩⟩
  | unwinds => exact ⟨(htop rfl).2, nofun, .inr ⟨_, rfl⟩⟩

section Calls

variable (hm : m.Plain) {s : Store} {depth : Nat} {frames : List Frame}
include hm

theorem keeps_of_inside {index : Nat}
    (hframes : ∀ frame ∈ frames, ∃ a, frame = .interpreted a)
    (hu : Inside m ⟨s, depth, frames, .enter index⟩ u)
    (hj : ∀ w, Inside m ⟨s, depth, frames, .enter index⟩ w →
      j + w.taken m < w.store.stack.height) :
    u.Interpreted ∧ Keeps j s.stack.values[j]? frames u := by
  induction hu with
  | start => exact ⟨hframes, ⟨[], rfl, nofun⟩, nofun, .inl rfl⟩
  | @step u v hinside hr hstep ih =>
    obtain ⟨hinterpreted, hkeeps⟩ := ih
    have hmoves := moves_of_step hm hinterpreted hstep
    exact ⟨hmoves.interpreted hinterpreted, hkeeps.step hr (hj u hinside) hmoves⟩

omit hm in
/-- A result that is not above the frame cannot be returned. -/
theorem closeFrame_of_le {a : Activation} (h : s.stack.height ≤ a.base) :
    ∃ f s', (f = .stackUnderflow ∨ f = .invalidRestore a.base (s.stack.height - 1)) ∧
      closeFrame a s = .error f s' := by
  simp only [closeFrame, bind, EStateM.bind, liftStack, Stack.pop]
  cases hback : s.stack.values.back? with
  | none => exact ⟨_, _, .inl rfl, rfl⟩
  | some v =>
    have hpos : 0 < s.stack.values.size := by
      rw [Array.back?_eq_getElem?] at hback
      have hlt := (Array.getElem?_eq_some_iff.1 hback).1
      omega
    have hlow : ¬ a.base ≤ s.stack.values.size - 1 := by
      simp only [Stack.height] at h
      omega
    simp only [Stack.restore, Stack.height, Array.size_pop, if_neg hlow]
    exact ⟨_, _, .inr rfl, rfl⟩

theorem run_of_return_below {a : Activation} {i : Instruction} {operand : Int} {entry k : Nat}
    {start : Store} (hreach : after m k (call entry start) = some ⟨s, depth, frames, .execute a⟩)
    (hfetch : a.fetch m.arena = .ok (i, .functionReturn, operand)) (h : s.stack.height ≤ a.base) :
    ∃ f s', (f = .stackUnderflow ∨ f = .invalidRestore a.base (s.stack.height - 1)) ∧
      ∀ fuel, k + frames.length < fuel →
        run m fuel (call entry start) = some (.error f, s') := by
  rw [← report_stack m a i s] at h ⊢
  obtain ⟨f, s', hf, hclose⟩ := closeFrame_of_le h
  have hinterpreted := interpreted_of_after hm (u := call entry start) nofun hreach
  have hstep : step? m ⟨s, depth, frames, .execute a⟩ =
      some ⟨s', depth - 1, frames, .deliver (.error f)⟩ := by
    simp only [step?, execute, hfetch, dispatch, hclose, leave]
  refine ⟨f, s', hf, fun fuel hfuel => run_eq_some_iff.2 ⟨k + (frames.length + 1),
    depth - 1 - frames.length, by omega, ?_⟩⟩
  rw [after_add, hreach, Option.bind_some, after_of_step hstep]
  exact after_of_fault f s' (depth - 1) hinterpreted

/-- A call that returns leaves every slot of its caller alone that no instruction of the call takes.
A function that has eaten into its caller's part of the stack, and has put nothing in its place,
ends the run where it would return. -/
theorem call_keeps_slots {a : Activation} {entry k : Nat} {start : Store}
    (hreach : after m k (call entry start) = some ⟨s, depth, frames, .execute a⟩) :
    (∀ i operand u v, a.fetch m.arena = .ok (i, .functionCall, operand) →
      Inside m (execute m a s depth frames) u → u.Returned (frames.length + 1) →
      u.control = .deliver (.ok v) →
      ∃ r, m.arena.functionRecord operand.toNat = .ok r ∧ r.nparams.toNat ≤ s.stack.height ∧
        u.store.stack.height = s.stack.height - r.nparams.toNat ∧
        ∀ j < s.stack.height - r.nparams.toNat,
          (∀ w, Inside m (execute m a s depth frames) w →
            j + w.taken m < w.store.stack.height) →
          u.store.stack.values[j]? = s.stack.values[j]?) ∧
    ∀ i operand, a.fetch m.arena = .ok (i, .functionReturn, operand) → s.stack.height ≤ a.base →
      ∃ f s', (f = .stackUnderflow ∨ f = .invalidRestore a.base (s.stack.height - 1)) ∧
        ∀ fuel, k + frames.length < fuel →
          run m fuel (call entry start) = some (.error f, s') := by
  refine ⟨fun i operand u v hfetch hinside hr hv => ?_,
    fun i operand hfetch h => run_of_return_below hm hreach hfetch h⟩
  have hinterpreted := interpreted_of_after hm (u := call entry start) nofun hreach
  have hframes : ∀ frame ∈ .interpreted (a.advance 0) :: frames, ∃ a, frame = .interpreted a :=
    List.forall_mem_cons.2 ⟨⟨_, rfl⟩, hinterpreted⟩
  simp only [execute, hfetch, dispatch] at hinside ⊢
  obtain ⟨-, -, hresult⟩ := returned_of_inside hinside hr
  obtain ⟨r, hrecord, hle, hheight⟩ := hresult v hv
  rw [report_stack] at hle hheight
  refine ⟨r, hrecord, hle, hheight, fun j _ hj => ?_⟩
  obtain ⟨-, -, -, hslot⟩ := keeps_of_inside hm hframes hinside hj
  rw [report_stack] at hslot
  refine hslot.resolve_right ?_
  rintro ⟨f, hf⟩
  cases hv.symm.trans hf

end Calls

/-- Whether the states of a call that is made above so many frames all pass the test, up to its
return within `n` steps. -/
def everyInside (m : Setting) (frames : Nat) (p : State → Bool) : Nat → State → Bool
  | 0, u => p u && decide (u.Returned frames)
  | n + 1, u =>
    p u && (decide (u.Returned frames) || (step? m u).all (everyInside m frames p n))

theorem forall_of_everyInside {t : State} {p : State → Bool} {n : Nat}
    (h : everyInside m t.frames.length p n t) (hu : Inside m t u) : p u := by
  have hrest : ∃ n, everyInside m t.frames.length p n u := by
    induction hu with
    | start => exact ⟨n, h⟩
    | @step u v _ hr hstep ih =>
      obtain ⟨k, hk⟩ := ih
      cases k with
      | zero => simp [everyInside, hr] at hk
      | succ k =>
        simp only [everyInside, hr, hstep, Option.all_some, decide_false, Bool.false_or,
          Bool.and_eq_true] at hk
        exact ⟨k, hk.2⟩
  obtain ⟨k, hk⟩ := hrest
  cases k <;> simp only [everyInside, Bool.and_eq_true] at hk <;> exact hk.1

theorem exists_executing (x : Option State) (arena : Arena) (n base : Nat)
    (fetched : Instruction × Opcode × Int) (values : Array Value)
    (hstate : x.map (fun u => (u.frames.length, u.store.stack.values)) = some (n, values))
    (hcontrol : (x.bind (·.control.activation?)).map
      (fun a => (a.base, (a.fetch arena).toOption)) = some (base, some fetched)) :
    ∃ s depth frames a, x = some ⟨s, depth, frames, .execute a⟩ ∧ frames.length = n ∧
      a.base = base ∧ a.fetch arena = .ok fetched ∧ s.stack.values = values := by
  obtain ⟨⟨s, depth, frames, control⟩, rfl, hu⟩ := Option.map_eq_some_iff.1 hstate
  obtain ⟨a, ha, hactivation⟩ := Option.map_eq_some_iff.1 hcontrol
  obtain ⟨hlength, hvalues⟩ := Prod.mk.inj hu
  obtain ⟨hbase, hfetch⟩ := Prod.mk.inj hactivation
  obtain rfl := Control.eq_of_activation? ha
  refine ⟨s, depth, frames, a, rfl, hlength, hbase, ?_, hvalues⟩
  cases hf : a.fetch arena with
  | ok x =>
    rw [hf] at hfetch
    cases hfetch
    rfl
  | error f =>
    rw [hf] at hfetch
    cases hfetch

theorem length_frames_of_call {a : Activation} {i : Instruction} {operand : Int}
    (hfetch : a.fetch m.arena = .ok (i, .functionCall, operand)) {s : Store} {depth : Nat}
    {frames : List Frame} :
    (execute m a s depth frames).frames.length = frames.length + 1 := by
  simp only [execute, hfetch, dispatch, List.length_cons]

theorem exists_returned {x : Option State} {s : Store} {depth : Nat} {a : Activation}
    {i : Instruction} {operand : Int} (n : Nat) (v : Value) (values : Array Value)
    (hx : x = some ⟨s, depth, [], .execute a⟩)
    (hfetch : a.fetch m.arena = .ok (i, .functionCall, operand))
    (h : ((x.bind (step? m)).bind (return? m 1 n)).map
      (fun u => (u.control.value?, u.store.stack.values)) = some (some v, values)) :
    ∃ u, Inside m (execute m a s depth []) u ∧ u.Returned 1 ∧ u.control = .deliver (.ok v) ∧
      u.store.stack.values = values := by
  have hstep : x.bind (step? m) = some (execute m a s depth []) := by
    rw [hx]
    rfl
  have hlength : (execute m a s depth []).frames.length = 1 := length_frames_of_call hfetch
  rw [hstep, ← hlength] at h
  obtain ⟨u, hreturn, hu⟩ := Option.map_eq_some_iff.1 h
  obtain ⟨hvalue, hvalues⟩ := Prod.mk.inj hu
  obtain ⟨hinside, hreturned⟩ := inside_of_return? .start hreturn
  rw [hlength] at hreturned
  exact ⟨u, hinside, hreturned, Control.eq_of_value? hvalue, hvalues⟩

/-- A function that calls another one with a five on the stack, to return the five afterwards. -/
def lending (code : List Instruction) : Module where
  functions := [
    Func.ofBody "lends" 0 0
      [.make .pushInt 5, .make .functionCall 1, .make .drop 0, .make .functionReturn 0],
    Func.ofBody "borrows" 0 0 code]

/-- Leaves the five alone. -/
def tidy : Module := lending [.make .pushInt 9, .make .pushInt 1, .make .functionReturn 0]

/-- Takes the five. -/
def robbed : Module := lending [.make .drop 0, .make .pushInt 1, .make .functionReturn 0]

/-- Puts a nine in the place of the five. -/
def fooled : Module :=
  lending [.make .drop 0, .make .pushInt 9, .make .pushInt 1, .make .functionReturn 0]

def interpreted (m : Module) : Setting where
  module := m
  arena := .ofModule m
  compiled := .replicate 2 none
  primitives := .standard
  maxDepth := 8
  debug := false

def emptyStore : Store := ⟨.empty 8, .new 100, {}, {}⟩

theorem plain_interpreted (m : Module) : (interpreted m).Plain :=
  ⟨rfl, join_getElem?_replicate 2⟩

theorem call_keeps_slots_lending :
    (∃ s depth frames a u,
      after (interpreted tidy) 2 (call 0 emptyStore) = some ⟨s, depth, frames, .execute a⟩ ∧
      Inside (interpreted tidy) (execute (interpreted tidy) a s depth frames) u ∧
      u.Returned (frames.length + 1) ∧ u.control = .deliver (.ok (.int 1)) ∧
      u.store.stack.values[0]? = some (.int 5)) ∧
    ∃ f s', (f = .stackUnderflow ∨ f = .invalidRestore 1 0) ∧
      run (interpreted robbed) 8 (call 0 emptyStore) = some (.error f, s') := by
  constructor
  · obtain ⟨s, depth, frames, a, hreach, hlength, -, hfetch, hvalues⟩ :=
      exists_executing (after (interpreted tidy) 2 (call 0 emptyStore)) (interpreted tidy).arena
        0 0 (.make .functionCall 1, .functionCall, 1) #[.int 5] (by decide +kernel)
        (by decide +kernel)
    obtain rfl := List.eq_nil_of_length_eq_zero hlength
    obtain ⟨u, hinside, hreturned, hcontrol, -⟩ :=
      exists_returned 4 (.int 1) #[.int 5] hreach hfetch (by decide +kernel)
    obtain ⟨r, hr, -, hheight, hslots⟩ := (call_keeps_slots (plain_interpreted tidy) hreach).1
      _ _ u _ hfetch hinside hreturned hcontrol
    have htest : ((after (interpreted tidy) 2 (call 0 emptyStore)).bind
        (step? (interpreted tidy))).all (everyInside (interpreted tidy) 1
          (fun w => decide (0 + w.taken (interpreted tidy) < w.store.stack.height)) 4) := by
      decide +kernel
    have hlength' : (execute (interpreted tidy) a s depth []).frames.length = 1 :=
      length_frames_of_call hfetch
    rw [hreach, ← hlength'] at htest
    have hrecord : (interpreted tidy).arena.functionRecord 1 =
        .ok ⟨1, "borrows", 0, 0, 56, 4⟩ := by decide +kernel
    obtain rfl := Except.ok.inj (hr.symm.trans hrecord)
    have hslot := hslots 0 (by rw [Stack.height, hvalues]; decide) fun w hw =>
      of_decide_eq_true (forall_of_everyInside htest hw)
    rw [hvalues] at hslot
    exact ⟨s, depth, [], a, u, hreach, hinside, hreturned, hcontrol, hslot⟩
  · obtain ⟨s, depth, frames, a, hreach, hlength, hbase, hfetch, hvalues⟩ :=
      exists_executing (after (interpreted robbed) 6 (call 0 emptyStore)) (interpreted robbed).arena
        1 1 (.make .functionReturn 0, .functionReturn, 0) #[.int 1] (by decide +kernel)
        (by decide +kernel)
    have hheight : s.stack.height = 1 := by rw [Stack.height, hvalues]; rfl
    obtain ⟨f, s', hf, hrun⟩ := (call_keeps_slots (plain_interpreted robbed) hreach).2 _ _ hfetch
      (by rw [hheight, hbase])
    rw [hbase, hheight] at hf
    exact ⟨f, s', hf, hrun 8 (by omega)⟩

def fooledMachine : VirtualMachine := ((VirtualMachine.new {}).loadModule fooled).2

theorem fooledMachine_session : VirtualMachine.Session fooled fooledMachine ∧
    fooledMachine.loaded = some ⟨fooled, .ofModule fooled, .replicate 2 none⟩ := by
  have hverify : verify fooled 3 = .ok () := by decide +kernel
  have hload : (VirtualMachine.new {}).loadModule fooled = (.ok (), fooledMachine) :=
    Prod.ext (VirtualMachine.loadModule_of_verify hverify) rfl
  obtain ⟨log, hmachine⟩ := VirtualMachine.exists_of_load hload
  exact ⟨.loadModule ⟨rfl, _, rfl⟩ hload, by rw [hmachine]; rfl⟩

/-- Verified code may put another value in a slot of its caller, and return. -/
theorem not_keeps_slots :
    ¬ ∀ (mod : Module) (vm : VirtualMachine) (target : Target) (args : List Value) (m : Setting)
      (s : Store) (depth : Nat) (frames : List Frame) (a : Activation) (i : Instruction)
      (operand : Int) (u : State) (v : Value), verify mod 3 = .ok () →
      VirtualMachine.Session mod vm → vm.Visits target args m ⟨s, depth, frames, .execute a⟩ →
      a.fetch m.arena = .ok (i, .functionCall, operand) →
      Inside m (execute m a s depth frames) u → u.Returned (frames.length + 1) →
      u.control = .deliver (.ok v) →
      ∃ r, m.arena.functionRecord operand.toNat = .ok r ∧
        ∀ j < s.stack.height - r.nparams.toNat,
          u.store.stack.values[j]? = s.stack.values[j]? := by
  intro h
  obtain ⟨hsession, hloaded⟩ := fooledMachine_session
  let l : Loaded := ⟨fooled, .ofModule fooled, .replicate 2 none⟩
  let f : Func := Func.ofBody "lends" 0 0
    [.make .pushInt 5, .make .functionCall 1, .make .drop 0, .make .functionReturn 0]
  have hprepare : fooledMachine.prepare (.index 0) [] = .ok (l, 0, f) := by
    unfold VirtualMachine.prepare VirtualMachine.resolve
    rw [hloaded]
    rfl
  obtain ⟨s, depth, frames, a, hreach, hlength, -, hfetch, hvalues⟩ :=
    exists_executing ((fooledMachine.started f []).callState l 0 [] 2) l.arena 0 0
      (.make .functionCall 1, .functionCall, 1) #[.int 5] (by decide +kernel) (by decide +kernel)
  obtain rfl := List.eq_nil_of_length_eq_zero hlength
  obtain ⟨u, hinside, hreturned, hcontrol, hvalues'⟩ :=
    exists_returned (m := fooledMachine.setting l) 5 (.int 1) #[.int 9] hreach hfetch
      (by decide +kernel)
  obtain ⟨r, hr, hslots⟩ := h fooled fooledMachine (.index 0) [] (fooledMachine.setting l) s
    depth [] a _ _ u _ (by decide +kernel) hsession ⟨l, 0, f, 2, hprepare, rfl, hreach⟩ hfetch
    hinside hreturned hcontrol
  have hrecord : l.arena.functionRecord 1 = .ok ⟨1, "borrows", 0, 0, 56, 5⟩ := by
    decide +kernel
  obtain rfl := Except.ok.inj (hr.symm.trans hrecord)
  have hslot := hslots 0 (by rw [Stack.height, hvalues]; decide)
  rw [hvalues, hvalues'] at hslot
  exact absurd hslot (by decide)

end Machine

end StackMachine
