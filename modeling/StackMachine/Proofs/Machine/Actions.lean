import StackMachine.Machine.Step

/-! What the machine does to the store is put together from a few basic actions. A property that
these have, and that a sequence has if its parts do, is one of every instruction, and of the opening
and the closing of a frame. -/

namespace StackMachine

namespace Action

theorem liftStack_bind {α β : Type} (x : StackOp α) (f : α → StackOp β) :
    liftStack (x >>= f) = liftStack x >>= fun a => liftStack (f a) := by
  funext s
  simp only [liftStack, bind, EStateM.bind]
  cases x s.stack <;> rfl

theorem liftStack_discard {α : Type} (x : StackOp α) :
    liftStack (discard x) = discard (liftStack x) := by
  funext s
  simp only [liftStack, discard, Functor.discard, Functor.mapConst, Function.comp, EStateM.map]
  cases x s.stack <;> rfl

end Action

/-- The property of actions holds of the basic ones, and of sequences of actions that have it. -/
structure Action.Closed (P : ∀ {α : Type}, Action α → Prop) : Prop where
  pure {α : Type} (a : α) : P (Pure.pure a : Action α)
  throw {α : Type} (f : Fault) : P (MonadExcept.throw f : Action α)
  bind {α β : Type} {act : Action α} {next : α → Action β} :
    P act → (∀ a, P (next a)) → P (act >>= next)
  /-- Stack and heap may be read, but not the output or the log. -/
  read {α : Type} {f : Stack → Heap → Action α} :
    (∀ t h, P (f t h)) → P (get >>= fun s => f s.stack s.heap)
  liftStack {α : Type} (act : StackOp α) : P (Action.liftStack act)
  addField (r : ObjectRef) (id : FieldId) : P (Action.addField r id)
  setField (r : ObjectRef) (slot : Nat) (v : Value) : P (Action.setField r slot v)
  allocate : P Action.allocate
  collect : P Action.collect
  record (e : Event) : P (Action.record e)

/-- The same, but of the actions on the stack only those that the machine makes are basic. -/
structure Action.Rules (P : ∀ {α : Type}, Action α → Prop) : Prop where
  pure {α : Type} (a : α) : P (Pure.pure a : Action α)
  throw {α : Type} (f : Fault) : P (MonadExcept.throw f : Action α)
  bind {α β : Type} {act : Action α} {next : α → Action β} :
    P act → (∀ a, P (next a)) → P (act >>= next)
  read {α : Type} {f : Stack → Heap → Action α} :
    (∀ t h, P (f t h)) → P (get >>= fun s => f s.stack s.heap)
  push (v : Value) : P (Action.liftStack (Stack.push v))
  pop : P (Action.liftStack Stack.pop)
  peek : P (Action.liftStack Stack.peek)
  pushZeros (n : Nat) : P (Action.liftStack (Stack.pushZeros n))
  cursorAt (height : Nat) : P (Action.liftStack (Stack.cursorAt height))
  restore (cursor : Nat) : P (Action.liftStack (Stack.restore cursor))
  get (index : Nat) : P (Action.liftStack (Stack.get index))
  set (index : Nat) (v : Value) : P (Action.liftStack (Stack.set index v))
  addField (r : ObjectRef) (id : FieldId) : P (Action.addField r id)
  setField (r : ObjectRef) (slot : Nat) (v : Value) : P (Action.setField r slot v)
  allocate : P Action.allocate
  collect : P Action.collect
  record (e : Event) : P (Action.record e)

theorem Action.Closed.rules {P : ∀ {α : Type}, Action α → Prop} (hP : Action.Closed P) :
    Action.Rules P where
  pure := hP.pure
  throw := hP.throw
  bind := hP.bind
  read := hP.read
  push _ := hP.liftStack _
  pop := hP.liftStack _
  peek := hP.liftStack _
  pushZeros _ := hP.liftStack _
  cursorAt _ := hP.liftStack _
  restore _ := hP.liftStack _
  get _ := hP.liftStack _
  set _ _ := hP.liftStack _
  addField := hP.addField
  setField := hP.setField
  allocate := hP.allocate
  collect := hP.collect
  record := hP.record

namespace Action.Rules

open Machine

variable {P : ∀ {α : Type}, Action α → Prop} (hP : Rules P) {α : Type}
include hP

theorem ofExcept (r : Except Fault α) : P (MonadExcept.ofExcept r : Action α) := by
  cases r with
  | ok a => exact hP.pure a
  | error f => exact hP.throw f

theorem ofMemory (r : Except MemoryError α) : P (Action.ofMemory r) := by
  cases r with
  | ok a => exact hP.pure a
  | error e => exact hP.throw _

theorem lookupField (r : ObjectRef) (id : FieldId) : P (Action.lookupField r id) :=
  hP.read (f := fun _ h => Action.ofMemory (h.lookupField r id)) fun _ _ => hP.ofMemory _

theorem getField (r : ObjectRef) (slot : Nat) : P (Action.getField r slot) :=
  hP.read (f := fun _ h => Action.ofMemory (h.getField r slot)) fun _ _ => hP.ofMemory _

theorem popTwo : P (Action.liftStack Stack.popTwo) := by
  rw [Stack.popTwo, liftStack_bind]
  refine hP.bind hP.pop fun right => ?_
  rw [liftStack_bind]
  exact hP.bind hP.pop fun left => hP.pure (left, right)

theorem discardPop : P (discard (Action.liftStack Stack.pop)) :=
  hP.bind hP.pop fun _ => hP.pure ()

/-- Reads a slot and pushes what is in it. -/
theorem load (slot : Nat) : P (Action.liftStack (Stack.get slot >>= Stack.push)) := by
  rw [liftStack_bind]
  exact hP.bind (hP.get slot) hP.push

theorem store (slot : Nat) : P (Action.liftStack (Stack.pop >>= Stack.set slot)) := by
  rw [liftStack_bind]
  exact hP.bind hP.pop (hP.set slot)

theorem expectRef (op : Opcode) (v : Value) : P (Machine.expectRef op v) := by
  cases v with
  | ref r => exact hP.pure r
  | _ => exact hP.throw _

theorem pushField (id : FieldId) : P (Machine.pushField id) := by
  refine hP.bind hP.pop fun v => hP.bind (hP.expectRef _ v) fun r => ?_
  refine hP.bind (hP.lookupField r id) fun answer => ?_
  cases answer with
  | none => exact hP.throw _
  | some slot => exact hP.bind (hP.getField r slot) hP.push

theorem popField (id : FieldId) : P (Machine.popField id) := by
  refine hP.bind hP.peek fun v => hP.bind (hP.expectRef _ v) fun r => ?_
  refine hP.bind (hP.lookupField r id) fun answer => ?_
  have hstore : ∀ slot, P (do
      discard <| Action.liftStack Stack.pop
      let v ← Action.liftStack Stack.pop
      Action.setField r slot v) := by
    intro slot
    exact hP.bind hP.discardPop fun _ => hP.bind hP.pop fun v => hP.setField r slot v
  cases answer with
  | none => exact hP.bind (hP.addField r id) hstore
  | some slot => exact hstore slot

theorem ahead {act : Action Unit} (h : P act) : P (Machine.ahead act) :=
  hP.bind h fun _ => hP.pure _

theorem pushResult (r : Except Fault Value) : P (Machine.pushResult r) :=
  hP.bind (hP.ofExcept r) hP.push

theorem perform (arena : Arena) (a : Activation) (op : Opcode) (operand : Int) :
    P (Machine.perform arena a op operand) := by
  cases op with
  | branch relation =>
    exact hP.bind hP.popTwo fun x => hP.bind (hP.ofExcept _) fun _ => hP.pure _
  | pushLocal | pushParam => exact hP.ahead (hP.bind (hP.ofExcept _) fun slot => hP.load slot)
  | popLocal | popParam => exact hP.ahead (hP.bind (hP.ofExcept _) fun slot => hP.store slot)
  | duplicate =>
    refine hP.ahead ?_
    rw [liftStack_bind]
    exact hP.bind hP.peek hP.push
  | drop =>
    refine hP.ahead ?_
    rw [liftStack_discard]
    exact hP.discardPop
  | pushInt | pushString => exact hP.ahead (hP.push _)
  | binary op => exact hP.ahead (hP.bind hP.popTwo fun _ => hP.pushResult _)
  | not => exact hP.ahead (hP.bind hP.pop fun _ => hP.pushResult _)
  | newObject => exact hP.ahead (hP.bind hP.allocate fun _ => hP.push _)
  | pushField => exact hP.ahead (hP.pushField _)
  | popField => exact hP.ahead (hP.popField _)
  | collect => exact hP.ahead hP.collect
  | jump => exact hP.pure _
  | callIndirect | endSection | functionCall | functionReturn | primitiveCall =>
    exact hP.throw _

theorem functionRecord (arena : Arena) (index : Nat) : P (Machine.functionRecord arena index) := by
  unfold Machine.functionRecord
  cases arena.functionRecord index with
  | ok f => exact hP.pure f
  | error e => exact hP.throw _

theorem height : P Action.height :=
  hP.read (f := fun t _ => Pure.pure t.height) fun _ _ => hP.pure _

theorem argumentBase (n : Nat) : P (Machine.argumentBase n) := by
  refine hP.bind hP.height fun height => ?_
  split
  · exact hP.pure _
  · exact hP.throw _

theorem openFrame (arena : Arena) (index depth : Nat) :
    P (Machine.openFrame arena index depth) := by
  refine hP.bind (hP.functionRecord arena index) fun f => ?_
  refine hP.bind (hP.argumentBase _) fun base => hP.bind (hP.pushZeros _) fun _ => ?_
  exact hP.bind (hP.record _) fun _ => hP.pure _

theorem openCompiled (arena : Arena) (index : Nat) : P (Machine.openCompiled arena index) := by
  refine hP.bind (hP.functionRecord arena index) fun f => ?_
  refine hP.bind (hP.argumentBase _) fun base => hP.bind (hP.record _) fun _ => ?_
  exact hP.read (f := fun t _ => Pure.pure (base, t.values.extract base t.values.size))
    fun _ _ => hP.pure _

theorem closeFrame (a : Activation) : P (Machine.closeFrame a) := by
  refine hP.bind hP.pop fun result => hP.bind (hP.restore _) fun _ => ?_
  exact hP.bind (hP.record _) fun _ => hP.pure _

theorem closeCompiled (base : Nat) (result : Value) : P (Machine.closeCompiled base result) :=
  hP.bind (hP.cursorAt _) fun _ => hP.bind (hP.restore _) fun _ => hP.pure _

end Action.Rules

end StackMachine
