import StackMachine.Machine.Primitive

/-! The machine. A state is a store, the call depth, the activations that wait for a call to return,
and what is done next: enter a function, execute the next instruction of one, or hand the outcome
of a finished call to whoever waits for it. A step is a function of the state; a state without a
step is the end of a run. -/

namespace StackMachine

structure Setting where
  module : Module
  arena : Arena
  compiled : Array (Option CompiledFunction)
  primitives : PrimitiveTable
  maxDepth : Nat
  debug : Bool

/-- An interpreted function under way. Its arguments start at `base`, its locals follow them. -/
structure Activation where
  function : FuncRecord
  base : Nat
  ip : Int
  deriving DecidableEq, Repr

inductive Frame where
  | interpreted (a : Activation)
  /-- A primitive that the function of `a` called. -/
  | primitive (a : Activation) (next : Except Fault Value → Program Unit)
  /-- A compiled function whose arguments start at `base`. -/
  | compiled (base : Nat) (next : Except Fault Value → Program Value)

inductive Control where
  | enter (index : Nat)
  | execute (a : Activation)
  | deliver (outcome : Except Fault Value)

structure State where
  store : Store
  depth : Nat
  /-- Innermost first. -/
  frames : List Frame
  control : Control

namespace Activation

def locals (a : Activation) : Nat := a.base + a.function.nparams.toNat

def localSlot (a : Activation) (index : Nat) : Except Fault Nat :=
  if index < a.function.nlocals.toNat then .ok (a.locals + index)
  else .error (.localOutOfRange index a.function.nlocals.toNat)

def paramSlot (a : Activation) (index : Nat) : Except Fault Nat :=
  if index < a.function.nparams.toNat then .ok (a.base + index)
  else .error (.paramOutOfRange index a.function.nparams.toNat)

/-- The activation past the instruction at hand and `offset` instructions further. -/
def advance (a : Activation) (offset : Int) : Activation := { a with ip := a.ip + 1 + offset }

def fetch (a : Activation) (arena : Arena) : Except Fault (Instruction × Opcode × Int) :=
  if a.ip < 0 ∨ a.function.codeLength ≤ a.ip then .error (.ipOutOfBounds a.function.name a.ip)
  else
    match arena.instruction a.function a.ip.toNat with
    | .error e => .error (.module e)
    | .ok i =>
      if i.isEnd then .error (.fellOffEnd a.function.name)
      else
        match i.decode? with
        | some (op, operand) => .ok (i, op, operand)
        | none => .error (.unknownOpcode a.function.name a.ip.toNat i.opcodeByte)

end Activation

namespace Machine

open StackMachine.Action

def argumentBase (n : Nat) : Action Nat := do
  let height ← height
  if n ≤ height then return height - n else throw .stackUnderflow

def functionRecord (arena : Arena) (index : Nat) : Action FuncRecord :=
  match arena.functionRecord index with
  | .ok f => pure f
  | .error e => throw (.module e)

def openFrame (arena : Arena) (index depth : Nat) : Action Activation := do
  let f ← functionRecord arena index
  let base ← argumentBase f.nparams.toNat
  liftStack (Stack.pushZeros f.nlocals.toNat)
  record (.entered f.name depth base)
  return { function := f, base, ip := 0 }

/-- Sets up the call of a compiled function: where its arguments start, and a copy of them. -/
def openCompiled (arena : Arena) (index : Nat) : Action (Nat × Array Value) := do
  let f ← functionRecord arena index
  let base ← argumentBase f.nparams.toNat
  record (.enteredCompiled f.name)
  let values := (← get).stack.values
  return (base, values.extract base values.size)

def closeFrame (a : Activation) : Action Value := do
  let result ← liftStack Stack.pop
  liftStack (Stack.restore a.base)
  record (.returned a.function.name result)
  return result

/-- Drops the arguments of a compiled function, and whatever it left above them. -/
def closeCompiled (base : Nat) (result : Value) : Action Value := do
  liftStack (Stack.restore (← liftStack (Stack.cursorAt base)))
  return result

def expectRef (op : Opcode) (v : Value) : Action ObjectRef :=
  match v with
  | .ref r => pure r
  | v => throw (.typeMismatch op [.ref] v.kind)

def pushField (id : FieldId) : Action Unit := do
  let r ← expectRef .pushField (← liftStack Stack.pop)
  match ← lookupField r id with
  | some slot => liftStack (Stack.push (← getField r slot))
  | none => throw (.missingField id)

/-- The object stays on the stack, as a root, until it has the field. -/
def popField (id : FieldId) : Action Unit := do
  let r ← expectRef .popField (← liftStack Stack.peek)
  let slot ← match ← lookupField r id with
    | some slot => pure slot
    | none => addField r id
  discard <| liftStack Stack.pop
  let v ← liftStack Stack.pop
  setField r slot v

/-- An instruction after which the next one follows. -/
def ahead (act : Action Unit) : Action Int := do
  act
  return 0

def pushResult (result : Except Fault Value) : Action Unit := do
  liftStack (Stack.push (← ofExcept result))

/-- Executes an instruction that neither calls nor returns; the answer is how far it jumps. To it
the operation codes of calls and returns, like that of the sentinel, are unknown. -/
def perform (arena : Arena) (a : Activation) (op : Opcode) (operand : Int) : Action Int :=
  match op with
  | .jump => return operand
  | .branch relation => do
    let (left, right) ← liftStack Stack.popTwo
    let taken ← ofExcept (Arith.jumpTaken (.branch relation) left right arena)
    return if taken then operand else 0
  | .duplicate => ahead <| liftStack do Stack.push (← Stack.peek)
  | .drop => ahead <| liftStack <| discard Stack.pop
  | .pushLocal => ahead do
    let slot ← ofExcept (a.localSlot operand.toNat)
    liftStack do Stack.push (← Stack.get slot)
  | .popLocal => ahead do
    let slot ← ofExcept (a.localSlot operand.toNat)
    liftStack do Stack.set slot (← Stack.pop)
  | .pushParam => ahead do
    let slot ← ofExcept (a.paramSlot operand.toNat)
    liftStack do Stack.push (← Stack.get slot)
  | .popParam => ahead do
    let slot ← ofExcept (a.paramSlot operand.toNat)
    liftStack do Stack.set slot (← Stack.pop)
  | .pushInt => ahead <| liftStack (Stack.push (.int (.ofInt operand)))
  | .binary op => ahead do
    let (left, right) ← liftStack Stack.popTwo
    pushResult (Arith.binary (.binary op) left right)
  | .not => ahead do pushResult (Arith.not (← liftStack Stack.pop))
  | .pushString => ahead <| liftStack (Stack.push (.string (.ofNat operand.toNat)))
  | .newObject => ahead do liftStack (Stack.push (.ref (← allocate)))
  | .pushField => ahead <| pushField (.ofNat operand.toNat)
  | .popField => ahead <| popField (.ofNat operand.toNat)
  | .collect => ahead collect
  | .callIndirect => throw (.notImplemented .callIndirect)
  | .endSection | .functionCall | .functionReturn | .primitiveCall =>
    throw (.unknownOpcode a.function.name a.ip.toNat op.byte)

def leave (store : Store) (depth : Nat) (frames : List Frame) (outcome : Except Fault Value) :
    State :=
  ⟨store, depth - 1, frames, .deliver outcome⟩

def runPrimitive (m : Setting) (a : Activation) (p : Program Unit) (store : Store) (depth : Nat)
    (frames : List Frame) : State :=
  match p.advance m.module m.arena depth store with
  | (.finished (.ok ()), store) => ⟨store, depth, frames, .execute a⟩
  | (.finished (.error f), store) => leave store depth frames (.error f)
  | (.calls index next, store) => ⟨store, depth, .primitive a next :: frames, .enter index⟩

def runCompiled (m : Setting) (base : Nat) (p : Program Value) (store : Store) (depth : Nat)
    (frames : List Frame) : State :=
  match p.advance m.module m.arena depth store with
  | (.finished (.ok result), store) =>
    match closeCompiled base result store with
    | .ok result store => leave store depth frames (.ok result)
    | .error f store => leave store depth frames (.error f)
  | (.finished (.error f), store) => leave store depth frames (.error f)
  | (.calls index next, store) => ⟨store, depth, .compiled base next :: frames, .enter index⟩

def enter (m : Setting) (index : Nat) (store : Store) (depth : Nat) (frames : List Frame) : State :=
  if m.maxDepth ≤ depth then
    ⟨store, depth, frames, .deliver (.error (.callDepthExceeded m.maxDepth))⟩
  else
    let depth := depth + 1
    match m.compiled[index]?.join with
    | none =>
      match openFrame m.arena index depth store with
      | .ok a store => ⟨store, depth, frames, .execute a⟩
      | .error f store => leave store depth frames (.error f)
    | some function =>
      match openCompiled m.arena index store with
      | .ok (base, params) store => runCompiled m base (function params) store depth frames
      | .error f store => leave store depth frames (.error f)

def report (m : Setting) (a : Activation) (i : Instruction) (store : Store) : Store :=
  if m.debug then
    let event := Event.executing a.function.name a.ip i store.stack.height
    { store with log := store.log.record event }
  else store

def dispatch (m : Setting) (a : Activation) (op : Opcode) (operand : Int) (store : Store)
    (depth : Nat) (frames : List Frame) : State :=
  match op with
  | .functionCall => ⟨store, depth, .interpreted (a.advance 0) :: frames, .enter operand.toNat⟩
  | .functionReturn =>
    match closeFrame a store with
    | .ok result store => leave store depth frames (.ok result)
    | .error f store => leave store depth frames (.error f)
  | .primitiveCall =>
    match m.primitives[operand.toNat]? with
    | some p => runPrimitive m (a.advance 0) p.program store depth frames
    | none =>
      leave store depth frames (.error (.unknownPrimitive operand.toNat m.primitives.length))
  | op =>
    match perform m.arena a op operand store with
    | .ok offset store => ⟨store, depth, frames, .execute (a.advance offset)⟩
    | .error f store => leave store depth frames (.error f)

def execute (m : Setting) (a : Activation) (store : Store) (depth : Nat) (frames : List Frame) :
    State :=
  match a.fetch m.arena with
  | .error f => leave store depth frames (.error f)
  | .ok (i, op, operand) => dispatch m a op operand (report m a i store) depth frames

def deliver (m : Setting) (outcome : Except Fault Value) (store : Store) (depth : Nat)
    (frames : List Frame) : Frame → State
  | .interpreted a =>
    match outcome with
    | .error f => leave store depth frames (.error f)
    | .ok result =>
      match liftStack (Stack.push result) store with
      | .ok () store => ⟨store, depth, frames, .execute a⟩
      | .error f store => leave store depth frames (.error f)
  | .primitive a next => runPrimitive m a (next outcome) store depth frames
  | .compiled base next => runCompiled m base (next outcome) store depth frames

/-- The next state, or nothing where the run is over. -/
def step? (m : Setting) : State → Option State
  | ⟨store, depth, frames, .enter index⟩ => some (enter m index store depth frames)
  | ⟨store, depth, frames, .execute a⟩ => some (execute m a store depth frames)
  | ⟨store, depth, frame :: frames, .deliver outcome⟩ =>
    some (deliver m outcome store depth frames frame)
  | ⟨_, _, [], .deliver _⟩ => none

/-- Up to `fuel` steps; nothing if the run is not over by then. -/
def run (m : Setting) : Nat → State → Option (Except Fault Value × Store)
  | _, ⟨store, _, [], .deliver outcome⟩ => some (outcome, store)
  | 0, _ => none
  | fuel + 1, s =>
    match step? m s with
    | some s => run m fuel s
    | none => none

def call (index : Nat) (store : Store) : State := ⟨store, 0, [], .enter index⟩

end Machine

end StackMachine
