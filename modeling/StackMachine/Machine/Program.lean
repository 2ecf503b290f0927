import StackMachine.Machine.Arith
import StackMachine.Machine.Store

/-! Programs of the host: what a primitive or a compiled function does to a running machine. A
program is a tree of requests; each request names what it wants and goes on with the answer, be it
a result or a fault, so that a program may also carry on after a fault. Between two nested calls a
program acts on the store alone, and such a stretch is one step of the machine. -/

namespace StackMachine

structure View where
  module : Module
  arena : Arena
  depth : Nat
  stack : Stack
  heap : Heap

inductive Program (α : Type) where
  | done (result : Except Fault α)
  | view (next : View → Program α)
  | push (v : Value) (next : Except Fault Unit → Program α)
  | pop (next : Except Fault Value → Program α)
  | pushZeros (n : Nat) (next : Except Fault Unit → Program α)
  | restore (cursor : Nat) (next : Except Fault Unit → Program α)
  | set (index : Nat) (v : Value) (next : Except Fault Unit → Program α)
  | allocate (roots : Array Value) (next : ObjectRef → Program α)
  | addField (r : ObjectRef) (id : FieldId) (next : Except Fault Nat → Program α)
  | setField (r : ObjectRef) (slot : Nat) (v : Value) (next : Except Fault Unit → Program α)
  | collect (roots : Array Value) (next : Nat → Program α)
  | write (bytes : List UInt8) (next : Except Fault Unit → Program α)
  | flush (next : Except Fault Unit → Program α)
  /-- Calls a function whose arguments are on the stack. -/
  | call (index : Nat) (next : Except Fault Value → Program α)

namespace Program

def bind (p : Program α) (f : α → Program β) : Program β :=
  match p with
  | .done (.ok a) => f a
  | .done (.error e) => .done (.error e)
  | .view next => .view fun x => (next x).bind f
  | .push v next => .push v fun x => (next x).bind f
  | .pop next => .pop fun x => (next x).bind f
  | .pushZeros n next => .pushZeros n fun x => (next x).bind f
  | .restore cursor next => .restore cursor fun x => (next x).bind f
  | .set index v next => .set index v fun x => (next x).bind f
  | .allocate roots next => .allocate roots fun x => (next x).bind f
  | .addField r id next => .addField r id fun x => (next x).bind f
  | .setField r slot v next => .setField r slot v fun x => (next x).bind f
  | .collect roots next => .collect roots fun x => (next x).bind f
  | .write bytes next => .write bytes fun x => (next x).bind f
  | .flush next => .flush fun x => (next x).bind f
  | .call index next => .call index fun x => (next x).bind f

/-- A fault in the first program is the fault of the whole. -/
instance : Monad Program where
  pure a := .done (.ok a)
  bind := bind

def ofExcept (r : Except Fault α) : Program α := .done r

def fault (f : Fault) : Program α := .done (.error f)

def getView : Program View := .view fun v => .done (.ok v)

def pushValue (v : Value) : Program Unit := .push v .done

def popValue : Program Value := .pop .done

def writeText (s : String) : Program Unit := .write (Image.textBytes s) .done

def stringAt (index : Nat) : Program String := do
  match (← getView).arena.string index with
  | .ok s => return s
  | .error e => fault (.module e)

def invoke (index : Nat) (args : List Value) : Program Value := do
  args.forM pushValue
  .call index .done

/-- How a stretch of a program ends: with its result, or at a nested call. -/
inductive Progress (α : Type) where
  | finished (result : Except Fault α)
  | calls (index : Nat) (next : Except Fault Value → Program α)

def attempt (act : Action α) (s : Store) : Except Fault α × Store :=
  match act s with
  | .ok a s => (.ok a, s)
  | .error f s => (.error f, s)

/-- Runs the program up to its end or to its next nested call. -/
def advance (module : Module) (arena : Arena) (depth : Nat) :
    Program α → Store → Progress α × Store
  | .done result, s => (.finished result, s)
  | .view next, s => (next ⟨module, arena, depth, s.stack, s.heap⟩).advance module arena depth s
  | .push v next, s =>
    let (r, s) := attempt (Action.liftStack (Stack.push v)) s
    (next r).advance module arena depth s
  | .pop next, s =>
    let (r, s) := attempt (Action.liftStack Stack.pop) s
    (next r).advance module arena depth s
  | .pushZeros n next, s =>
    let (r, s) := attempt (Action.liftStack (Stack.pushZeros n)) s
    (next r).advance module arena depth s
  | .restore cursor next, s =>
    let (r, s) := attempt (Action.liftStack (Stack.restore cursor)) s
    (next r).advance module arena depth s
  | .set index v next, s =>
    let (r, s) := attempt (Action.liftStack (Stack.set index v)) s
    (next r).advance module arena depth s
  | .allocate roots next, ⟨stack, heap, output, log⟩ =>
    let (r, heap, events) := heap.allocate roots
    (next r).advance module arena depth ⟨stack, heap, output, log.recordAll events⟩
  | .addField r id next, s =>
    let (answer, s) := attempt (Action.addField r id) s
    (next answer).advance module arena depth s
  | .setField r slot v next, s =>
    let (answer, s) := attempt (Action.setField r slot v) s
    (next answer).advance module arena depth s
  | .collect roots next, ⟨stack, heap, output, log⟩ =>
    let (freed, heap) := heap.collect roots
    (next freed).advance module arena depth
      ⟨stack, heap, output, log.record (.collected freed heap.live)⟩
  | .write bytes next, s =>
    let (r, s) := attempt (Action.write bytes) s
    (next r).advance module arena depth s
  | .flush next, s =>
    (next (s.output.flush.mapError .output)).advance module arena depth s
  | .call index next, s => (.calls index next, s)

end Program

/-- A compiled function, given its arguments in order of declaration. -/
abbrev CompiledFunction := Array Value → Program Value

end StackMachine
