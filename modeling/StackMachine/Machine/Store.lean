import StackMachine.Heap.Collect
import StackMachine.Machine.Output
import StackMachine.Machine.Stack
import StackMachine.Trace.Log

/-! What the instructions of a run change: stack, heap, output and log. An action on the store keeps
its effects when it faults. -/

namespace StackMachine

structure Store where
  stack : Stack
  heap : Heap
  output : Output
  log : Log

abbrev Action := EStateM Fault Store

namespace Action

def liftStack (act : StackOp α) : Action α := fun ⟨stack, heap, output, log⟩ =>
  match act stack with
  | .ok a stack => .ok a ⟨stack, heap, output, log⟩
  | .error f stack => .error f ⟨stack, heap, output, log⟩

instance : MonadLift StackOp Action := ⟨liftStack⟩

def liftHeap (act : HeapOp α) : Action α := fun ⟨stack, heap, output, log⟩ =>
  match act heap with
  | .ok a heap => .ok a ⟨stack, heap, output, log⟩
  | .error e heap => .error (.memory e) ⟨stack, heap, output, log⟩

def ofMemory : Except MemoryError α → Action α
  | .ok a => pure a
  | .error e => throw (.memory e)

def record (e : Event) : Action Unit := modify fun s => { s with log := s.log.record e }

def height : Action Nat := return (← get).stack.height

/-- A new object; everything on the stack is a root. -/
def allocate : Action ObjectRef := fun ⟨stack, heap, output, log⟩ =>
  let (r, heap, events) := heap.allocate stack.values
  .ok r ⟨stack, heap, output, log.recordAll events⟩

def collect : Action Unit := fun ⟨stack, heap, output, log⟩ =>
  let (freed, heap) := heap.collect stack.values
  .ok () ⟨stack, heap, output,
    log.recordAll [.collected freed heap.live, .collectedOnRequest freed]⟩

def lookupField (r : ObjectRef) (id : FieldId) : Action (Option Nat) := do
  ofMemory ((← get).heap.lookupField r id)

def getField (r : ObjectRef) (slot : Nat) : Action Value := do
  ofMemory ((← get).heap.getField r slot)

def addField (r : ObjectRef) (id : FieldId) : Action Nat := liftHeap (Heap.addField r id)

def setField (r : ObjectRef) (slot : Nat) (v : Value) : Action Unit :=
  liftHeap (Heap.setField r slot v)

def write (bytes : List UInt8) : Action Unit := fun ⟨stack, heap, output, log⟩ =>
  match output.write bytes with
  | (.ok (), output) => .ok () ⟨stack, heap, output, log⟩
  | (.error reason, output) => .error (.output reason) ⟨stack, heap, output, log⟩

end Action

end StackMachine
