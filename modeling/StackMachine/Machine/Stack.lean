import StackMachine.Machine.Fault

/-! The operand stack. All active calls share it: arguments are pushed by the caller, locals follow
them, and a return cuts the stack back to where the arguments began. An operation that fails
leaves the stack as it is, but for `popTwo`, which may have taken one value. -/

namespace StackMachine

structure Stack where
  /-- Bottom first. -/
  values : Array Value
  limit : Nat
  deriving DecidableEq, Repr

abbrev StackOp := EStateM Fault Stack

namespace Stack

def empty (limit : Nat) : Stack := { values := #[], limit }

def height (s : Stack) : Nat := s.values.size

def push (v : Value) : StackOp Unit := fun s =>
  if s.height < s.limit then .ok () { s with values := s.values.push v }
  else .error (.stackOverflow s.limit) s

def pop : StackOp Value := fun s =>
  match s.values.back? with
  | some v => .ok v { s with values := s.values.pop }
  | none => .error .stackUnderflow s

/-- The left and the right operand; the right one is on top. -/
def popTwo : StackOp (Value × Value) := do
  let right ← pop
  let left ← pop
  return (left, right)

def peek : StackOp Value := fun s =>
  match s.values.back? with
  | some v => .ok v s
  | none => .error .stackUnderflow s

def pushZeros (n : Nat) : StackOp Unit := fun s =>
  if n ≤ s.limit - s.height then
    .ok () { s with values := s.values ++ Array.replicate n Value.zero }
  else .error (.stackOverflow s.limit) s

/-- The cursor to the present height. -/
def top : StackOp Nat := fun s => .ok s.height s

def cursorAt (height : Nat) : StackOp Nat := fun s =>
  if height ≤ s.height then .ok height s else .error (.invalidRestore height s.height) s

def restore (cursor : Nat) : StackOp Unit := fun s =>
  if cursor ≤ s.height then .ok () { s with values := s.values.shrink cursor }
  else .error (.invalidRestore cursor s.height) s

def get (index : Nat) : StackOp Value := fun s =>
  match s.values[index]? with
  | some v => .ok v s
  | none => .error .stackUnderflow s

def set (index : Nat) (v : Value) : StackOp Unit := fun s =>
  if index < s.height then .ok () { s with values := s.values.setIfInBounds index v }
  else .error .stackUnderflow s

/-- Any change of the values in place. What a slot holds afterwards may depend on all the values
that there were. -/
def edit (f : Array Value → Nat → Value) : StackOp Unit := fun s =>
  .ok () { s with values := s.values.mapIdx fun i _ => f s.values i }

end Stack

end StackMachine
