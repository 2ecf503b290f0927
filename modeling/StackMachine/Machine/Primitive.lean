import StackMachine.Machine.Program
import StackMachine.Text.Quoted

/-! Primitives: the host programs that a module calls by number. A primitive takes its operands from
the stack itself and leaves its answer there. -/

namespace StackMachine

structure Primitive where
  name : String
  program : Program Unit

abbrev PrimitiveTable := List Primitive

namespace Primitive

open Program

def printString : Program Unit := do
  match ← popValue with
  | .uint48 index =>
    writeText ((← stringAt index.toNat) ++ "\n")
    pushValue .zero
  | v => fault (.typeMismatch .primitiveCall [.uint48] v.kind)

def printNumber : Program Unit := do
  match ← popValue with
  | .int48 n =>
    writeText (toString n.toInt ++ "\n")
    pushValue .zero
  | v => fault (.typeMismatch .primitiveCall [.int48] v.kind)

/-- One line of a listing of the stack: the position in four columns, then the value. -/
def stackLine (position : Nat) (v : Value) : String :=
  let digits := toString position
  String.ofList (List.replicate (4 - digits.length) ' ') ++ s!"{digits}: {v.text}\n"

def printStack : Program Unit := do
  let values := (← getView).stack.values
  writeText (String.join (values.toList.zipIdx.map fun (v, position) => stackLine position v))
  pushValue .zero

end Primitive

namespace PrimitiveTable

def standard : PrimitiveTable :=
  [⟨"print_string", Primitive.printString⟩, ⟨"print_number", Primitive.printNumber⟩,
   ⟨"print_stack", Primitive.printStack⟩]

def listing (table : PrimitiveTable) : String :=
  let names := ", ".intercalate (table.map fun p => Text.quoted p.name)
  s!"[{names}]"

end PrimitiveTable

end StackMachine
