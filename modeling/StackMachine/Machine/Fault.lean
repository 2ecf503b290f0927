import StackMachine.Code.Module
import StackMachine.Code.Value
import StackMachine.Heap.Basic

/-! Faults: the ways in which a run can end without a result. -/

namespace StackMachine

inductive Fault where
  | unknownOpcode (function : String) (ip : Nat) (byte : UInt8)
  /-- An operand is of none of the kinds that the operation takes. -/
  | typeMismatch (op : Opcode) (expected : List Kind) (found : Kind)
  /-- An operation without an integer result was asked for one. -/
  | notAnOperator (op : Opcode)
  | divisionByZero
  | stackUnderflow
  | stackOverflow (limit : Nat)
  | invalidRestore (cursor height : Nat)
  | fellOffEnd (function : String)
  | notImplemented (op : Opcode)
  | callDepthExceeded (limit : Nat)
  | paramOutOfRange (index count : Nat)
  | localOutOfRange (index count : Nat)
  | missingField (id : FieldId)
  | unknownPrimitive (index count : Nat)
  | ipOutOfBounds (function : String) (ip : Int)
  | output (reason : String)
  | module (e : ModuleError)
  | memory (e : MemoryError)
  deriving DecidableEq, Repr

def Fault.message : Fault → String
  | .unknownOpcode function ip byte =>
    s!"unknown opcode 0x{Text.hex 2 byte.toNat} at {function}+{ip}"
  | .typeMismatch op expected found =>
    let kinds := " or ".intercalate (expected.map Kind.name)
    s!"type error in {op.name}: expected {kinds}, found {found.name}"
  | .notAnOperator op => s!"type error in {op.name}: expected integer operator, found {op.name}"
  | .divisionByZero => "division by zero"
  | .stackUnderflow => "stack underflow"
  | .stackOverflow limit => s!"stack overflow (limit {limit})"
  | .invalidRestore cursor height => s!"invalid stack restore to {cursor} (height {height})"
  | .fellOffEnd function => s!"fell off end of function {function}"
  | .notImplemented op => s!"{op.name} is not implemented"
  | .callDepthExceeded limit => s!"call depth exceeded (limit {limit})"
  | .paramOutOfRange index count => s!"param {index} out of range (nparams {count})"
  | .localOutOfRange index count => s!"local {index} out of range (nlocals {count})"
  | .missingField id => s!"object has no field {id}"
  | .unknownPrimitive index count => s!"unknown primitive {index} (table size {count})"
  | .ipOutOfBounds function ip => s!"instruction pointer {ip} out of bounds in {function}"
  | .output reason => s!"primitive output failed: {reason}"
  | .module e => e.message
  | .memory e => e.message

end StackMachine
