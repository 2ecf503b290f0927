import StackMachine.Code.Module

/-! Verification before a module runs. Every stream ends with its only sentinel, every operation
code is known, every index is in range and every jump stays inside its function, short of the
sentinel. The first violation of the first offending function is reported. -/

namespace StackMachine

inductive Violation where
  | missingEndSection
  | earlyEndSection
  | unknownOpcode (byte : UInt8)
  | badFunctionIndex (index : Nat)
  | badPrimitiveIndex (index : Nat)
  | badParamIndex (index : Nat)
  | badLocalIndex (index : Nat)
  | badStringIndex (index : Nat)
  | badJumpTarget (target : Int)
  deriving DecidableEq, Repr

def Violation.message : Violation → String
  | .missingEndSection => "instruction stream does not end with end_section"
  | .earlyEndSection => "end_section before the end of the stream"
  | .unknownOpcode byte => s!"unknown opcode 0x{Text.hex 2 byte.toNat}"
  | .badFunctionIndex index => s!"call to unknown function {index}"
  | .badPrimitiveIndex index => s!"call to unknown primitive {index}"
  | .badParamIndex index => s!"param {index} out of range"
  | .badLocalIndex index => s!"local {index} out of range"
  | .badStringIndex index => s!"string {index} out of range"
  | .badJumpTarget target => s!"jump target {target} outside function"

structure VerifyError where
  function : String
  index : Nat
  violation : Violation
  deriving DecidableEq, Repr

def VerifyError.message (e : VerifyError) : String :=
  s!"verify failed in {e.function} at instruction {e.index}: {e.violation.message}"

namespace Verify

def operandViolation? (m : Module) (primitives : Nat) (f : Func) (position : Nat)
    (i : Instruction) : Opcode → Option Violation
  | .functionCall =>
    if m.functions.length ≤ i.index then some (.badFunctionIndex i.index) else none
  | .primitiveCall => if primitives ≤ i.index then some (.badPrimitiveIndex i.index) else none
  | .pushParam | .popParam =>
    if f.nparams.toNat ≤ i.index then some (.badParamIndex i.index) else none
  | .pushLocal | .popLocal =>
    if f.nlocals.toNat ≤ i.index then some (.badLocalIndex i.index) else none
  | .pushString => if m.strings.length ≤ i.index then some (.badStringIndex i.index) else none
  | .jump | .branch _ =>
    let target : Int := position + 1 + i.signed
    if target < 0 ∨ f.code.length - 1 ≤ target then some (.badJumpTarget target) else none
  | _ => none

/-- What is wrong with an instruction before the end of the stream. -/
def violation? (m : Module) (primitives : Nat) (f : Func) (position : Nat) (i : Instruction) :
    Option Violation :=
  if i.isEnd then some .earlyEndSection
  else
    match i.opcode? with
    | none | some .endSection => some (.unknownOpcode i.opcodeByte)
    | some op => operandViolation? m primitives f position i op

def functionError? (m : Module) (primitives : Nat) (f : Func) : Option VerifyError :=
  if f.code.getLast?.any Instruction.isEnd then
    f.code.dropLast.zipIdx.findSome? fun (i, position) =>
      (violation? m primitives f position i).map fun violation =>
        { function := f.name, index := position, violation }
  else some { function := f.name, index := f.code.length, violation := .missingEndSection }

end Verify

def verify (m : Module) (primitives : Nat) : Except VerifyError Unit :=
  match m.functions.findSome? (Verify.functionError? m primitives) with
  | some e => .error e
  | none => .ok ()

end StackMachine
