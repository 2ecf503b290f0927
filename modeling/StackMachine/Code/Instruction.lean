import StackMachine.Code.Opcode
import StackMachine.Text.Hex

/-! Instructions: one 32-bit word each, the operation code in the high byte and a 24-bit operand
below it. The operand is read as an index, or as a signed number where the operation code says so.
-/

namespace StackMachine

structure Instruction where
  word : UInt32
  deriving DecidableEq, Repr

namespace Instruction

abbrev operands : Nat := 0x1000000

/-- The instruction of `op` whose operand agrees with `operand` modulo 2^24. -/
def make (op : Opcode) (operand : Int) : Instruction :=
  ⟨UInt32.ofNat (op.byte.toNat * operands + (operand % operands).toNat)⟩

/-- The operands that an instruction of `op` can carry and give back unchanged. -/
def Fits (op : Opcode) (operand : Int) : Prop :=
  if op.hasSignedOperand then -0x800000 ≤ operand ∧ operand < 0x800000
  else 0 ≤ operand ∧ operand < operands

instance (op : Opcode) (operand : Int) : Decidable (Fits op operand) := by
  unfold Fits; infer_instance

def make? (op : Opcode) (operand : Int) : Option Instruction :=
  if Fits op operand then some (make op operand) else none

/-- The sentinel that ends every instruction stream: the zero word. -/
def endSection : Instruction := ⟨0⟩

def isEnd (i : Instruction) : Bool := i == endSection

def opcodeByte (i : Instruction) : UInt8 := UInt8.ofNat (i.word.toNat / operands)

def opcode? (i : Instruction) : Option Opcode := Opcode.ofByte? i.opcodeByte

def index (i : Instruction) : Nat := i.word.toNat % operands

def signed (i : Instruction) : Int :=
  if i.index < 0x800000 then i.index else i.index - operands

def decode? (i : Instruction) : Option (Opcode × Int) :=
  i.opcode?.map fun op => (op, if op.hasSignedOperand then i.signed else i.index)

def text (i : Instruction) : String :=
  match i.decode? with
  | some (op, operand) => if op.hasOperand then s!"({op.name} {operand})" else s!"({op.name})"
  | none => s!"(unknown 0x{Text.hex 2 i.opcodeByte.toNat})"

def describe (i : Instruction) : String := s!"Instruction(0x{Text.hex 8 i.word.toNat} {i.text})"

end Instruction

end StackMachine
