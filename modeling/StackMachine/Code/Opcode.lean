/-! Operation codes: one byte each, a fixed mnemonic, and how the instruction's operand is read.
Arithmetic and comparison come in families, so that what the four operators and the six
conditional jumps have in common is said once. -/

namespace StackMachine

inductive BinaryOp where
  | sub | add | mul | div
  deriving DecidableEq, Repr

inductive Relation where
  | eq | ne | gt | ge | lt | le
  deriving DecidableEq, Repr

inductive Opcode where
  | endSection
  | functionCall | functionReturn | primitiveCall
  | jump
  | duplicate | drop
  | pushLocal | popLocal | pushParam | popParam
  | pushInt
  | binary (op : BinaryOp)
  | not
  | branch (relation : Relation)
  | pushString
  | newObject | pushField | popField
  | callIndirect
  | collect
  deriving DecidableEq, Repr

namespace Opcode

def all : List Opcode :=
  [.endSection, .functionCall, .functionReturn, .primitiveCall, .jump, .duplicate, .drop,
   .pushLocal, .popLocal, .pushParam, .popParam, .pushInt,
   .binary .sub, .binary .add, .binary .mul, .binary .div, .not,
   .branch .eq, .branch .ne, .branch .gt, .branch .ge, .branch .lt, .branch .le,
   .pushString, .newObject, .pushField, .popField, .callIndirect, .collect]

def byte : Opcode → UInt8
  | .endSection => 0x00
  | .functionCall => 0x01
  | .functionReturn => 0x02
  | .primitiveCall => 0x03
  | .jump => 0x04
  | .duplicate => 0x05
  | .drop => 0x06
  | .pushLocal => 0x07
  | .popLocal => 0x08
  | .pushParam => 0x09
  | .popParam => 0x0a
  | .pushInt => 0x0b
  | .binary .sub => 0x0c
  | .binary .add => 0x0d
  | .binary .mul => 0x0e
  | .binary .div => 0x0f
  | .not => 0x10
  | .branch .eq => 0x11
  | .branch .ne => 0x12
  | .branch .gt => 0x13
  | .branch .ge => 0x14
  | .branch .lt => 0x15
  | .branch .le => 0x16
  | .pushString => 0x17
  | .newObject => 0x20
  | .pushField => 0x21
  | .popField => 0x22
  | .callIndirect => 0x23
  | .collect => 0x24

def ofByte? : UInt8 → Option Opcode
  | 0x00 => some .endSection
  | 0x01 => some .functionCall
  | 0x02 => some .functionReturn
  | 0x03 => some .primitiveCall
  | 0x04 => some .jump
  | 0x05 => some .duplicate
  | 0x06 => some .drop
  | 0x07 => some .pushLocal
  | 0x08 => some .popLocal
  | 0x09 => some .pushParam
  | 0x0a => some .popParam
  | 0x0b => some .pushInt
  | 0x0c => some (.binary .sub)
  | 0x0d => some (.binary .add)
  | 0x0e => some (.binary .mul)
  | 0x0f => some (.binary .div)
  | 0x10 => some .not
  | 0x11 => some (.branch .eq)
  | 0x12 => some (.branch .ne)
  | 0x13 => some (.branch .gt)
  | 0x14 => some (.branch .ge)
  | 0x15 => some (.branch .lt)
  | 0x16 => some (.branch .le)
  | 0x17 => some .pushString
  | 0x20 => some .newObject
  | 0x21 => some .pushField
  | 0x22 => some .popField
  | 0x23 => some .callIndirect
  | 0x24 => some .collect
  | _ => none

theorem ofByte?_byte (op : Opcode) : ofByte? op.byte = some op := by
  cases op with
  | binary op => cases op <;> rfl
  | branch relation => cases relation <;> rfl
  | _ => rfl

theorem byte_of_ofByte? {b : UInt8} {op : Opcode} (h : ofByte? b = some op) : op.byte = b := by
  unfold ofByte? at h
  split at h <;> first | (cases h; rfl) | simp at h

def name : Opcode → String
  | .endSection => "end_section"
  | .functionCall => "function_call"
  | .functionReturn => "function_return"
  | .primitiveCall => "primitive_call"
  | .jump => "jmp"
  | .duplicate => "duplicate"
  | .drop => "drop"
  | .pushLocal => "push_from_local"
  | .popLocal => "pop_into_local"
  | .pushParam => "push_from_param"
  | .popParam => "pop_into_param"
  | .pushInt => "int_push_constant"
  | .binary .sub => "int_sub"
  | .binary .add => "int_add"
  | .binary .mul => "int_mul"
  | .binary .div => "int_div"
  | .not => "int_not"
  | .branch .eq => "jmp_eq"
  | .branch .ne => "jmp_neq"
  | .branch .gt => "jmp_gt"
  | .branch .ge => "jmp_ge"
  | .branch .lt => "jmp_lt"
  | .branch .le => "jmp_le"
  | .pushString => "str_push_constant"
  | .newObject => "new_object"
  | .pushField => "push_from_object"
  | .popField => "pop_into_object"
  | .callIndirect => "call_indirect"
  | .collect => "system_collect"

def ofName? (s : String) : Option Opcode := all.find? fun op => op.name == s

def hasOperand : Opcode → Bool
  | .functionCall | .primitiveCall | .jump | .pushLocal | .popLocal | .pushParam | .popParam
  | .pushInt | .branch _ | .pushString | .pushField | .popField => true
  | _ => false

/-- The operand is a signed number; any other operand is an index. -/
def hasSignedOperand : Opcode → Bool
  | .jump | .branch _ | .pushInt => true
  | _ => false

def isJump : Opcode → Bool
  | .jump | .branch _ => true
  | _ => false

end Opcode

end StackMachine
