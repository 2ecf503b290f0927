import StackMachine.Image.Arena
import StackMachine.Machine.Fault

/-! Integer arithmetic and the comparisons behind the conditional jumps. Arithmetic is done in 64
bits and wraps; every result is then cut to 48 bits. Integers compare as numbers, string indices by
the bytes of the strings that they name. -/

namespace StackMachine

namespace BinaryOp

/-- The result in 64 bits; there is none for a division by zero. -/
def apply (op : BinaryOp) (a b : Int64) : Except Fault Int64 :=
  match op with
  | .sub => .ok (a - b)
  | .add => .ok (a + b)
  | .mul => .ok (a * b)
  | .div => if b = 0 then .error .divisionByZero else .ok (a / b)

end BinaryOp

namespace Relation

def holds (relation : Relation) (o : Ordering) : Bool :=
  match relation with
  | .eq => o == .eq
  | .ne => o != .eq
  | .gt => o == .gt
  | .ge => o != .lt
  | .lt => o == .lt
  | .le => o != .gt

end Relation

namespace Arith

def expectInt (op : Opcode) (v : Value) : Except Fault Int64 :=
  match v with
  | .int48 n => .ok n
  | v => .error (.typeMismatch op [.int48] v.kind)

/-- The operands are looked at before the operator. -/
def binary (op : Opcode) (left right : Value) : Except Fault Value := do
  let a ← expectInt op left
  let b ← expectInt op right
  match op with
  | .binary op => return .int (← op.apply a b)
  | op => throw (.notAnOperator op)

/-- One for zero, zero for any other integer. -/
def not (v : Value) : Except Fault Value := do
  let n ← expectInt .not v
  return .int (if n = 0 then 1 else 0)

/-- The order of lists of bytes, in which a proper beginning comes first. -/
def compareBytes : List UInt8 → List UInt8 → Ordering
  | [], [] => .eq
  | [], _ :: _ => .lt
  | _ :: _, [] => .gt
  | a :: as, b :: bs => (compare a.toNat b.toNat).then (compareBytes as bs)

def stringBytes (arena : Arena) (index : UInt64) : Except Fault (List UInt8) :=
  match arena.string index.toNat with
  | .ok s => .ok (Image.textBytes s)
  | .error e => .error (.module e)

def compareValues (op : Opcode) (left right : Value) (arena : Arena) : Except Fault Ordering :=
  match left, right with
  | .int48 a, .int48 b => .ok (compare a b)
  | .uint48 a, .uint48 b => do
    let a ← stringBytes arena a
    let b ← stringBytes arena b
    return compareBytes a b
  | .int48 _, other | .uint48 _, other => .error (.typeMismatch op [left.kind] other.kind)
  | other, _ => .error (.typeMismatch op [.int48, .uint48] other.kind)

/-- Whether `op` jumps on these operands. What is no conditional jump never does. -/
def jumpTaken (op : Opcode) (left right : Value) (arena : Arena) : Except Fault Bool := do
  let o ← compareValues op left right arena
  match op with
  | .branch relation => return relation.holds o
  | _ => return false

end Arith

end StackMachine
