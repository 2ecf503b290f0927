import StackMachine.Text.Hex

/-! Values of the operand stack and of object fields: tagged 48-bit integers, object handles and
raw 64-bit words. An unsigned integer doubles as an index into the string table. -/

namespace StackMachine

/-- Handle of a heap object: a slot, and how often that slot had been emptied before. -/
structure ObjectRef where
  index : UInt32
  generation : UInt32
  deriving DecidableEq, Repr

def ObjectRef.text (r : ObjectRef) : String := s!"#{r.index}.{r.generation}"

inductive Value where
  | int48 (n : Int64)
  | uint48 (n : UInt64)
  | ref (r : ObjectRef)
  | raw64 (bits : UInt64)
  deriving DecidableEq, Repr

inductive Kind where
  | int48 | uint48 | ref | raw64
  deriving DecidableEq, Repr

def Kind.name : Kind → String
  | .int48 => "int48"
  | .uint48 => "uint48"
  | .ref => "ref"
  | .raw64 => "raw64"

namespace Value

/-- The integer in [-2^47, 2^47) that agrees with `n` modulo 2^48. -/
def wrap48 (n : Int64) : Int64 :=
  let low := n.toUInt64 % 0x1000000000000
  (if low < 0x800000000000 then low else low - 0x1000000000000).toInt64

theorem toInt_toInt64 (u : UInt64) :
    u.toInt64.toInt = (u.toNat : Int).bmod 0x10000000000000000 := by
  rw [← Int64.toInt_toBitVec, BitVec.toInt_eq_toNat_bmod]
  rfl

theorem toInt_wrap48 (n : Int64) : (wrap48 n).toInt = n.toInt.bmod 0x1000000000000 := by
  have hlow : (n.toUInt64 % 0x1000000000000).toNat = n.toUInt64.toNat % 0x1000000000000 := by
    simp
  have hmid : (0x800000000000 : UInt64).toNat = 0x800000000000 := by decide
  have hsub := UInt64.toNat_sub (n.toUInt64 % 0x1000000000000) 0x1000000000000
  rw [hlow, (by decide : (0x1000000000000 : UInt64).toNat = 0x1000000000000)] at hsub
  have hn : n.toInt = (n.toUInt64.toNat : Int).bmod 0x10000000000000000 :=
    toInt_toInt64 n.toUInt64
  rw [hn, Int.bmod_bmod_of_dvd (by decide : 0x1000000000000 ∣ 0x10000000000000000)]
  simp only [wrap48, toInt_toInt64, UInt64.lt_iff_toNat_lt, hlow, hmid]
  generalize n.toUInt64.toNat = m at *
  split
  next h =>
    rw [hlow, Int.bmod_def, Int.bmod_def]
    omega
  next h =>
    rw [hsub, Int.bmod_def, Int.bmod_def]
    omega

def int (n : Int64) : Value := .int48 (wrap48 n)

def uint (n : UInt64) : Value := .uint48 (n % 0x1000000000000)

def string (index : UInt32) : Value := .uint48 index.toUInt64

def zero : Value := .int48 0

instance : Inhabited Value := ⟨zero⟩

def kind : Value → Kind
  | .int48 _ => .int48
  | .uint48 _ => .uint48
  | .ref _ => .ref
  | .raw64 _ => .raw64

def asInt? : Value → Option Int64
  | .int48 n => some n
  | _ => none

def asUint? : Value → Option UInt64
  | .uint48 n => some n
  | _ => none

def asRef? : Value → Option ObjectRef
  | .ref r => some r
  | _ => none

def text : Value → String
  | .int48 n => toString n.toInt
  | .uint48 n => s!"uint48({n.toNat})"
  | .ref r => s!"ref({r.text})"
  | .raw64 bits => s!"raw(0x{Text.hex 16 bits.toNat})"

end Value

end StackMachine
