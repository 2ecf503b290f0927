import Mathlib.Data.Int.ModEq
import Mathlib.Data.Set.Defs
import StackMachine.Code.Instruction

/-! Instruction words and what they stand for. A word is taken apart into an operation code and its
operand, and put together from them; the two are inverse to each other between the words whose high
byte is an operation code and the operands that the other 24 bits can hold. -/

namespace StackMachine

/-- What the 24 bits below the operation code can hold. -/
def Opcode.field (op : Opcode) : Set Int :=
  if op.isJump ∨ op = .pushInt then { n | -2 ^ 23 ≤ n ∧ n < 2 ^ 23 } else { n | 0 ≤ n ∧ n < 2 ^ 24 }

theorem Opcode.hasSignedOperand_iff (op : Opcode) :
    op.hasSignedOperand ↔ op.isJump ∨ op = .pushInt := by
  cases op <;> simp [hasSignedOperand, isJump]

theorem Opcode.ofByte?_eq_none_iff {b : UInt8} : ofByte? b = none ↔ ∀ op : Opcode, op.byte ≠ b := by
  constructor
  · rintro h op rfl
    rw [ofByte?_byte] at h
    cases h
  · intro h
    cases hop : ofByte? b with
    | none => rfl
    | some op => exact absurd (byte_of_ofByte? hop) (h op)

namespace Instruction

variable {i : Instruction} {op : Opcode} {n : Int}

theorem fits_iff : Fits op n ↔ n ∈ op.field := by
  simp only [Fits, Opcode.field, operands, Opcode.hasSignedOperand_iff]
  split <;> rfl

theorem toNat_word (i : Instruction) :
    i.word.toNat = i.opcodeByte.toNat * operands + i.index := by
  have hw := i.word.toNat_lt
  simp only [opcodeByte, index, operands, UInt8.toNat_ofNat']
  omega

theorem index_lt (i : Instruction) : i.index < operands := Nat.mod_lt _ (by decide)

theorem signed_eq_bmod (i : Instruction) : i.signed = (i.index : Int).bmod operands := by
  have hi := i.index_lt
  simp only [signed, Int.bmod, operands] at hi ⊢
  split <;> omega

/-- Two words are the same if their high bytes and their other bits are. -/
theorem ext_of_parts {j : Instruction} (hbyte : i.opcodeByte = j.opcodeByte)
    (hindex : i.index = j.index) : i = j := by
  have hword : i.word.toNat = j.word.toNat := by rw [toNat_word, toNat_word, hbyte, hindex]
  cases i
  cases j
  exact congrArg mk (UInt32.toNat_inj.1 hword)

section Make

theorem toNat_word_make (op : Opcode) (n : Int) :
    (make op n).word.toNat = op.byte.toNat * operands + (n % operands).toNat := by
  have hbyte := op.byte.toNat_lt
  simp only [make, operands, UInt32.toNat_ofNat']
  omega

theorem opcodeByte_make (op : Opcode) (n : Int) : (make op n).opcodeByte = op.byte := by
  apply UInt8.toNat_inj.1
  have hbyte := op.byte.toNat_lt
  simp only [opcodeByte, toNat_word_make, operands, UInt8.toNat_ofNat']
  omega

theorem index_make (op : Opcode) (n : Int) : ((make op n).index : Int) = n % operands := by
  simp only [index, toNat_word_make, operands]
  omega

theorem signed_make (op : Opcode) (n : Int) : (make op n).signed = n.bmod operands := by
  rw [signed_eq_bmod, index_make, Int.emod_bmod]

theorem make_eq_of_modEq {a b : Int} (h : a ≡ b [ZMOD operands]) : make op a = make op b := by
  rw [make, make, h]

end Make

/-- How the operand of a word is read under an operation code. -/
def reading (op : Opcode) (i : Instruction) : Int :=
  if op.hasSignedOperand then i.signed else i.index

theorem decode?_eq_some_iff_reading :
    i.decode? = some (op, n) ↔ i.opcodeByte = op.byte ∧ reading op i = n := by
  simp only [decode?, opcode?, Option.map_eq_some_iff, Prod.mk.injEq]
  constructor
  · rintro ⟨_, hop, rfl, hn⟩
    exact ⟨(Opcode.byte_of_ofByte? hop).symm, hn⟩
  · rintro ⟨hbyte, hn⟩
    exact ⟨op, by rw [hbyte, Opcode.ofByte?_byte], rfl, hn⟩

theorem fits_reading (op : Opcode) (i : Instruction) : Fits op (reading op i) := by
  have hi := i.index_lt
  simp only [Fits, reading, signed, operands] at hi ⊢
  split
  · split <;> omega
  · omega

theorem reading_modEq (op : Opcode) (i : Instruction) : reading op i ≡ i.index [ZMOD operands] := by
  rw [reading]
  split
  · rw [signed_eq_bmod, Int.ModEq, Int.bmod_emod]
  · rfl

theorem make_reading (h : i.opcodeByte = op.byte) : make op (reading op i) = i := by
  rw [make_eq_of_modEq (reading_modEq op i)]
  apply ext_of_parts
  · rw [opcodeByte_make, h]
  · have hindex := index_make op i.index
    rw [Int.emod_eq_of_lt (Int.natCast_nonneg _) (Int.ofNat_lt.2 i.index_lt)] at hindex
    exact Int.ofNat_inj.1 hindex

theorem reading_make (h : Fits op n) : reading op (make op n) = n := by
  simp only [Fits, operands] at h
  rw [reading, signed_make, index_make]
  split at h
  next hsigned =>
    rw [if_pos hsigned, Int.bmod_eq_of_le (by simpa using h.1) (by simpa using h.2)]
  next hsigned => rw [if_neg hsigned, Int.emod_eq_of_lt h.1 h.2]

theorem make?_eq_some_iff : make? op n = some i ↔ Fits op n ∧ make op n = i := by
  rw [make?]
  split
  next hfits => simp [hfits]
  next hfits => simp [hfits]

theorem decode?_eq_some_iff : i.decode? = some (op, n) ↔ make? op n = some i := by
  rw [decode?_eq_some_iff_reading, make?_eq_some_iff]
  constructor
  · rintro ⟨hbyte, rfl⟩
    exact ⟨fits_reading op i, make_reading hbyte⟩
  · rintro ⟨hfits, rfl⟩
    exact ⟨opcodeByte_make op n, reading_make hfits⟩

section Shifts

theorem opcodeByte_eq (i : Instruction) : i.opcodeByte = (i.word >>> 24).toUInt8 := by
  apply UInt8.toNat_inj.1
  simp [opcodeByte, operands, Nat.shiftRight_eq_div_pow]

theorem index_eq (i : Instruction) : i.index = (i.word &&& 0xFFFFFF).toNat := by
  have hmask : (0xFFFFFF : UInt32).toNat = 2 ^ 24 - 1 := rfl
  rw [UInt32.toNat_and, hmask, Nat.and_two_pow_sub_one_eq_mod]
  rfl

/-- The shift to the left puts the sign of the operand where a word has its own. -/
theorem signed_eq (i : Instruction) : i.signed = ((i.word <<< 8).toInt32 >>> 8).toInt := by
  have hamount : (8 : Int32).toBitVec.smod 32 = 8#32 := by decide
  have hleft : (i.word <<< 8).toInt32.toInt =
      ((i.word.toNat * 2 ^ 8 % 2 ^ 32 : Nat) : Int).bmod (2 ^ 32) := by
    change (i.word <<< 8).toBitVec.toInt = _
    rw [BitVec.toInt_eq_toNat_bmod, UInt32.toNat_toBitVec, UInt32.toNat_shiftLeft,
      Nat.shiftLeft_eq]
    rfl
  have hright : ((i.word <<< 8).toInt32 >>> 8).toInt = (i.word <<< 8).toInt32.toInt / 2 ^ 8 := by
    rw [← Int32.toInt_toBitVec, Int32.toBitVec_shiftRight, hamount, BitVec.sshiftRight',
      BitVec.toInt_sshiftRight, Int.shiftRight_eq_div_pow]
    rfl
  have hw := i.word.toNat_lt
  rw [hright, hleft, signed_eq_bmod]
  simp only [Int.bmod, index, operands]
  omega

theorem toNat_toUInt32_ofInt (n : Int) : (Int32.ofInt n).toUInt32.toNat = (n % 2 ^ 32).toNat := by
  change (BitVec.ofInt 32 n).toNat = _
  rw [BitVec.toNat_ofInt]
  rfl

/-- The operand may be cut to 32 bits before it is cut to 24. -/
theorem word_make (op : Opcode) (n : Int) :
    (make op n).word = op.byte.toUInt32 <<< 24 ||| (Int32.ofInt n).toUInt32 &&& 0xFFFFFF := by
  apply UInt32.toNat_inj.1
  have hbyte := op.byte.toNat_lt
  have hlow : (n % 2 ^ 32).toNat % 2 ^ 24 = (n % operands).toNat := by
    simp only [operands]
    omega
  have hhigh : op.byte.toNat <<< 24 % 2 ^ 32 = op.byte.toNat <<< 24 := by
    rw [Nat.shiftLeft_eq]
    omega
  have hmask : (0xFFFFFF : UInt32).toNat = 2 ^ 24 - 1 := rfl
  have hamount : (24 : UInt32).toNat % 32 = 24 := rfl
  rw [toNat_word_make, UInt32.toNat_or, UInt32.toNat_and, UInt32.toNat_shiftLeft, hmask, hamount,
    Nat.and_two_pow_sub_one_eq_mod, toNat_toUInt32_ofInt, UInt8.toNat_toUInt32, hlow, hhigh,
    ← Nat.shiftLeft_add_eq_or_of_lt, Nat.shiftLeft_eq]
  simp only [operands]
  omega

end Shifts

/-- Words whose high byte is an operation code and operation codes with an operand that fits stand
for each other, one to one. Words are put together and taken apart by shifts and masks, and without
the check operands that agree in 24 bits give the same word. -/
theorem codec_bijective :
    (∀ (op : Opcode) (n : Int), ((make? op n).isSome ↔ n ∈ op.field) ∧
      ∀ i, make? op n = some i → i.decode? = some (op, n) ∧ make op n = i) ∧
    (∀ (i : Instruction) (op : Opcode) (n : Int),
      i.decode? = some (op, n) → make? op n = some i) ∧
    (∀ i : Instruction, i.decode? = none ↔ ∀ op : Opcode, op.byte ≠ (i.word >>> 24).toUInt8) ∧
    (∀ (op : Opcode) (a b : Int), a ≡ b [ZMOD 2 ^ 24] → make op a = make op b) ∧
    (∀ (op : Opcode) (n : Int),
      (make op n).word = op.byte.toUInt32 <<< 24 ||| (Int32.ofInt n).toUInt32 &&& 0xFFFFFF) ∧
    (∀ (i : Instruction) (op : Opcode) (n : Int), i.decode? = some (op, n) →
      n = if op.isJump ∨ op = .pushInt then ((i.word <<< 8).toInt32 >>> 8).toInt
        else ((i.word &&& 0xFFFFFF).toNat : Int)) := by
  refine ⟨fun op n => ⟨?_, fun i hi => ⟨decode?_eq_some_iff.2 hi, (make?_eq_some_iff.1 hi).2⟩⟩,
    fun i op n => decode?_eq_some_iff.1, fun i => ?_, fun op a b => make_eq_of_modEq, word_make,
    fun i op n hi => ?_⟩
  · rw [← fits_iff, make?]
    split <;> simp_all
  · rw [decode?, Option.map_eq_none_iff, opcode?, Opcode.ofByte?_eq_none_iff, opcodeByte_eq]
  · obtain ⟨-, rfl⟩ := decode?_eq_some_iff_reading.1 hi
    rw [← signed_eq, ← index_eq]
    exact if_congr op.hasSignedOperand_iff rfl rfl

theorem codec_bijective_bounds :
    decode? ⟨0x04800000⟩ = some (.jump, -2 ^ 23) ∧ make? .jump (-2 ^ 23) = some ⟨0x04800000⟩ ∧
      make .jump (-2 ^ 23) = ⟨0x04800000⟩ ∧ ¬ (make? .jump (2 ^ 23)).isSome ∧
      decode? ⟨0x18000000⟩ = none ∧ (-1 : Int) ≡ 2 ^ 24 - 1 [ZMOD 2 ^ 24] ∧
      make .pushLocal (-1) = make .pushLocal (2 ^ 24 - 1) := by
  obtain ⟨hmake, hdecode, hunknown, hmod, -, -⟩ := codec_bijective
  have hlowest : decode? ⟨0x04800000⟩ = some (.jump, -2 ^ 23) := by decide
  have hencoded := hdecode _ _ _ hlowest
  have hagree : (-1 : Int) ≡ 2 ^ 24 - 1 [ZMOD 2 ^ 24] := by decide
  refine ⟨hlowest, hencoded, ((hmake _ _).2 _ hencoded).2, ?_, (hunknown _).2 ?_, hagree,
    hmod _ _ _ hagree⟩
  · rw [(hmake .jump (2 ^ 23)).1]
    exact fun h => absurd h.2 (by decide)
  · intro op hop
    cases op.ofByte?_byte.symm.trans (congrArg Opcode.ofByte? hop)

end Instruction

end StackMachine
