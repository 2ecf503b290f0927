import Mathlib.Data.List.Basic
import StackMachine.Code.Verify

/-! What is known of a module that passes verification, function by function. -/

namespace StackMachine

/-- An index has room in the word that the machine makes of it. -/
theorem Instruction.toNat_ofNat_index (i : Instruction) :
    (UInt32.ofNat i.index).toUInt64.toNat = i.index := by
  have hmod : i.index < operands := Nat.mod_lt _ (by decide)
  have hsmall : i.index < 2 ^ 32 := Nat.lt_trans hmod (by decide)
  rw [UInt32.toNat_toUInt64, UInt32.toNat_ofNat_of_lt' hsmall]

/-- Control can come from the instruction before the sentinel to the sentinel, or there is no
instruction before it. -/
def Func.FallsThrough (f : Func) : Prop :=
  ∀ i, f.code.dropLast.getLast? = some i → i.opcode? ≠ some .functionReturn ∧
    i.opcode? ≠ some .jump ∧ i.opcode? ≠ some .callIndirect

/-- The sentinel stands at the end, and nothing is wrong with the instructions before it. -/
structure Func.Verified (m : Module) (primitives : Nat) (f : Func) : Prop where
  code : f.code = f.code.dropLast ++ [Instruction.endSection]
  passed : ∀ {position i}, f.code.dropLast[position]? = some i →
    Verify.violation? m primitives f position i = none

namespace Verify

variable {m : Module} {primitives : Nat} {f : Func} {position : Nat} {i : Instruction}

theorem verified_of_functionError? (h : functionError? m primitives f = none) :
    f.Verified m primitives := by
  unfold functionError? at h
  cases hlast : f.code.getLast? with
  | none =>
    rw [hlast] at h
    cases h
  | some last =>
    by_cases hend : last.isEnd = true
    · rw [hlast, Option.any_some, if_pos hend, List.findSome?_eq_none_iff] at h
      constructor
      · obtain rfl : last = Instruction.endSection := eq_of_beq hend
        exact (List.dropLast_append_getLast? _ hlast).symm
      · intro position i hi
        have hmem : (i, position) ∈ f.code.dropLast.zipIdx :=
          List.mk_mem_zipIdx_iff_getElem?.2 hi
        exact Option.map_eq_none_iff.1 (h _ hmem)
    · rw [hlast, Option.any_some, if_neg hend] at h
      cases h

theorem opcode_of_violation? (h : violation? m primitives f position i = none) :
    ¬ i.isEnd ∧ ∃ op, i.opcode? = some op ∧ op ≠ .endSection ∧
      operandViolation? m primitives f position i op = none := by
  unfold violation? at h
  split at h
  · cases h
  rename_i hend
  split at h
  · cases h
  · cases h
  · rename_i op hne hop
    exact ⟨hend, op, hop, fun he => hne he, h⟩

/-- Behind the sentinel check there is an unknown operation code, or an operand is out of range. -/
theorem violation_cases {violation : Violation} (hend : ¬ i.isEnd)
    (h : violation? m primitives f position i = some violation) :
    (violation = .unknownOpcode i.opcodeByte ∧
        (i.opcode? = none ∨ i.opcode? = some .endSection)) ∨
      ∃ op, i.opcode? = some op ∧ op ≠ .endSection ∧
        operandViolation? m primitives f position i op = some violation := by
  unfold violation? at h
  rw [if_neg hend] at h
  split at h
  next hop =>
    cases h
    exact .inl ⟨rfl, .inl hop⟩
  next hop =>
    cases h
    exact .inl ⟨rfl, .inr hop⟩
  next op hne hop => exact .inr ⟨op, hop, fun he => hne he, h⟩

theorem not_sentinel_of_violation {violation : Violation} (hend : ¬ i.isEnd)
    (h : violation? m primitives f position i = some violation) :
    violation ≠ .missingEndSection ∧ violation ≠ .earlyEndSection := by
  rcases violation_cases hend h with ⟨rfl, -⟩ | ⟨op, -, -, hoperand⟩
  · exact ⟨nofun, nofun⟩
  cases op with
  | functionCall | primitiveCall | pushParam | popParam | pushLocal | popLocal | pushString
  | jump | branch =>
    obtain ⟨-, ⟨⟩⟩ := Option.ite_none_right_eq_some.1 hoperand
    exact ⟨nofun, nofun⟩
  | _ => cases hoperand

theorem lt_of_bound {bound index : Nat} {violation : Violation}
    (h : (if bound ≤ index then some violation else none) = none) : index < bound := by
  split at h
  · cases h
  · omega

theorem target_of_bounds {bound target : Int} {violation : Violation}
    (h : (if target < 0 ∨ bound ≤ target then some violation else none) = none) :
    0 ≤ target ∧ target < bound := by
  split at h
  · cases h
  · omega

end Verify

theorem verified_of_verify {m : Module} {primitives : Nat} (h : verify m primitives = .ok ()) :
    ∀ f ∈ m.functions, f.Verified m primitives := by
  unfold verify at h
  split at h
  · cases h
  · rename_i hnone
    exact fun f hf => Verify.verified_of_functionError? (List.findSome?_eq_none_iff.1 hnone f hf)

namespace Func.Verified

variable {m : Module} {primitives : Nat} {f : Func}

theorem length_code (h : f.Verified m primitives) :
    f.code.length = f.code.dropLast.length + 1 := by
  rw [h.code, List.dropLast_concat, List.length_append, List.length_singleton]

theorem isEnd_of_mem (h : f.Verified m primitives) {i : Instruction}
    (hi : i ∈ f.code.dropLast) : i.isEnd = false := by
  obtain ⟨position, hposition⟩ := List.mem_iff_getElem?.1 hi
  exact Bool.eq_false_iff.2 (Verify.opcode_of_violation? (h.passed hposition)).1

theorem getLast?_code (h : f.Verified m primitives) :
    f.code.getLast? = some Instruction.endSection := by
  rw [h.code, List.getLast?_concat]

theorem checkEnd (h : f.Verified m primitives) : f.checkEnd = .ok () := by
  have hbody : f.code.dropLast.findIdx? Instruction.isEnd = none :=
    List.findIdx?_eq_none_iff.2 fun _ => h.isEnd_of_mem
  unfold Func.checkEnd
  rw [h.getLast?_code]
  dsimp only
  rw [hbody]
  rfl

/-- A position is that of an instruction or that of the sentinel. -/
theorem instruction_cases (h : f.Verified m primitives) {n : Nat} (hn : n < f.code.length) :
    (∃ i, f.code[n]? = some i ∧ f.code.dropLast[n]? = some i ∧ n + 1 < f.code.length) ∨
      f.code[n]? = some Instruction.endSection ∧ n + 1 = f.code.length := by
  have hlength := h.length_code
  rcases Nat.lt_or_ge n f.code.dropLast.length with hlt | hge
  · left
    have hi : f.code[n]? = some f.code[n] := List.getElem?_eq_getElem hn
    refine ⟨f.code[n], hi, ?_, by omega⟩
    rw [List.getElem?_dropLast, if_pos (by omega), hi]
  · right
    obtain rfl : n = f.code.dropLast.length := by omega
    have hend : (f.code.dropLast ++ [Instruction.endSection])[f.code.dropLast.length]? =
        some Instruction.endSection := List.getElem?_concat_length
    rw [← h.code] at hend
    exact ⟨hend, by omega⟩

theorem fallsThrough {n : Nat} {i : Instruction} {op : Opcode} (h : f.Verified m primitives)
    (hi : f.code.dropLast[n]? = some i) (hn : n + 2 = f.code.length) (hop : i.opcode? = some op)
    (hnext : op ≠ .functionReturn ∧ op ≠ .jump ∧ op ≠ .callIndirect) : f.FallsThrough := by
  have hlength := h.length_code
  intro j hj
  rw [List.getLast?_eq_getElem?, show f.code.dropLast.length - 1 = n by omega, hi] at hj
  cases hj
  simpa only [hop, ne_eq, Option.some.injEq] using hnext

theorem fallsThrough_of_empty (h : f.Verified m primitives) (hempty : 1 = f.code.length) :
    f.FallsThrough := by
  have hlength := h.length_code
  have hbody : f.code.dropLast = [] := List.eq_nil_of_length_eq_zero (by omega)
  intro i hi
  rw [hbody] at hi
  cases hi

end Func.Verified

end StackMachine
