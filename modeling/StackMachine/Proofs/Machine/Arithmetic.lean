import Mathlib.Data.Int.ModEq
import StackMachine.Machine.Arith

/-! Arithmetic is exact modulo 2^48. A result is cut twice, to the 64 bits of the machine word and
from there to 48, and since the one modulus divides the other this is the same as cutting the exact
result once. The quotients that leave the 64 or the 48 bits are no exception. -/

namespace StackMachine

/-- The result over the integers; a quotient is rounded towards zero. -/
def BinaryOp.exact : BinaryOp → Int → Int → Int
  | .sub, a, b => a - b
  | .add, a, b => a + b
  | .mul, a, b => a * b
  | .div, a, b => a.tdiv b

/-- `k` has 48 bits, in two's complement, and agrees with `n` on them. -/
structure Value.Wraps (n k : Int) : Prop where
  lower : -0x800000000000 ≤ k
  upper : k ≤ 0x7fffffffffff
  modEq : k ≡ n [ZMOD 0x1000000000000]

theorem Value.wraps_iff {n k : Int} : Wraps n k ↔ k = n.bmod 0x1000000000000 := by
  rw [eq_comm, Int.bmod_eq_iff (by decide)]
  constructor
  · rintro ⟨hlower, hupper, hmod⟩
    exact ⟨hlower, Int.lt_add_one_of_le hupper, Int.modEq_iff_dvd.1 hmod.symm⟩
  · rintro ⟨hlower, hupper, hdvd⟩
    exact ⟨hlower, Int.le_of_lt_add_one hupper, (Int.modEq_iff_dvd.2 hdvd).symm⟩

namespace BinaryOp

variable {op : BinaryOp} {a b : Int64}

theorem apply_div_zero (a : Int64) : div.apply a 0 = .error .divisionByZero := rfl

/-- In the machine word the exact result is cut to 64 bits. -/
theorem apply_of_ne (h : ¬ (op = .div ∧ b = 0)) : ∃ n, op.apply a b = .ok n ∧
    n.toInt = (op.exact a.toInt b.toInt).bmod 0x10000000000000000 := by
  cases op with
  | sub => exact ⟨a - b, rfl, Int64.toInt_sub a b⟩
  | add => exact ⟨a + b, rfl, Int64.toInt_add a b⟩
  | mul => exact ⟨a * b, rfl, Int64.toInt_mul a b⟩
  | div =>
    have hb : b ≠ 0 := fun hb => h ⟨rfl, hb⟩
    exact ⟨a / b, if_neg hb, Int64.toInt_div a b⟩

end BinaryOp

namespace Arith

theorem binary_int48 (op : BinaryOp) (a b : Int64) :
    binary (.binary op) (.int48 a) (.int48 b) = (op.apply a b).map Value.int := by
  cases h : op.apply a b <;> simp [binary, expectInt, h, bind, Except.bind, pure, Except.pure,
    Except.map]

/-- Nothing faults but a division by zero; any other result is the one integer of 48 bits that
agrees with the exact result modulo 2^48, whatever the operands. -/
theorem binary_exact (op : BinaryOp) (a b : Int64) :
    ((∃ f, binary (.binary op) (.int48 a) (.int48 b) = .error f) ↔ op = .div ∧ b = 0) ∧
      (op = .div ∧ b = 0 →
        binary (.binary op) (.int48 a) (.int48 b) = .error .divisionByZero) ∧
      (¬ (op = .div ∧ b = 0) → ∃ n, binary (.binary op) (.int48 a) (.int48 b) = .ok (.int48 n) ∧
        ∀ k, Value.Wraps (op.exact a.toInt b.toInt) k ↔ k = n.toInt) := by
  rw [binary_int48]
  by_cases h : op = .div ∧ b = 0
  · obtain ⟨rfl, rfl⟩ := h
    rw [BinaryOp.apply_div_zero]
    exact ⟨⟨fun _ => ⟨rfl, rfl⟩, fun _ => ⟨_, rfl⟩⟩, fun _ => rfl, fun h => absurd ⟨rfl, rfl⟩ h⟩
  · obtain ⟨n, hn, hcut⟩ := BinaryOp.apply_of_ne (a := a) h
    rw [hn]
    refine ⟨⟨?_, fun hzero => absurd hzero h⟩, fun hzero => absurd hzero h, fun _ => ?_⟩
    · rintro ⟨f, hf⟩
      cases hf
    · refine ⟨Value.wrap48 n, rfl, fun k => ?_⟩
      -- 2^48 divides 2^64, so what the word has lost does not count
      rw [Value.wraps_iff, Value.toInt_wrap48, hcut, Int.bmod_bmod_of_dvd (by decide)]

/-- The quotients that overflow, a product of more than 64 bits, and a division by zero. -/
theorem binary_exact_extremes :
    ¬ (BinaryOp.div = .div ∧ (-1 : Int64) = 0) ∧
    binary (.binary .div) (.int48 (-0x8000000000000000)) (.int48 (-1)) = .ok (.int48 0) ∧
    binary (.binary .div) (.int48 (-0x800000000000)) (.int48 (-1)) =
      .ok (.int48 (-0x800000000000)) ∧
    binary (.binary .mul) (.int48 0x7fffffffffffffff) (.int48 0x7fffffffffffffff) =
      .ok (.int48 1) ∧
    binary (.binary .div) (.int48 1) (.int48 0) = .error .divisionByZero := by
  have hne : ¬ (BinaryOp.div = .div ∧ (-1 : Int64) = 0) := by decide
  obtain ⟨m, hm, hword⟩ := (binary_exact .div (-0x8000000000000000) (-1)).2.2 hne
  obtain ⟨n, hn, hshort⟩ := (binary_exact .div (-0x800000000000) (-1)).2.2 hne
  obtain ⟨p, hp, hproduct⟩ :=
    (binary_exact .mul 0x7fffffffffffffff 0x7fffffffffffffff).2.2 (by decide)
  have hzero : (0 : Int64) = m := Int64.toInt_inj.1 ((hword _).1 ⟨by decide, by decide, by decide⟩)
  have hleast : (-0x800000000000 : Int64) = n :=
    Int64.toInt_inj.1 ((hshort _).1 ⟨by decide, by decide, by decide⟩)
  have hone : (1 : Int64) = p := Int64.toInt_inj.1 ((hproduct _).1 ⟨by decide, by decide, by decide⟩)
  exact ⟨hne, hzero ▸ hm, hleast ▸ hn, hone ▸ hp, (binary_exact .div 1 0).2.1 ⟨rfl, rfl⟩⟩

end Arith

end StackMachine
