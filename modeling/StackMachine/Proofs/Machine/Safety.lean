import StackMachine.Proofs.Code.Verified
import StackMachine.Proofs.Image.Packing
import StackMachine.Proofs.Machine.Calls

/-! Verified code stays in its bounds. A verified module run is compared with itself: activations
stand at instructions that verification has seen, unsigned words are indices of strings, and what is
left are the faults that data can cause. -/

namespace StackMachine

/-- Only code or a heap that is broken can come to such an end. -/
def Fault.isStructural : Fault → Bool
  | .unknownOpcode .. | .ipOutOfBounds .. | .paramOutOfRange .. | .localOutOfRange ..
  | .unknownPrimitive .. | .module _ | .memory _ => true
  | _ => false

theorem Fault.not_isStructural_of_isOrdinary {f : Fault} (h : f.isOrdinary) :
    ¬ f.isStructural := by
  cases f <;> simp_all [Fault.isOrdinary, Fault.isStructural]

namespace Activation

variable {a : Activation} {arena : Arena} {f : Func} {n : Nat} {i : Instruction}
  (h : arena.Shows f a.function) (hip : a.ip = n) (hi : f.code[n]? = some i)
include h hip hi

theorem reads_of_shows : ¬ (a.ip < 0 ∨ (a.function.codeLength : Int) ≤ a.ip) ∧
    arena.instruction a.function a.ip.toNat = .ok i := by
  obtain ⟨hn, -⟩ := List.getElem?_eq_some_iff.1 hi
  rw [h.codeLength, hip]
  exact ⟨by omega, h.code hi⟩

theorem fetch_of_isEnd (hend : i.isEnd) : a.fetch arena = .error (.fellOffEnd f.name) := by
  obtain ⟨hbounds, hread⟩ := reads_of_shows h hip hi
  simp only [fetch, if_neg hbounds, hread, if_pos hend, h.name]

theorem fetch_of_opcode (hend : ¬ i.isEnd) {op : Opcode} (hop : i.opcode? = some op) :
    a.fetch arena = .ok (i, op, if op.hasSignedOperand then i.signed else i.index) := by
  obtain ⟨hbounds, hread⟩ := reads_of_shows h hip hi
  simp only [fetch, if_neg hbounds, hread, if_neg hend, Instruction.decode?, hop, Option.map_some]

theorem fetch_of_unknown (hend : ¬ i.isEnd) (hop : i.opcode? = none) :
    a.fetch arena = .error (.unknownOpcode f.name a.ip.toNat i.opcodeByte) := by
  obtain ⟨hbounds, hread⟩ := reads_of_shows h hip hi
  simp only [fetch, if_neg hbounds, hread, if_neg hend, Instruction.decode?, hop, Option.map_none,
    h.name]

end Activation

/-- The activation stands in the function, and at its sentinel only if it falls through. -/
structure Activation.Stands (a : Activation) (m : Module) (arena : Arena) (f : Func) : Prop where
  function : m.functions[a.function.index]? = some f
  shows : arena.Shows f a.function
  position : ∃ n : Nat, a.ip = n ∧ n < f.code.length ∧ (n + 1 = f.code.length → f.FallsThrough)

namespace Activation

variable {a : Activation} {m : Module} {arena : Arena} {f : Func}

theorem Stands.advance (h : a.Stands m arena f) {offset : Int} {n : Nat}
    (hip : a.ip + 1 + offset = n) (hn : n < f.code.length)
    (hend : n + 1 = f.code.length → f.FallsThrough) : (a.advance offset).Stands m arena f :=
  ⟨h.function, h.shows, n, hip, hn, hend⟩

/-- What is fetched is an instruction that verification has seen, or it is the sentinel. -/
theorem Stands.fetch_cases {primitives : Nat} (h : a.Stands m arena f)
    (hf : f.Verified m primitives) :
    (∃ (n : Nat) (i : Instruction) (op : Opcode), a.ip = n ∧ n + 1 < f.code.length ∧
      f.code.dropLast[n]? = some i ∧ i.opcode? = some op ∧ op ≠ .endSection ∧
      Verify.operandViolation? m primitives f n i op = none ∧
      a.fetch arena = .ok (i, op, if op.hasSignedOperand then i.signed else i.index)) ∨
      f.FallsThrough ∧ a.fetch arena = .error (.fellOffEnd f.name) := by
  obtain ⟨n, hip, hn, hend⟩ := h.position
  rcases hf.instruction_cases hn with ⟨i, hi, hbody, hlt⟩ | ⟨hi, hlast⟩
  · left
    obtain ⟨hsentinel, op, hop, hne, hoperand⟩ := Verify.opcode_of_violation? (hf.passed hbody)
    exact ⟨n, i, op, hip, hlt, hbody, hop, hne, hoperand,
      fetch_of_opcode h.shows hip hi hsentinel hop⟩
  · exact .inr ⟨hend hlast, fetch_of_isEnd h.shows hip hi rfl⟩

end Activation

/-- A fault that verified code can come to. Only a function that falls through falls off its end. -/
def Module.Tolerates (m : Module) (fault : Fault) : Prop :=
  ¬ fault.isStructural ∧
    ∀ name, fault = .fellOffEnd name → ∃ f ∈ m.functions, f.name = name ∧ f.FallsThrough

theorem Module.tolerates_of_isOrdinary (m : Module) {fault : Fault} (h : fault.isOrdinary) :
    m.Tolerates fault := by
  refine ⟨Fault.not_isStructural_of_isOrdinary h, ?_⟩
  rintro name rfl
  cases h

/-- An unsigned word is the index of a string. -/
def Module.HasWord (m : Module) (v : Value) : Prop :=
  ∀ n, v = .uint48 n → n.toNat < m.strings.length

/-- Texts are short enough to be packed. -/
structure Module.Short (m : Module) : Prop where
  names : ∀ f ∈ m.functions, f.name.utf8ByteSize < 2 ^ 32
  strings : ∀ s ∈ m.strings, s.utf8ByteSize < 2 ^ 32

namespace Machine

/-- A run next to itself. -/
def guarded (m : Module) (setting : Setting) : Comparison where
  left := setting
  right := setting
  word := m.HasWord
  code a₁ a₂ := a₁ = a₂ ∧ ∃ f, a₁.Stands m setting.arena f
  entry index := index < m.functions.length
  allowed := m.Tolerates
  outputs := Eq
  rigid := True

variable {m : Module} {setting : Setting} {a : Activation} {f : Func} {n : Nat} {i : Instruction}
  {op : Opcode}

theorem operand_of_passed (h : a.Stands m setting.arena f)
    (hpassed : Verify.operandViolation? m 3 f n i op = none) (hend : op ≠ .endSection) :
    (guarded m setting).Operand a a (if op.hasSignedOperand then i.signed else i.index) op := by
  cases op with
  | endSection => exact absurd rfl hend
  | functionCall => exact Verify.lt_of_bound hpassed
  | primitiveCall => exact .inl (Verify.lt_of_bound hpassed)
  | pushLocal | popLocal =>
    have hlt : i.index < a.function.nlocals.toNat := by
      rw [h.shows.nlocals]
      exact Verify.lt_of_bound hpassed
    have hslot : a.localSlot i.index = .ok (a.locals + i.index) := if_pos hlt
    exact Agree.self (fun _ _ => rfl) fun e he => absurd (hslot.symm.trans he) nofun
  | pushParam | popParam =>
    have hlt : i.index < a.function.nparams.toNat := by
      rw [h.shows.nparams]
      exact Verify.lt_of_bound hpassed
    have hslot : a.paramSlot i.index = .ok (a.base + i.index) := if_pos hlt
    exact Agree.self (fun _ _ => rfl) fun e he => absurd (hslot.symm.trans he) nofun
  | pushString =>
    have hlt : i.index < m.strings.length := Verify.lt_of_bound hpassed
    rintro w ⟨⟩
    change (UInt32.ofNat i.index).toUInt64.toNat < m.strings.length
    rwa [i.toNat_ofNat_index]
  | _ => trivial

theorem stands_of_lands (h : a.Stands m setting.arena f) (hf : f.Verified m 3)
    (hip : a.ip = n) (hn : n + 1 < f.code.length) (hi : f.code.dropLast[n]? = some i)
    (hop : i.opcode? = some op) (hpassed : Verify.operandViolation? m 3 f n i op = none)
    {offset : Int} (hlands : op.Lands (if op.hasSignedOperand then i.signed else i.index) offset) :
    (a.advance offset).Stands m setting.arena f := by
  -- one instruction further is the sentinel only behind the last instruction
  have hahead : op ≠ .functionReturn ∧ op ≠ .jump ∧ op ≠ .callIndirect → offset = 0 →
      (a.advance offset).Stands m setting.arena f := by
    rintro hgoes rfl
    refine h.advance (n := n + 1) (by omega) hn fun hlast => ?_
    exact hf.fallsThrough hi hlast hop hgoes
  have hjump : 0 ≤ (n : Int) + 1 + i.signed ∧ (n : Int) + 1 + i.signed < f.code.length - 1 →
      offset = i.signed → (a.advance offset).Stands m setting.arena f := by
    rintro ⟨hlow, hhigh⟩ rfl
    obtain ⟨target, htarget⟩ := Int.eq_ofNat_of_zero_le hlow
    exact h.advance (n := target) (by omega) (by omega) (by omega)
  cases op with
  | functionReturn | callIndirect | endSection => exact hlands.elim
  | jump => exact hjump (Verify.target_of_bounds hpassed) hlands
  | branch relation =>
    rcases hlands with hzero | htaken
    · exact hahead ⟨nofun, nofun, nofun⟩ hzero
    · exact hjump (Verify.target_of_bounds hpassed) htaken
  | _ => exact hahead ⟨nofun, nofun, nofun⟩ hlands

section Verified

variable (hm : ∀ f ∈ m.functions, f.Verified m 3)
include hm

/-- What is fetched does no harm, and neither does where it goes on; or a fault is tolerated. -/
theorem fetch_of_stands (h : a.Stands m setting.arena f) :
    (∃ i op operand, a.fetch setting.arena = .ok (i, op, operand) ∧
      (guarded m setting).Operand a a operand op ∧
      ∀ offset, op.Lands operand offset → (a.advance offset).Stands m setting.arena f) ∨
    ∃ fault, a.fetch setting.arena = .error fault ∧ m.Tolerates fault := by
  have hmem := List.mem_of_getElem? h.function
  rcases h.fetch_cases (hm f hmem) with
    ⟨n, i, op, hip, hn, hi, hop, hend, hpassed, hfetch⟩ | ⟨hfalls, hfetch⟩
  · exact .inl ⟨i, op, _, hfetch, operand_of_passed h hpassed hend,
      fun _ hlands => stands_of_lands h (hm f hmem) hip hn hi hop hpassed hlands⟩
  · refine .inr ⟨_, hfetch, nofun, ?_⟩
    rintro name ⟨⟩
    exact ⟨f, hmem, rfl, hfalls⟩

variable {arena : Arena} (hshort : m.Short) (hpacked : arena.Packed m)
include hshort hpacked

/-- A call finds its function, and stands at the first instruction. -/
theorem exists_entry {index : Nat} (hindex : index < m.functions.length) :
    ∃ f r, m.functions[index]? = some f ∧ arena.functionRecord index = .ok r ∧ r.index = index ∧
      arena.Shows f r ∧ ∀ base, (⟨r, base, 0⟩ : Activation).Stands m arena f := by
  have hf : m.functions[index]? = some m.functions[index] := List.getElem?_eq_getElem hindex
  have hmem := List.getElem_mem hindex
  obtain ⟨r, hr, rfl, hshows⟩ := hpacked.functionRecord hf (hshort.names _ hmem)
  have hlength := (hm _ hmem).length_code
  refine ⟨_, r, hf, hr, rfl, hshows, fun base => ⟨hf, hshows, 0, rfl, by omega, ?_⟩⟩
  exact (hm _ hmem).fallsThrough_of_empty

end Verified

theorem guarded_lawful (hm : ∀ f ∈ m.functions, f.Verified m 3) (hshort : m.Short)
    (hpacked : setting.arena.Packed m) (hprimitives : setting.primitives = .standard)
    (hinterpreted : ∀ i : Nat, setting.compiled[i]?.join = none) :
    (guarded m setting).Lawful where
  ordinary hf := m.tolerates_of_isOrdinary hf
  int n := nofun
  text {n} hn := by
    have hlt : n.toNat < m.strings.length := hn n rfl
    have hs : m.strings[n.toNat]? = some m.strings[n.toNat] := List.getElem?_eq_getElem hlt
    have hread := hpacked.string hs (hshort.strings _ (List.getElem_mem hlt))
    exact Agree.self (fun _ _ => rfl) fun e he => absurd (hread.symm.trans he) nofun
  fetch {a₁ a₂} ha := by
    obtain ⟨rfl, f, h⟩ := ha
    rcases fetch_of_stands hm h with ⟨i, op, operand, hfetch, ho, hl⟩ | ⟨fault, hfetch, hfault⟩
    · simp only [guarded, hfetch]
      exact .ok ⟨rfl, rfl, ho, fun offset hlands => ⟨rfl, f, hl offset hlands⟩⟩
    · simp only [guarded, hfetch]
      exact .error hfault
  entry {i} hi := by
    obtain ⟨f, r, -, hr, -, -, hstands⟩ := exists_entry hm hshort hpacked hi
    simp only [guarded, hr]
    exact .ok ⟨rfl, rfl, fun base => ⟨rfl, f, hstands base⟩⟩
  write {o₁ o₂} ho bytes := by
    obtain rfl : o₁ = o₂ := ho
    exact ⟨rfl, rfl⟩
  depth := rfl
  primitives := ⟨hprimitives, hprimitives⟩
  interpreted i := ⟨hinterpreted i, hinterpreted i⟩

theorem stands_of_states {u u' : State} (h : (guarded m setting).States u u')
    (hu : u.control = .execute a) : ∃ f, a.Stands m setting.arena f := by
  cases h with
  | faulted => cases hu
  | going _ _ hc =>
    cases hc with
    | enter => cases hu
    | deliver => cases hu
    | execute hc =>
      cases hu
      exact hc.2

end Machine

end StackMachine
