import StackMachine.Proofs.Code.Verified
import StackMachine.Proofs.Lists

/-! What the verifier says of a module. A function is well formed when its stream is a body of
sound instructions with one sentinel behind them. The verifier accepts the modules of well formed
functions and no others; of any other module it reports the first function that is not well formed,
and the first thing wrong with it. -/

namespace StackMachine

theorem Instruction.isEnd_iff (i : Instruction) : i.isEnd ↔ i.word = 0 := by
  obtain ⟨word⟩ := i
  simp [isEnd, endSection]

namespace Verify

/-- What the operand stands for is there. A jump stays inside its function and does not lead to the
sentinel. -/
def InRange (m : Module) (primitives : Nat) (f : Func) (position : Nat) (operand : Int) :
    Opcode → Prop
  | .functionCall => operand < m.functions.length
  | .primitiveCall => operand < primitives
  | .pushParam | .popParam => operand < f.nparams.toNat
  | .pushLocal | .popLocal => operand < f.nlocals.toNat
  | .pushString => operand < m.strings.length
  | .jump | .branch _ =>
    0 ≤ position + 1 + operand ∧ position + 1 + operand < (f.code.length : Int) - 1
  | _ => True

/-- What is reported of an operand that is out of range. -/
inductive OutOfRange (m : Module) (primitives : Nat) (f : Func) (position : Nat) (operand : Int) :
    Opcode → Violation → Prop
  | function : m.functions.length ≤ operand →
      OutOfRange m primitives f position operand .functionCall (.badFunctionIndex operand.toNat)
  | primitive : primitives ≤ operand →
      OutOfRange m primitives f position operand .primitiveCall (.badPrimitiveIndex operand.toNat)
  | param {op : Opcode} : op = .pushParam ∨ op = .popParam → f.nparams.toNat ≤ operand →
      OutOfRange m primitives f position operand op (.badParamIndex operand.toNat)
  | local {op : Opcode} : op = .pushLocal ∨ op = .popLocal → f.nlocals.toNat ≤ operand →
      OutOfRange m primitives f position operand op (.badLocalIndex operand.toNat)
  | string : m.strings.length ≤ operand →
      OutOfRange m primitives f position operand .pushString (.badStringIndex operand.toNat)
  | target {op : Opcode} : op.isJump → position + 1 + operand < 0 ∨
        (f.code.length : Int) - 1 ≤ position + 1 + operand →
      OutOfRange m primitives f position operand op (.badJumpTarget (position + 1 + operand))

/-- An instruction before the sentinel with nothing wrong. -/
def Sound (m : Module) (primitives : Nat) (f : Func) (position : Nat) (i : Instruction) : Prop :=
  ∃ op operand, i.decode? = some (op, operand) ∧ op ≠ .endSection ∧
    InRange m primitives f position operand op

/-- An instruction before the sentinel, and what is wrong with it. The operation code of the
sentinel with an operand is no operation. -/
inductive Offends (m : Module) (primitives : Nat) (f : Func) (position : Nat) (i : Instruction) :
    Violation → Prop
  | sentinel : i.word = 0 → Offends m primitives f position i .earlyEndSection
  | unknown : i.word ≠ 0 → (∀ op operand, i.decode? = some (op, operand) → op = .endSection) →
      Offends m primitives f position i (.unknownOpcode i.opcodeByte)
  | operand {op : Opcode} {operand : Int} {violation : Violation} :
      i.decode? = some (op, operand) → OutOfRange m primitives f position operand op violation →
      Offends m primitives f position i violation

section Instructions

variable {m : Module} {primitives : Nat} {f : Func} {position : Nat} {i : Instruction}
  {op : Opcode} {operand : Int} {violation : Violation}

theorem inRange_iff :
    InRange m primitives f position operand op ↔
      ∀ violation, ¬ OutOfRange m primitives f position operand op violation := by
  constructor
  · rintro hin _ (hout | hout | ⟨rfl | rfl, hout⟩ | ⟨rfl | rfl, hout⟩ | hout | ⟨hjump, hout⟩)
    case target =>
      cases op with
      | jump | branch =>
        obtain ⟨hlow, hhigh⟩ := hin
        omega
      | _ => cases hjump
    all_goals exact absurd hin (Int.not_lt.2 hout)
  · intro hnone
    cases op with
    | functionCall => exact Int.not_le.1 fun h => hnone _ (.function h)
    | primitiveCall => exact Int.not_le.1 fun h => hnone _ (.primitive h)
    | pushParam => exact Int.not_le.1 fun h => hnone _ (.param (.inl rfl) h)
    | popParam => exact Int.not_le.1 fun h => hnone _ (.param (.inr rfl) h)
    | pushLocal => exact Int.not_le.1 fun h => hnone _ (.local (.inl rfl) h)
    | popLocal => exact Int.not_le.1 fun h => hnone _ (.local (.inr rfl) h)
    | pushString => exact Int.not_le.1 fun h => hnone _ (.string h)
    | jump | branch =>
      have hin := mt (OutOfRange.target rfl) (hnone _)
      simp only [InRange]
      omega
    | _ => trivial

theorem ne_endSection_of_outOfRange
    (h : OutOfRange m primitives f position operand op violation) : op ≠ .endSection := by
  rintro rfl
  rcases h with _ | _ | ⟨hop | hop, -⟩ | ⟨hop | hop, -⟩ | _ | ⟨hjump, -⟩
  case target => cases hjump
  all_goals cases hop

theorem operandViolation?_of_inRange (h : i.decode? = some (op, operand))
    (hin : InRange m primitives f position operand op) :
    operandViolation? m primitives f position i op = none := by
  obtain ⟨op', -, ⟨⟩⟩ := Option.map_eq_some_iff.1 h
  cases op with
  | functionCall | primitiveCall | pushParam | popParam | pushLocal | popLocal | pushString =>
    exact if_neg (Nat.not_le.2 (Int.ofNat_lt.1 hin))
  | jump | branch =>
    refine if_neg ?_
    obtain ⟨hlow, hhigh⟩ : 0 ≤ position + 1 + i.signed ∧
      position + 1 + i.signed < (f.code.length : Int) - 1 := hin
    omega
  | _ => rfl

theorem operandViolation?_of_outOfRange (h : i.decode? = some (op, operand))
    (hout : OutOfRange m primitives f position operand op violation) :
    operandViolation? m primitives f position i op = some violation := by
  obtain ⟨op', -, ⟨⟩⟩ := Option.map_eq_some_iff.1 h
  rcases hout with hout | hout | ⟨rfl | rfl, hout⟩ | ⟨rfl | rfl, hout⟩ | hout | ⟨hjump, hout⟩
  case target =>
    cases op with
    | jump | branch => exact if_pos hout
    | _ => cases hjump
  all_goals exact if_pos (Int.ofNat_le.1 hout)

/-- The check of an operand reports what is out of range. -/
theorem operandViolation?_eq_some_iff (h : i.decode? = some (op, operand)) :
    operandViolation? m primitives f position i op = some violation ↔
      OutOfRange m primitives f position operand op violation := by
  refine ⟨fun hviolation => ?_, operandViolation?_of_outOfRange h⟩
  have hnot : ¬ InRange m primitives f position operand op := fun hin => by
    rw [operandViolation?_of_inRange h hin] at hviolation
    cases hviolation
  rw [inRange_iff] at hnot
  push Not at hnot
  obtain ⟨violation', hout⟩ := hnot
  rw [operandViolation?_of_outOfRange h hout] at hviolation
  cases hviolation
  exact hout

theorem violation?_of_decode? (h : i.decode? = some (op, operand)) (hop : op ≠ .endSection) :
    violation? m primitives f position i = operandViolation? m primitives f position i op := by
  have hend : ¬ i.isEnd := fun hend => by
    obtain rfl : i = .endSection := eq_of_beq hend
    cases h
    exact hop rfl
  obtain ⟨op, hopcode, ⟨⟩⟩ := Option.map_eq_some_iff.1 h
  rw [violation?, if_neg hend, hopcode]
  cases op with
  | endSection => exact absurd rfl hop
  | _ => rfl

/-- The verifier finds wrong with an instruction what is wrong with it. -/
theorem violation?_eq_some_iff : violation? m primitives f position i = some violation ↔
    Offends m primitives f position i violation := by
  constructor
  · intro h
    by_cases hend : i.isEnd
    · rw [violation?, if_pos hend] at h
      cases h
      exact .sentinel (i.isEnd_iff.1 hend)
    rcases violation_cases hend h with ⟨rfl, hop⟩ | ⟨op, hop, -, hoperand⟩
    · refine .unknown (mt i.isEnd_iff.2 hend) fun op operand hdecode => ?_
      obtain ⟨op', hop', ⟨⟩⟩ := Option.map_eq_some_iff.1 hdecode
      rcases hop with hop | hop
      · cases hop.symm.trans hop'
      · exact (Option.some.inj (hop.symm.trans hop')).symm
    · have hdecode : i.decode? = some (op, _) := Option.map_eq_some_iff.2 ⟨op, hop, rfl⟩
      exact .operand hdecode ((operandViolation?_eq_some_iff hdecode).1 hoperand)
  · rintro (hword | ⟨hword, hunknown⟩ | ⟨hdecode, hout⟩)
    · exact if_pos (i.isEnd_iff.2 hword)
    · rw [violation?, if_neg (mt i.isEnd_iff.1 hword)]
      cases hop : i.opcode? with
      | none => rfl
      | some op =>
        obtain rfl := hunknown op _ (Option.map_eq_some_iff.2 ⟨op, hop, rfl⟩)
        rfl
    · rw [violation?_of_decode? hdecode (ne_endSection_of_outOfRange hout)]
      exact operandViolation?_of_outOfRange hdecode hout

theorem violation?_eq_none_iff : violation? m primitives f position i = none ↔
    Sound m primitives f position i := by
  constructor
  · intro h
    obtain ⟨-, op, hop, hne, hoperand⟩ := opcode_of_violation? h
    have hdecode : i.decode? = some (op, _) := Option.map_eq_some_iff.2 ⟨op, hop, rfl⟩
    refine ⟨op, _, hdecode, hne, inRange_iff.2 fun violation hout => ?_⟩
    rw [operandViolation?_of_outOfRange hdecode hout] at hoperand
    cases hoperand
  · rintro ⟨op, operand, hdecode, hne, hin⟩
    rw [violation?_of_decode? hdecode hne]
    exact operandViolation?_of_inRange hdecode hin

end Instructions

end Verify

namespace Func

/-- A stream that ends with the sentinel, and every instruction before the last one is sound. -/
structure WellFormed (m : Module) (primitives : Nat) (f : Func) : Prop where
  nonempty : f.code ≠ []
  sentinel : ∀ last, f.code.getLast? = some last → last.word = 0
  earlier : ∀ position i, position + 1 < f.code.length → f.code[position]? = some i →
    Verify.Sound m primitives f position i

/-- What is said of a function that is not well formed: that no sentinel ends it, or else the first
of its instructions that offends. -/
inductive Reported (m : Module) (primitives : Nat) (f : Func) : VerifyError → Prop
  | unended : (∀ last, f.code.getLast? = some last → last.word ≠ 0) →
      Reported m primitives f ⟨f.name, f.code.length, .missingEndSection⟩
  | offence {position : Nat} {i : Instruction} {violation : Violation} :
      (∃ last, f.code.getLast? = some last ∧ last.word = 0) →
      position + 1 < f.code.length → f.code[position]? = some i →
      Verify.Offends m primitives f position i violation →
      (∀ earlier j, earlier < position → f.code[earlier]? = some j →
        Verify.Sound m primitives f earlier j) →
      Reported m primitives f ⟨f.name, position, violation⟩

end Func

section Functions

variable {m : Module} {primitives : Nat} {f : Func} {e : VerifyError}

theorem Func.endsWithSentinel_iff : f.code.getLast?.any Instruction.isEnd = true ↔
    ∃ last, f.code.getLast? = some last ∧ last.word = 0 := by
  simp only [Option.any_eq_true, Instruction.isEnd_iff]

theorem Func.getElem?_dropLast_eq_some_iff {position : Nat} {i : Instruction} :
    f.code.dropLast[position]? = some i ↔
      position + 1 < f.code.length ∧ f.code[position]? = some i := by
  rw [List.getElem?_dropLast, Option.ite_none_right_eq_some, Nat.lt_sub_iff_add_lt]

/-- A function passes the verifier just when it is well formed. -/
theorem functionError?_eq_none_iff : Verify.functionError? m primitives f = none ↔
    f.WellFormed m primitives := by
  constructor
  · intro h
    have hverified := Verify.verified_of_functionError? h
    refine ⟨fun hempty => ?_, fun last hlast => ?_, fun position i hposition hi => ?_⟩
    · have hlast := hverified.getLast?_code
      rw [hempty] at hlast
      cases hlast
    · cases hlast.symm.trans hverified.getLast?_code
      rfl
    · have hbody := Func.getElem?_dropLast_eq_some_iff.2 ⟨hposition, hi⟩
      exact Verify.violation?_eq_none_iff.1 (hverified.passed hbody)
  · rintro ⟨hne, hsentinel, hearlier⟩
    have hlast := List.getLast?_eq_some_getLast hne
    rw [Verify.functionError?,
      if_pos (Func.endsWithSentinel_iff.2 ⟨_, hlast, hsentinel _ hlast⟩),
      List.findSome?_eq_none_iff]
    rintro ⟨i, position⟩ hmem
    obtain ⟨hposition, hi⟩ :=
      Func.getElem?_dropLast_eq_some_iff.1 (List.mk_mem_zipIdx_iff_getElem?.1 hmem)
    exact Option.map_eq_none_iff.2
      (Verify.violation?_eq_none_iff.2 (hearlier position i hposition hi))

/-- The verifier's report on a function is the one that is due. -/
theorem functionError?_eq_some_iff : Verify.functionError? m primitives f = some e ↔
    f.Reported m primitives e := by
  unfold Verify.functionError?
  split
  next hends =>
    rw [Func.endsWithSentinel_iff] at hends
    simp only [findSome?_zipIdx_eq_some_iff, Func.getElem?_dropLast_eq_some_iff,
      Option.map_eq_some_iff, Option.map_eq_none_iff, Verify.violation?_eq_some_iff,
      Verify.violation?_eq_none_iff]
    constructor
    · rintro ⟨position, i, ⟨hposition, hi⟩, ⟨violation, hoffends, rfl⟩, hbefore⟩
      exact .offence hends hposition hi hoffends fun earlier j hlt hj =>
        hbefore earlier j hlt ⟨by omega, hj⟩
    · rintro (hnone | @⟨position, i, violation, -, hposition, hi, hoffends, hbefore⟩)
      · obtain ⟨last, hlast, hword⟩ := hends
        exact absurd hword (hnone last hlast)
      · exact ⟨position, i, ⟨hposition, hi⟩, ⟨violation, hoffends, rfl⟩,
          fun k j hk hj => hbefore k j hk hj.2⟩
  next hends =>
    rw [Func.endsWithSentinel_iff] at hends
    constructor
    · rintro ⟨⟩
      exact .unended fun last hlast hword => hends ⟨last, hlast, hword⟩
    · rintro (hnone | ⟨hlast, -⟩)
      · rfl
      · exact absurd hlast hends

theorem Func.Reported.not_wellFormed (h : f.Reported m primitives e) :
    ¬ f.WellFormed m primitives := by
  intro hwell
  rw [← functionError?_eq_none_iff, functionError?_eq_some_iff.2 h] at hwell
  cases hwell

end Functions

/-- More primitives take nothing away from what is well formed. -/
theorem Func.WellFormed.mono {m : Module} {f : Func} {primitives primitives' : Nat}
    (hle : primitives ≤ primitives') (h : f.WellFormed m primitives) :
    f.WellFormed m primitives' := by
  refine ⟨h.nonempty, h.sentinel, fun position i hposition hi => ?_⟩
  obtain ⟨op, operand, hdecode, hne, hin⟩ := h.earlier position i hposition hi
  refine ⟨op, operand, hdecode, hne, ?_⟩
  cases op with
  | primitiveCall => exact Int.lt_of_lt_of_le hin (Int.ofNat_le.2 hle)
  | _ => exact hin

section Modules

variable {m : Module} {primitives : Nat} {e : VerifyError}

theorem verify_eq_ok_iff : verify m primitives = .ok () ↔
    ∀ f ∈ m.functions, f.WellFormed m primitives := by
  simp only [← functionError?_eq_none_iff, ← List.findSome?_eq_none_iff]
  unfold verify
  cases m.functions.findSome? (Verify.functionError? m primitives) <;> simp

theorem verify_eq_error_iff : verify m primitives = .error e ↔
    ∃ f, FirstOf (¬ Func.WellFormed m primitives ·) m.functions f ∧
      f.Reported m primitives e := by
  have hfound : verify m primitives = .error e ↔
      m.functions.findSome? (Verify.functionError? m primitives) = some e := by
    unfold verify
    cases m.functions.findSome? (Verify.functionError? m primitives) <;> simp
  simp only [hfound, List.findSome?_eq_some_iff, functionError?_eq_none_iff,
    functionError?_eq_some_iff]
  constructor
  · rintro ⟨before, f, after, hfunctions, hf, hbefore⟩
    exact ⟨f, ⟨before, after, hfunctions, hf.not_wellFormed,
      fun g hg => not_not_intro (hbefore g hg)⟩, hf⟩
  · rintro ⟨f, ⟨before, after, hfunctions, -, hbefore⟩, hf⟩
    exact ⟨before, f, after, hfunctions, hf, fun g hg => not_not.1 (hbefore g hg)⟩

end Modules

/-- The verifier decides whether every function of a module is well formed. It reports the first one
that is not, and the first thing wrong with it; with more primitives it accepts no less. -/
theorem verify_exact (m : Module) (primitives : Nat) :
    (verify m primitives = .ok () ↔ ∀ f ∈ m.functions, f.WellFormed m primitives) ∧
      (∀ e, verify m primitives = .error e ↔
        ∃ f, FirstOf (¬ Func.WellFormed m primitives ·) m.functions f ∧
          f.Reported m primitives e) ∧
      ∀ more, primitives ≤ more → verify m primitives = .ok () → verify m more = .ok () := by
  refine ⟨verify_eq_ok_iff, fun e => verify_eq_error_iff, fun more hle h => ?_⟩
  rw [verify_eq_ok_iff] at h ⊢
  exact fun f hf => (h f hf).mono hle

/-- The second function holds a word that is not the sentinel but has its operation code, and then
jumps onto its own end. -/
def crooked : Module where
  functions := [⟨"prints", 0, 0, [.make .primitiveCall 2, .make .functionReturn 0, .endSection]⟩,
    ⟨"strays", 1, 0, [.make .pushParam 0, ⟨5⟩, .make .jump 0, .endSection]⟩]

theorem verify_exact_crooked :
    verify crooked 3 = .error ⟨"strays", 1, .unknownOpcode 0⟩ ∧
      verify crooked 2 = .error ⟨"prints", 0, .badPrimitiveIndex 2⟩ ∧
      (∀ f ∈ (crooked.functions.take 1), f.WellFormed crooked 3) ∧
      verify { crooked with functions := crooked.functions.take 1 } 4 = .ok () := by
  obtain ⟨-, hreport, -⟩ := verify_exact crooked 3
  obtain ⟨-, hreport', -⟩ := verify_exact crooked 2
  obtain ⟨-, -, hmono⟩ := verify_exact { crooked with functions := crooked.functions.take 1 } 3
  have hprints : Func.WellFormed crooked 3 crooked.functions[0] :=
    functionError?_eq_none_iff.1 (by decide)
  have hcalls : Func.Reported crooked 2 crooked.functions[0]
      ⟨"prints", 0, .badPrimitiveIndex 2⟩ :=
    .offence ⟨_, rfl, rfl⟩ (by decide) rfl (.operand rfl (.primitive (by decide))) nofun
  have hstrays : Func.Reported crooked 3 crooked.functions[1]
      ⟨"strays", 1, .unknownOpcode 0⟩ := by
    refine .offence ⟨_, rfl, rfl⟩ (by decide) rfl (.unknown (by decide) ?_) ?_
    · rintro op operand ⟨⟩
      rfl
    · intro earlier j hlt hj
      obtain rfl : earlier = 0 := Nat.lt_one_iff.1 hlt
      obtain rfl : .make .pushParam 0 = j := Option.some.inj hj
      exact ⟨.pushParam, 0, by decide, nofun, show (0 : Int) < 1 by decide⟩
  refine ⟨(hreport _).2 ⟨_, ⟨[_], [], rfl, hstrays.not_wellFormed, ?_⟩, hstrays⟩,
    (hreport' _).2 ⟨_, ⟨[], [_], rfl, hcalls.not_wellFormed, nofun⟩, hcalls⟩, ?_, ?_⟩
  · exact List.forall_mem_singleton.2 (not_not_intro hprints)
  · exact List.forall_mem_singleton.2 hprints
  · exact hmono 4 (by decide) (by decide)

end StackMachine
