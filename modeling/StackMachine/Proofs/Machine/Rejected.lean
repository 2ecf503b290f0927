import StackMachine.Proofs.Machine.Interchange
import StackMachine.Proofs.Machine.Interpreted

/-! Verification rejects no code that could run. Whatever it finds wrong with an instruction, the
machine finds as well once it comes there: it faults, or it goes on to a place or with a value at
which it can only fault. -/

namespace StackMachine

/-- What is wrong with a function that ends as it should is an instruction before the end. -/
theorem exists_of_functionError? {m : Module} {primitives : Nat} {f : Func} {e : VerifyError}
    (hends : Image.Ended f.code) (h : Verify.functionError? m primitives f = some e) :
    e.function = f.name ∧ ∃ i, f.code[e.index]? = some i ∧ ¬ i.isEnd ∧
      Verify.violation? m primitives f e.index i = some e.violation := by
  obtain ⟨body, hcode, hbody⟩ := hends
  have hlast : f.code.getLast?.any Instruction.isEnd = true := by
    rw [hcode, List.getLast?_concat]
    rfl
  unfold Verify.functionError? at h
  rw [if_pos hlast] at h
  obtain ⟨⟨i, position⟩, hmem, hfound⟩ := List.exists_of_findSome?_eq_some h
  obtain ⟨violation, hviolation, rfl⟩ := Option.map_eq_some_iff.1 hfound
  have hi := List.mk_mem_zipIdx_iff_getElem?.1 hmem
  rw [hcode, List.dropLast_concat] at hi
  refine ⟨rfl, i, ?_, ?_, hviolation⟩
  · rw [hcode]
    exact (List.getElem?_append_left (List.getElem?_eq_some_iff.1 hi).1).trans hi
  · rw [hbody i (List.mem_of_getElem? hi)]
    exact Bool.false_ne_true

/-- The first function that is rejected decides. -/
theorem exists_of_verify_error {m : Module} {primitives : Nat} {e : VerifyError}
    (h : verify m primitives = .error e) :
    ∃ before f after, m.functions = before ++ f :: after ∧
      (∀ g ∈ before, g.Verified m primitives) ∧ Verify.functionError? m primitives f = some e := by
  unfold verify at h
  split at h
  next found hfound =>
    cases h
    obtain ⟨before, f, after, hfunctions, hf, hbefore⟩ := List.findSome?_eq_some_iff.1 hfound
    exact ⟨before, f, after, hfunctions,
      fun g hg => Verify.verified_of_functionError? (hbefore g hg), hf⟩
  · cases h

namespace Machine

open StackMachine.Action

/-- So many steps on, the function at hand has been left with the fault. But for the log, the store
is as it was. -/
def Faults (x : Setting) (steps : Nat) (u : State) (fault : Fault) : Prop :=
  ∃ log, after x steps u = some (leave { u.store with log } u.depth u.frames (.error fault))

/-- The jump is not made, for a fault or since its condition does not hold, or it leads to the
target, where the next step faults. -/
def Strays (x : Setting) (f : Func) (a : Activation) (u : State) (target : Int) : Prop :=
  ∃ s, (∃ fault, step? x u = some (leave s u.depth u.frames (.error fault))) ∨
    (step? x u = some ⟨s, u.depth, u.frames, .execute (a.advance 0)⟩ ∧
      ∃ i relation operand, a.fetch x.arena = .ok (i, .branch relation, operand)) ∨
    ∃ offset, (a.advance offset).ip = target ∧
      step? x u = some ⟨s, u.depth, u.frames, .execute (a.advance offset)⟩ ∧
      Faults x 1 ⟨s, u.depth, u.frames, .execute (a.advance offset)⟩
        (if target = f.code.length - 1 then .fellOffEnd f.name else .ipOutOfBounds f.name target)

/-- Comparing strings and printing one end with the fault when they come to resolve the value. -/
structure Unresolvable (x : Setting) (v : Value) (fault : Fault) : Prop where
  left : ∀ relation w, Arith.jumpTaken (.branch relation) v (.uint48 w) x.arena = .error fault
  right : ∀ relation w bytes, Arith.stringBytes x.arena w = .ok bytes →
    Arith.jumpTaken (.branch relation) (.uint48 w) v x.arena = .error fault
  prints : ∀ depth below (t : Store), t.stack.values = below.push v →
    Primitive.printString.advance x.module x.arena depth t =
      (.finished (.error fault), { t with stack := { t.stack with values := below } })

/-- The value is pushed, if there is room for it. -/
def Pushes (x : Setting) (a : Activation) (u : State) (v : Value) : Prop :=
  ∃ log, step? x u = some (if u.store.stack.height < u.store.stack.limit then
      ⟨{ u.store with stack := { u.store.stack with values := u.store.stack.values.push v }, log },
        u.depth, u.frames, .execute (a.advance 0)⟩
    else leave { u.store with log } u.depth u.frames
      (.error (.stackOverflow u.store.stack.limit)))

/-- What comes of executing an instruction of the function that has the violation. -/
def Consequence (x : Setting) (m : Module) (f : Func) (a : Activation) (u : State) :
    Violation → Prop
  | .missingEndSection | .earlyEndSection => False
  | .unknownOpcode byte => Faults x 1 u (.unknownOpcode f.name a.ip.toNat byte)
  | .badParamIndex index => Faults x 1 u (.paramOutOfRange index f.nparams.toNat)
  | .badLocalIndex index => Faults x 1 u (.localOutOfRange index f.nlocals.toNat)
  | .badPrimitiveIndex index => Faults x 1 u (.unknownPrimitive index x.primitives.length)
  | .badFunctionIndex index => Faults x 3 u (if x.maxDepth ≤ u.depth then
      .callDepthExceeded x.maxDepth
    else .module (.functionIndexOutOfRange index m.functions.length))
  | .badJumpTarget target => Strays x f a u target
  | .badStringIndex index => Pushes x a u (.string (.ofNat index)) ∧
      Unresolvable x (.string (.ofNat index))
        (.module (.stringIndexOutOfRange index m.strings.length))

section Faults

variable {x : Setting} {m : Module} {f : Func} {a : Activation} {s : Store} {depth : Nat}
  {frames : List Frame} {i : Instruction} {op : Opcode} {operand : Int} {fault : Fault}

theorem faults_of_fetch (h : a.fetch x.arena = .error fault) :
    Faults x 1 ⟨s, depth, frames, .execute a⟩ fault := by
  refine ⟨s.log, ?_⟩
  simp only [after, step?, execute, h, Option.bind_some]

theorem execute_of_fetch (h : a.fetch x.arena = .ok (i, op, operand)) (s : Store) (depth : Nat)
    (frames : List Frame) :
    ∃ log, execute x a s depth frames = dispatch x a op operand { s with log } depth frames := by
  obtain ⟨log, hreport⟩ := report_eq x a i s
  refine ⟨log, ?_⟩
  simp only [execute, h, hreport]

theorem faults_of_perform (h : a.fetch x.arena = .ok (i, op, operand))
    (hop : op ≠ .functionCall ∧ op ≠ .functionReturn ∧ op ≠ .primitiveCall)
    (hfault : ∀ t, perform x.arena a op operand t = .error fault t) :
    Faults x 1 ⟨s, depth, frames, .execute a⟩ fault := by
  obtain ⟨log, hexecute⟩ := execute_of_fetch h s depth frames
  refine ⟨log, ?_⟩
  simp only [after, step?, Option.bind_some, hexecute, dispatch_of_stays hop, hfault]

/-- Both ways to use a slot find it first. -/
theorem faults_of_slot (h : a.fetch x.arena = .ok (i, op, operand))
    (hslot : (op = .pushParam ∨ op = .popParam) ∧ a.paramSlot operand.toNat = .error fault ∨
      (op = .pushLocal ∨ op = .popLocal) ∧ a.localSlot operand.toNat = .error fault) :
    Faults x 1 ⟨s, depth, frames, .execute a⟩ fault := by
  rcases hslot with ⟨rfl | rfl, hslot⟩ | ⟨rfl | rfl, hslot⟩
  all_goals
    refine faults_of_perform h (by decide) fun t => ?_
    simp only [perform, hslot]
    rfl

theorem faults_of_primitive (h : a.fetch x.arena = .ok (i, .primitiveCall, operand))
    (hle : x.primitives.length ≤ operand.toNat) :
    Faults x 1 ⟨s, depth, frames, .execute a⟩
      (.unknownPrimitive operand.toNat x.primitives.length) := by
  obtain ⟨log, hexecute⟩ := execute_of_fetch h s depth frames
  refine ⟨log, ?_⟩
  simp only [after, step?, Option.bind_some, hexecute, dispatch, List.getElem?_eq_none hle]

/-- A call of a function that is not in the image comes to nothing, or to the depth limit first. -/
theorem faults_of_call (h : a.fetch x.arena = .ok (i, .functionCall, operand)) {e : ModuleError}
    (hrecord : x.arena.functionRecord operand.toNat = .error e)
    (hinterpreted : x.compiled[operand.toNat]?.join = none) :
    Faults x 3 ⟨s, depth, frames, .execute a⟩
      (if x.maxDepth ≤ depth then .callDepthExceeded x.maxDepth else .module e) := by
  obtain ⟨log, hexecute⟩ := execute_of_fetch h s depth frames
  have hcall : step? x ⟨s, depth, frames, .execute a⟩ = some
      ⟨{ s with log }, depth, .interpreted (a.advance 0) :: frames, .enter operand.toNat⟩ :=
    congrArg some hexecute
  refine ⟨log, ?_⟩
  rw [after_of_step hcall]
  by_cases hdepth : x.maxDepth ≤ depth
  · simp only [after, step?, enter, if_pos hdepth, Option.bind_some, deliver]
  · have hopen : openFrame x.arena operand.toNat (depth + 1) { s with log } =
        .error (.module e) { s with log } := by
      simp only [openFrame, functionRecord, hrecord]
      rfl
    simp only [after, step?, enter, if_neg hdepth, Option.bind_some, hinterpreted, hopen, leave,
      deliver, Nat.add_sub_cancel]

end Faults

section Jumps

variable {x : Setting} {m : Module} {f : Func} {a : Activation} {i : Instruction} {op : Opcode}
  {operand target : Int}

/-- Out of the code there is nothing, and the sentinel is not executed. -/
theorem faults_of_outside (hends : Image.Ended f.code) (hshows : x.arena.Shows f a.function)
    (hip : a.ip = target) (hout : target < 0 ∨ (f.code.length : Int) - 1 ≤ target) (s : Store)
    (depth : Nat) (frames : List Frame) :
    Faults x 1 ⟨s, depth, frames, .execute a⟩
      (if target = f.code.length - 1 then .fellOffEnd f.name
        else .ipOutOfBounds f.name target) := by
  obtain ⟨body, hcode, -⟩ := hends
  have hlength : f.code.length = body.length + 1 := by
    rw [hcode, List.length_append, List.length_singleton]
  refine faults_of_fetch ?_
  by_cases hlast : target = f.code.length - 1
  · have hat : a.ip = (body.length : Nat) := by omega
    have hsentinel : f.code[body.length]? = some Instruction.endSection := by
      rw [hcode, List.getElem?_concat_length]
    rw [if_pos hlast, Activation.fetch_of_isEnd hshows hat hsentinel rfl]
  · have hbounds : a.ip < 0 ∨ (a.function.codeLength : Int) ≤ a.ip := by
      rw [hshows.codeLength]
      omega
    rw [if_neg hlast, Activation.fetch, if_pos hbounds, hshows.name, hip]

theorem strays_of_jump (hends : Image.Ended f.code) (hshows : x.arena.Shows f a.function)
    (h : a.fetch x.arena = .ok (i, op, operand)) (hop : op = .jump ∨ ∃ r, op = .branch r)
    (htarget : a.ip + 1 + operand = target)
    (hout : target < 0 ∨ (f.code.length : Int) - 1 ≤ target) (s : Store) (depth : Nat)
    (frames : List Frame) : Strays x f a ⟨s, depth, frames, .execute a⟩ target := by
  have hstays : op ≠ .functionCall ∧ op ≠ .functionReturn ∧ op ≠ .primitiveCall := by
    rcases hop with rfl | ⟨r, rfl⟩ <;> exact ⟨nofun, nofun, nofun⟩
  obtain ⟨log, hexecute⟩ := execute_of_fetch h s depth frames
  rw [dispatch_of_stays hstays] at hexecute
  cases hperform : perform x.arena a op operand { s with log } with
  | error fault t =>
    rw [hperform] at hexecute
    exact ⟨t, .inl ⟨fault, congrArg some hexecute⟩⟩
  | ok offset t =>
    rw [hperform] at hexecute
    have hgoes : offset = operand → Strays x f a ⟨s, depth, frames, .execute a⟩ target := by
      rintro rfl
      have hshows' : x.arena.Shows f (a.advance offset).function := hshows
      exact ⟨t, .inr (.inr ⟨offset, htarget, congrArg some hexecute,
        faults_of_outside hends hshows' htarget hout t depth frames⟩)⟩
    have heffect : effect x.arena a op operand { s with log } = .ok offset t := by
      rcases hop with rfl | ⟨relation, rfl⟩ <;> exact hperform
    have hlands := lands_of_effect heffect
    rcases hop with rfl | ⟨relation, rfl⟩
    · exact hgoes hlands
    · rcases hlands with rfl | htaken
      · exact ⟨t, .inr (.inl ⟨congrArg some hexecute, i, relation, operand, h⟩)⟩
      · exact hgoes htaken

end Jumps

section Strings

variable {x : Setting} {a : Activation} {i : Instruction} {operand : Int} {fault : Fault}

theorem pushes_string (h : a.fetch x.arena = .ok (i, .pushString, operand)) (s : Store)
    (depth : Nat) (frames : List Frame) :
    Pushes x a ⟨s, depth, frames, .execute a⟩ (.string (.ofNat operand.toNat)) := by
  have hstays : Opcode.pushString ≠ .functionCall ∧ Opcode.pushString ≠ .functionReturn ∧
      Opcode.pushString ≠ .primitiveCall := ⟨nofun, nofun, nofun⟩
  obtain ⟨log, hexecute⟩ := execute_of_fetch h s depth frames
  refine ⟨log, ?_⟩
  rw [dispatch_of_stays hstays] at hexecute
  simp only [step?, hexecute, perform, ahead, liftStack, Stack.push, bind, EStateM.bind]
  by_cases hroom : s.stack.height < s.stack.limit
  · simp only [if_pos hroom]
    rfl
  · simp only [if_neg hroom]

theorem unresolvable_of_string {w : UInt64} {e : ModuleError}
    (h : x.arena.string w.toNat = .error e) : Unresolvable x (.uint48 w) (.module e) where
  left relation w' := by
    simp only [Arith.jumpTaken, Arith.compareValues, Arith.stringBytes, h]
    rfl
  right relation w' bytes hbytes := by
    simp only [Arith.jumpTaken, Arith.compareValues, hbytes]
    simp only [Arith.stringBytes, h]
    rfl
  prints depth below t hvalues := by
    have hpop : liftStack Stack.pop t =
        .ok (.uint48 w) { t with stack := { t.stack with values := below } } := by
      simp only [liftStack, Stack.pop, hvalues, Array.back?_push, Array.pop_push]
    have hprint : Comparison.printString x.arena t =
        .error (.module e) { t with stack := { t.stack with values := below } } := by
      rw [Comparison.printString, bind_of_ok hpop]
      simp only [h]
      rfl
    rw [Comparison.does_printString x.module x.arena depth t, Program.attempt, hprint]

end Strings

section Rejected

variable {x : Setting} {m : Module} {f : Func} {a : Activation} {i : Instruction} {n : Nat}
  (hshows : x.arena.Shows f a.function) (hip : a.ip = n) (hi : f.code[n]? = some i)
  (hend : ¬ i.isEnd)
include hshows hip hi hend

theorem faults_of_unknown (hop : i.opcode? = none ∨ i.opcode? = some .endSection) (s : Store)
    (depth : Nat) (frames : List Frame) :
    Faults x 1 ⟨s, depth, frames, .execute a⟩
      (.unknownOpcode f.name a.ip.toNat i.opcodeByte) := by
  rcases hop with hnone | hop
  · exact faults_of_fetch (Activation.fetch_of_unknown hshows hip hi hend hnone)
  · -- the code of the sentinel with an operand is no sentinel, and no instruction either
    have hbyte : Opcode.endSection.byte = i.opcodeByte := Opcode.byte_of_ofByte? hop
    rw [← hbyte, ← hshows.name]
    have hfetch := Activation.fetch_of_opcode hshows hip hi hend hop
    exact faults_of_perform hfetch ⟨nofun, nofun, nofun⟩ fun _ => rfl

/-- What verification finds wrong with an instruction, the machine finds when it executes it. -/
theorem consequence_of_violation {violation : Violation} (hpacked : x.arena.Packed m)
    (hinterpreted : ∀ i : Nat, x.compiled[i]?.join = none) (hends : Image.Ended f.code)
    (h : Verify.violation? m x.primitives.length f n i = some violation) (s : Store) (depth : Nat)
    (frames : List Frame) : Consequence x m f a ⟨s, depth, frames, .execute a⟩ violation := by
  rcases Verify.violation_cases hend h with ⟨rfl, hop⟩ | ⟨op, hop, hne, hoperand⟩
  · exact faults_of_unknown hshows hip hi hend hop s depth frames
  have hfetch := Activation.fetch_of_opcode hshows hip hi hend hop
  cases op with
  | functionCall =>
    obtain ⟨hle, ⟨⟩⟩ := Option.ite_none_right_eq_some.1 hoperand
    exact faults_of_call hfetch (Arena.functionRecord_of_le hpacked hle) (hinterpreted i.index)
  | primitiveCall =>
    obtain ⟨hle, ⟨⟩⟩ := Option.ite_none_right_eq_some.1 hoperand
    exact faults_of_primitive hfetch hle
  | pushParam | popParam =>
    obtain ⟨hle, ⟨⟩⟩ := Option.ite_none_right_eq_some.1 hoperand
    rw [← hshows.nparams] at hle
    have hslot : a.paramSlot i.index = .error (.paramOutOfRange i.index a.function.nparams.toNat) :=
      if_neg (Nat.not_lt.2 hle)
    rw [hshows.nparams] at hslot
    exact faults_of_slot hfetch (.inl ⟨by simp, hslot⟩)
  | pushLocal | popLocal =>
    obtain ⟨hle, ⟨⟩⟩ := Option.ite_none_right_eq_some.1 hoperand
    rw [← hshows.nlocals] at hle
    have hslot : a.localSlot i.index = .error (.localOutOfRange i.index a.function.nlocals.toNat) :=
      if_neg (Nat.not_lt.2 hle)
    rw [hshows.nlocals] at hslot
    exact faults_of_slot hfetch (.inr ⟨by simp, hslot⟩)
  | pushString =>
    obtain ⟨hle, ⟨⟩⟩ := Option.ite_none_right_eq_some.1 hoperand
    have hread := Arena.string_of_le hpacked hle
    rw [← i.toNat_ofNat_index] at hread
    refine ⟨pushes_string hfetch s depth frames, ?_⟩
    have hunresolvable := unresolvable_of_string hread
    rw [i.toNat_ofNat_index] at hunresolvable
    exact hunresolvable
  | jump | branch =>
    obtain ⟨hout, ⟨⟩⟩ := Option.ite_none_right_eq_some.1 hoperand
    have htarget : a.ip + 1 + i.signed = n + 1 + i.signed := by rw [hip]
    exact strays_of_jump hends hshows hfetch (by simp) htarget hout s depth frames
  | _ => cases hoperand

end Rejected

end Machine

namespace VirtualMachine

open Machine

variable {vm vm' : VirtualMachine} {m : Module} {primitives : Nat} {e : VerifyError}

/-- Verification rejects no code that could run. Where a module loads that it rejects, what it finds
is an instruction of the first function that is wrong, and not a sentinel that is missing or out of
place. Whenever that function is interpreted and comes to the instruction, with as many primitives
as it was checked for and whatever the stack, the heap and the calls that wait, the machine faults:
at once, or at the end of the jump, or with the string once it is to be read. -/
theorem consequence_of_rejected (hload : vm.loadModule m = (.ok (), vm'))
    (hreject : verify m primitives = .error e) :
    ∃ before f after, m.functions = before ++ f :: after ∧
      (∀ g ∈ before, g.Verified m primitives) ∧ e.function = f.name ∧
      e.violation ≠ .missingEndSection ∧ e.violation ≠ .earlyEndSection ∧
      (f.name.utf8ByteSize < 2 ^ 32 → ∃ r,
        (Arena.ofModule m).functionRecord before.length = .ok r ∧ (Arena.ofModule m).Shows f r) ∧
      ∀ x : Setting, x.arena = .ofModule m → x.primitives.length = primitives →
        (∀ i : Nat, x.compiled[i]?.join = none) →
        ∀ a : Activation, x.arena.Shows f a.function → a.ip = e.index →
        ∀ s depth frames, Consequence x m f a ⟨s, depth, frames, .execute a⟩ e.violation := by
  obtain ⟨before, f, after, hfunctions, hbefore, herror⟩ := exists_of_verify_error hreject
  have hf : m.functions[before.length]? = some f := by
    rw [hfunctions, List.getElem?_append_right (Nat.le_refl _), Nat.sub_self]
    rfl
  have hends : Image.Ended f.code := by
    rcases load_cases hload with ⟨_, hfailed, -⟩ | ⟨-, -, hends, -⟩
    · cases hfailed
    · exact checkEnd_iff.1 (hends f (List.mem_of_getElem? hf))
  obtain ⟨hname, i, hi, hend, hviolation⟩ := exists_of_functionError? hends herror
  obtain ⟨hmissing, hearly⟩ := Verify.not_sentinel_of_violation hend hviolation
  have hpacked := Arena.packed_ofModule m
  refine ⟨before, f, after, hfunctions, hbefore, hname, hmissing, hearly, fun hshort => ?_, ?_⟩
  · obtain ⟨r, hr, -, hshows⟩ := hpacked.functionRecord hf hshort
    exact ⟨r, hr, hshows⟩
  · rintro x harena rfl hinterpreted a hshows hip s depth frames
    exact consequence_of_violation hshows hip hi hend (harena ▸ hpacked) hinterpreted hends
      hviolation s depth frames

/-- Jumps to its own end if one is less than two. -/
def pastReturn : Module where
  functions := [.ofBody "f" 0 0 [.make .pushInt 1, .make .pushInt 2, .make (.branch .lt) 1,
    .make .functionReturn 0]]

def pastReturnMachine : VirtualMachine := ((VirtualMachine.new {}).loadModule pastReturn).2

def pastReturnSetting : Setting :=
  pastReturnMachine.setting ⟨pastReturn, .ofModule pastReturn, #[none]⟩

theorem consequence_of_rejected_pastReturn :
    ((VirtualMachine.new {}).loadModule pastReturn).1 = .ok () ∧
    verify pastReturn 3 = .error ⟨"f", 2, .badJumpTarget 4⟩ ∧
    (∃ f r, pastReturn.functions = [f] ∧ pastReturnSetting.arena.functionRecord 0 = .ok r ∧
      ∀ base s depth frames,
        Strays pastReturnSetting f ⟨r, base, 2⟩ ⟨s, depth, frames, .execute ⟨r, base, 2⟩⟩ 4) ∧
    (pastReturnMachine.run 10 (.name "f") []).map (·.1) =
      some (.error (.fault (.fellOffEnd "f"))) := by
  have hload : ((VirtualMachine.new {}).loadModule pastReturn).1 = .ok () := by decide +kernel
  have hreject : verify pastReturn 3 = .error ⟨"f", 2, .badJumpTarget 4⟩ := by decide +kernel
  obtain ⟨before, f, after, hfunctions, -, -, -, -, hrecord, hconsequence⟩ :=
    consequence_of_rejected (Prod.ext hload rfl) hreject
  rcases List.append_eq_singleton_iff.1 hfunctions.symm with ⟨rfl, hf⟩ | ⟨-, hf⟩
  · obtain ⟨rfl, rfl⟩ := List.cons.inj hf
    obtain ⟨r, hr, hshows⟩ := hrecord (by decide +kernel)
    refine ⟨hload, hreject, ⟨_, r, rfl, hr, fun base s depth frames => ?_⟩, by decide +kernel⟩
    exact hconsequence pastReturnSetting rfl rfl (join_getElem?_replicate 1) ⟨r, base, 2⟩ hshows rfl
      s depth frames
  · cases hf

end VirtualMachine

end StackMachine
