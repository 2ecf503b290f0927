import Mathlib.Data.List.TakeWhile
import StackMachine.Proofs.Image.Answers
import StackMachine.Proofs.Image.Reload
import StackMachine.Proofs.Machine.Interchange

/-! Where a stream ends. The constructor cuts it at the first sentinel and the check looks for one
before the last position; the writer drops one from the end first, and the verifier meets it among
the other instructions. All of them draw the same line: the writer's answer to the code of a
function is an early sentinel where the check reports one, and nothing that the check rejects is
loaded or verified. -/

namespace StackMachine

open Image

/-- The part of a stream before its first sentinel, or all of it. -/
structure IsFront (front code : List Instruction) : Prop where
  initial : front <+: code
  clear : ∀ i ∈ front, i.isEnd = false
  longest : ∀ other, other <+: code → (∀ i ∈ other, i.isEnd = false) → other <+: front

theorem takeWhile_append_of_clear {front : List Instruction}
    (hfront : ∀ i ∈ front, i.isEnd = false) (rest : List Instruction) :
    (front ++ rest).takeWhile (fun i => !i.isEnd) =
      front ++ rest.takeWhile (fun i => !i.isEnd) :=
  List.takeWhile_append_of_pos fun i hi => by rw [hfront i hi]; rfl

theorem isFront_takeWhile (code : List Instruction) :
    IsFront (code.takeWhile fun i => !i.isEnd) code where
  initial := List.takeWhile_prefix _
  clear i hi := by simpa using List.mem_takeWhile_imp hi
  longest := by
    rintro other ⟨rest, rfl⟩ hother
    rw [takeWhile_append_of_clear hother]
    exact List.prefix_append _ _

namespace Func

/-- The check reports a sentinel before the end. -/
def EndsEarly (f : Func) : Prop :=
  ∃ name index, f.checkEnd = .error (.embeddedEndSection name index)

variable {f : Func} {name : String} {index : Nat}

theorem checkEnd_eq_early_iff : f.checkEnd = .error (.embeddedEndSection name index) ↔
    f.name = name ∧ f.code.dropLast.findIdx? Instruction.isEnd = some index := by
  unfold checkEnd
  cases hlast : f.code.getLast? with
  | none =>
    rw [List.getLast?_eq_none_iff.1 hlast]
    exact ⟨nofun, nofun⟩
  | some last =>
    dsimp only
    cases f.code.dropLast.findIdx? Instruction.isEnd with
    | some j => simp
    | none =>
      dsimp only
      split <;> exact ⟨nofun, nofun⟩

/-- A function that passes the check is made again from its own code. -/
theorem ofBody_code (h : f.checkEnd = .ok ()) : ofBody f.name f.nparams f.nlocals f.code = f := by
  obtain ⟨body, hcode, hbody⟩ := VirtualMachine.checkEnd_iff.1 h
  have hcut : f.code.takeWhile (fun i => !i.isEnd) = body := by
    rw [hcode, takeWhile_append_of_clear hbody]
    exact List.append_nil body
  rw [ofBody, hcut, ← hcode]

theorem checkEnd_ofBody (name : String) (nparams nlocals : UInt32) (body : List Instruction) :
    (ofBody name nparams nlocals body).checkEnd = .ok () :=
  VirtualMachine.checkEnd_iff.2 ⟨_, rfl, (isFront_takeWhile body).clear⟩

end Func

namespace Image.Writer

/-- The writer and the check look for a sentinel in the same place: an instruction at the end that
the writer keeps is none. -/
theorem findIdx?_body_eq (code : List Instruction) :
    (body code).findIdx? Instruction.isEnd = code.dropLast.findIdx? Instruction.isEnd := by
  rcases List.eq_nil_or_concat code with rfl | ⟨front, last, rfl⟩
  · rfl
  · rw [List.concat_eq_append, body, List.getLast?_concat, List.dropLast_concat]
    dsimp only
    split
    · rfl
    next hlast =>
      have hnone : [last].findIdx? Instruction.isEnd = none := by
        simp [List.findIdx?_cons, hlast]
      rw [List.findIdx?_append, hnone]
      simp

section Code

variable {f : Func} {name : String} {index : Nat}

theorem codeAnswer_eq_early_iff : codeAnswer f = .error (.embeddedEndSection name index) ↔
    f.checkEnd = .error (.embeddedEndSection name index) := by
  rw [Func.checkEnd_eq_early_iff, codeAnswer, findIdx?_body_eq]
  cases f.code.dropLast.findIdx? Instruction.isEnd with
  | none => simp
  | some j => simp

theorem codeAnswer_ne_ok_iff : codeAnswer f ≠ .ok () ↔ f.EndsEarly := by
  simp only [Func.EndsEarly, Func.checkEnd_eq_early_iff, codeAnswer, findIdx?_body_eq]
  cases f.code.dropLast.findIdx? Instruction.isEnd with
  | none => simp
  | some j => simp

end Code

end Image.Writer

variable {m : Module}

/-- The writer rejects the first function with an early sentinel. -/
theorem encode_eq_early_iff (hcount : m.functions.length < 0x100000000)
    (hnames : ∀ f ∈ m.functions, (Text.dropNul f.name).utf8ByteSize < 0x100000000)
    {name : String} {index : Nat} : encode m = .error (.embeddedEndSection name index) ↔
      ∃ f, FirstOf Func.EndsEarly m.functions f ∧ f.name = name ∧
        f.checkEnd = .error (.embeddedEndSection name index) := by
  have hfails : (Writer.codeAnswer · ≠ .ok ()) = Func.EndsEarly :=
    funext fun _ => propext Writer.codeAnswer_ne_ok_iff
  rw [Writer.encode_embedded_iff hcount hnames, forM_eq_error_iff, hfails]
  refine exists_congr fun f => and_congr_right fun _ => ?_
  rw [Writer.codeAnswer_eq_early_iff]
  exact (and_iff_right_of_imp fun h => (Func.checkEnd_eq_early_iff.1 h).1).symm

theorem functions_of_encode (hends : ∀ f ∈ m.functions, f.checkEnd = .ok ())
    (hnames : ∀ f ∈ m.functions, f.name.toList.getLast? ≠ some '\x00')
    (hsize : (payload m.dropNuls).length < 0x100000000) :
    ∃ bytes m' a, encode m = .ok bytes ∧ decode bytes = .ok (m', a) ∧
      m'.functions = m.functions := by
  have hended : ∀ f ∈ m.functions, Ended f.code :=
    fun f hf => VirtualMachine.checkEnd_iff.1 (hends f hf)
  have hfits : Fits m.dropNuls := ⟨ended_dropNuls hended, hsize⟩
  have hwritten := written_of_ended hended
  have hencode := encode_of_fits (m := m) (by rwa [hwritten])
  rw [hwritten] at hencode
  refine ⟨_, _, _, hencode, decode_payload _ hfits, ?_⟩
  have hsame : ∀ f ∈ m.functions,
      { f with name := Text.dropNul (Text.dropNul f.name) } = f := by
    intro f hf
    rw [(Text.dropNul_dropNul_eq_iff f.name).2 (hnames f hf)]
  simp only [Module.dropNuls, List.map_map]
  exact (List.map_congr_left hsame).trans (List.map_id m.functions)

theorem load_of_not_checkEnd (h : ∃ f ∈ m.functions, f.checkEnd ≠ .ok ()) :
    ∃ f e, FirstOf (Func.checkEnd · ≠ .ok ()) m.functions f ∧ f.checkEnd = .error e ∧
      (∀ vm : VirtualMachine, vm.loadModule m = (.error (.load e), vm)) ∧
      ∀ primitives, ∃ e', verify m primitives = .error e' := by
  obtain ⟨f, hf, hend⟩ := h
  cases hforM : m.functions.forM Func.checkEnd with
  | ok u => exact absurd (VirtualMachine.forM_checkEnd_iff.1 hforM f hf) hend
  | error e =>
    obtain ⟨g, hfirst, hg⟩ := forM_eq_error_iff.1 hforM
    refine ⟨g, e, hfirst, hg, fun vm => ?_, fun primitives => ?_⟩
    · unfold VirtualMachine.loadModule VirtualMachine.load
      rw [if_neg (not_not_intro (Arena.packed_ofModule m).size_functions.symm), hforM]
    · cases hverify : verify m primitives with
      | ok u => exact absurd (verified_of_verify hverify f hf).checkEnd hend
      | error e' => exact ⟨e', rfl⟩

/-- The constructor, the check, the writer, the loader and the verifier agree on where a stream
ends. -/
theorem sentinels_agree (m : Module) :
    (m.functions.length < 0x100000000 →
      (∀ f ∈ m.functions, (Text.dropNul f.name).utf8ByteSize < 0x100000000) →
      ∀ name index, encode m = .error (.embeddedEndSection name index) ↔
        ∃ f, FirstOf Func.EndsEarly m.functions f ∧ f.name = name ∧
          f.checkEnd = .error (.embeddedEndSection name index)) ∧
    ((∀ f ∈ m.functions, f.checkEnd = .ok ()) →
      (∀ f ∈ m.functions, f.name.toList.getLast? ≠ some '\x00') →
      (payload m.dropNuls).length < 0x100000000 →
      ∃ bytes m' a, encode m = .ok bytes ∧ decode bytes = .ok (m', a) ∧
        m'.functions = m.functions) ∧
    ((∃ f ∈ m.functions, f.checkEnd ≠ .ok ()) →
      ∃ f e, FirstOf (Func.checkEnd · ≠ .ok ()) m.functions f ∧ f.checkEnd = .error e ∧
        (∀ vm : VirtualMachine, vm.loadModule m = (.error (.load e), vm)) ∧
        ∀ primitives, ∃ e', verify m primitives = .error e') ∧
    ∀ name nparams nlocals code, (Func.ofBody name nparams nlocals code).checkEnd = .ok () ∧
      (∃ front, IsFront front code ∧ Func.ofBody name nparams nlocals code =
        ⟨name, nparams, nlocals, front ++ [.endSection]⟩) ∧
      Func.ofBody name nparams nlocals (Func.ofBody name nparams nlocals code).code =
        Func.ofBody name nparams nlocals code := by
  refine ⟨fun hcount hnames _ _ => encode_eq_early_iff hcount hnames, functions_of_encode,
    load_of_not_checkEnd, fun name nparams nlocals code => ?_⟩
  have hcheck := Func.checkEnd_ofBody name nparams nlocals code
  exact ⟨hcheck, ⟨_, isFront_takeWhile code, rfl⟩, Func.ofBody_code hcheck⟩

open Image.Writer VirtualMachine in
/-- The loader stops at the first function, which has no sentinel; the writer supplies that one and
stops at the second. -/
theorem sentinels_agree_spoiled :
    encode spoiled = .error (.embeddedEndSection "f" 1) ∧
    (∀ vm : VirtualMachine,
      vm.loadModule spoiled = (.error (.load (.missingEndSection "e")), vm)) ∧
    (∃ e, verify spoiled 3 = .error e) ∧
    (∃ bytes m a, encode greeting = .ok bytes ∧ decode bytes = .ok (m, a) ∧
      m.functions = greeting.functions) ∧
    Func.ofBody "g" 0 1 (Func.ofBody "g" 0 1 [.make .drop 0, .endSection, .make .not 0]).code =
      ⟨"g", 0, 1, [.make .drop 0, .endSection]⟩ := by
  obtain ⟨hencode, -, hreject, -⟩ := sentinels_agree spoiled
  obtain ⟨-, hreload, -, hbuild⟩ := sentinels_agree greeting
  obtain ⟨f, e, hfirst, he, hload, hverify⟩ :=
    hreject ⟨_, List.mem_cons_self, by decide⟩
  obtain ⟨-, -, hrebuild⟩ := hbuild "g" 0 1 [.make .drop 0, .endSection, .make .not 0]
  have hf : f = ⟨"e", 1, 0, [.make .functionReturn 0]⟩ := by
    rcases firstOf_cons.1 hfirst with ⟨-, rfl⟩ | ⟨hends, -⟩
    · rfl
    · exact absurd (by decide) hends
  subst hf
  obtain rfl : e = .missingEndSection "e" := by cases he; rfl
  have hlate : ¬ Func.EndsEarly ⟨"e", 1, 0, [.make .functionReturn 0]⟩ := by
    rintro ⟨name, index, hcheck⟩
    cases hcheck
  have hearly : FirstOf Func.EndsEarly spoiled.functions
      ⟨"f", 0, 0, [.make .pushInt 1, .endSection, .make .functionReturn 0]⟩ :=
    ⟨[_], [], rfl, ⟨"f", 1, by decide⟩, List.forall_mem_singleton.2 hlate⟩
  refine ⟨(hencode (by decide) (by decide) "f" 1).2 ⟨_, hearly, rfl, by decide⟩, hload,
    hverify 3, hreload (by decide) (by decide) (by decide +kernel), ?_⟩
  rw [hrebuild]
  decide

end StackMachine
