import StackMachine.Proofs.Code.Names
import StackMachine.Proofs.Image.Joining
import StackMachine.Proofs.Machine.Interchange
import StackMachine.Proofs.Machine.Shadowing

/-! A module with another one behind it. Verified code reaches the functions and strings of its own
module only, and these have the same indices when more follow; so it runs as it does alone. It is
names that may come to mean something else. -/

namespace StackMachine

/-- The functions and strings of the other module come first. -/
structure Module.StartsWith (c a : Module) : Prop where
  functions : a.functions <+: c.functions
  strings : a.strings <+: c.strings

namespace Module.StartsWith

variable {a c : Module} (h : c.StartsWith a)
include h

theorem function {i : Nat} {f : Func} (hi : a.functions[i]? = some f) :
    c.functions[i]? = some f := by
  obtain ⟨fs, hfs⟩ := h.functions
  obtain ⟨hlt, -⟩ := List.getElem?_eq_some_iff.1 hi
  rw [← hfs, List.getElem?_append_left hlt, hi]

theorem string {i : Nat} {s : String} (hi : a.strings[i]? = some s) : c.strings[i]? = some s := by
  obtain ⟨ss, hss⟩ := h.strings
  obtain ⟨hlt, -⟩ := List.getElem?_eq_some_iff.1 hi
  rw [← hss, List.getElem?_append_left hlt, hi]

end Module.StartsWith

namespace Machine

/-- The code of the module in its own image, and the same code in an image that may hold more. -/
def beside (a : Module) (left right : Setting) : Shadow where
  left := left
  right := right
  word := a.HasWord
  code x y := x.Alike left.arena right.arena y ∧ ∃ f, x.Stands a left.arena f
  entry index := index < a.functions.length
  allowed := a.Tolerates
  outputs := Eq
  rigid := True
  depth := right.maxDepth
  wider := False

variable {a c : Module} {left right : Setting} {x y : Activation} {op : Opcode} {operand : Int}

theorem operand_beside (hxy : x.Alike left.arena right.arena y)
    (ho : (guarded a left).Operand x x operand op) :
    (beside a left right).toComparison.Operand x y operand op := by
  cases op with
  | pushLocal | popLocal =>
    change Agree Eq a.Tolerates (x.localSlot operand.toNat) (y.localSlot operand.toNat)
    rw [← hxy.localSlot]
    exact ho
  | pushParam | popParam =>
    change Agree Eq a.Tolerates (x.paramSlot operand.toNat) (y.paramSlot operand.toNat)
    rw [← hxy.paramSlot]
    exact ho
  | endSection =>
    obtain ⟨-, -, h⟩ := ho
    exact ⟨hxy.function.name, hxy.ip, h⟩
  | _ => exact ho

theorem beside_comparison (hm : ∀ f ∈ a.functions, f.Verified a 3) (hshort : a.Short)
    (hstarts : c.StartsWith a) (hleft : left.arena.Packed a) (hright : right.arena.Packed c)
    (hplain : left.Plain ∧ right.Plain) (hdepth : left.maxDepth = right.maxDepth) :
    (beside a left right).toComparison.Lawful where
  ordinary hf := a.tolerates_of_isOrdinary hf
  int n := nofun
  text {n} hn := by
    have hlt : n.toNat < a.strings.length := hn n rfl
    have hs : a.strings[n.toNat]? = some a.strings[n.toNat] := List.getElem?_eq_getElem hlt
    have hsmall := hshort.strings _ (List.getElem_mem hlt)
    simp only [beside, hleft.string hs hsmall, hright.string (hstarts.string hs) hsmall]
    exact .ok rfl
  fetch {x y} h := by
    obtain ⟨hxy, f, h⟩ := h
    have hsame := hxy.fetch
    rcases fetch_of_stands hm h with ⟨i, op, operand, hfetch, ho, hl⟩ | ⟨fault, hfetch, hfault⟩
    · simp only [beside, ← hsame, hfetch]
      exact .ok ⟨rfl, hxy.base, operand_beside hxy ho,
        fun offset hlands => ⟨hxy.advance offset, f, hl offset hlands⟩⟩
    · simp only [beside, ← hsame, hfetch]
      exact .error hfault
  entry {i} hi := by
    obtain ⟨f, r₁, hf, hr₁, rfl, hshows₁, hstands⟩ := exists_entry hm hshort hleft hi
    obtain ⟨r₂, hr₂, hindex, hshows₂⟩ := hright.functionRecord (hstarts.function hf)
      (hshort.names f (List.mem_of_getElem? hf))
    have halike := hshows₁.alike hshows₂ hindex.symm
    simp only [beside, hr₁, hr₂]
    exact .ok ⟨halike.nparams, halike.nlocals,
      fun base => ⟨⟨halike, rfl, rfl⟩, f, hstands base⟩⟩
  write {o₁ o₂} ho bytes := by
    obtain rfl : o₁ = o₂ := ho
    exact ⟨rfl, rfl⟩
  depth := hdepth
  primitives := ⟨hplain.1.primitives, hplain.2.primitives⟩
  interpreted i := ⟨hplain.1.interpreted i, hplain.2.interpreted i⟩

theorem beside_lawful (hm : ∀ f ∈ a.functions, f.Verified a 3) (hshort : a.Short)
    (hstarts : c.StartsWith a) (hleft : left.arena.Packed a) (hright : right.arena.Packed c)
    (hplain : left.Plain ∧ right.Plain) (hdepth : left.maxDepth = right.maxDepth) :
    (beside a left right).Lawful where
  comparison := beside_comparison hm hshort hstarts hleft hright hplain hdepth
  depth := .inl hdepth
  ref _ := nofun

end Machine

section Completed

theorem Func.Verified.completed {m : Module} {n : Nat} {f : Func} (h : f.Verified m n) :
    f.completed = f := if_pos h.getLast?_code

theorem Module.completed_of_verify {m : Module} {n : Nat} (h : verify m n = .ok ()) :
    m.completed = m := by
  have hfunctions : m.functions.map Func.completed = m.functions.map id :=
    List.map_congr_left fun f hf => (verified_of_verify h f hf).completed
  rw [Module.completed, hfunctions, List.map_id]

theorem Module.join_completed {a : Module} {n : Nat} (h : verify a n = .ok ()) (b : Module) :
    join ([a, b].map completed) =
      ⟨a.functions ++ b.functions.map Func.completed, a.strings ++ b.strings⟩ := by
  rw [List.map_cons, completed_of_verify h]
  simp only [join, completed, List.map_singleton, List.flatMap_cons, List.flatMap_nil,
    List.append_nil]

theorem Module.plain_of_verify {m : Module} {n : Nat} (h : verify m n = .ok ())
    (htexts : ∀ s ∈ m.texts, s.toList.getLast? ≠ some '\x00') : m.Plain :=
  ⟨htexts, fun f hf _ => (verified_of_verify h f hf).isEnd_of_mem⟩

theorem Module.short_of_fits {m : Module} (h : Image.Fits m) : m.Short where
  names _ hf := (h.writable (List.mem_append_left _ (List.mem_map_of_mem hf))).2
  strings _ hs := h.writable (List.mem_append_right _ (List.mem_map_of_mem hs))

end Completed

section Names

theorem Func.lastNamed?_completed (name : String) (fs : List Func) :
    lastNamed? name (fs.map completed) = lastNamed? name fs := by
  simp only [lastNamed?, List.zipIdx_map, List.filter_map, List.getLast?_map, Option.map_map,
    Function.comp_def, Prod.map, completed_name]
  rfl

end Names

namespace VirtualMachine

open Machine

/-- The module is loaded into the machine, as it is or from a file. -/
inductive Loads (vm : VirtualMachine) (m : Module) : VirtualMachine → Prop
  | module {vm' : VirtualMachine} : vm.loadModule m = (.ok (), vm') → Loads vm m vm'
  | bytes {vm' : VirtualMachine} {bytes : List UInt8} {arena : Arena} :
      Image.decode bytes = .ok (m, arena) → vm.loadBytes bytes = (.ok (), vm') → Loads vm m vm'

variable {vm va vc vm' : VirtualMachine} {m a b c : Module} {args : List Value} {i : Nat}

theorem exists_of_loads (h : Loads vm m vm') : ∃ arena log, arena.Packed m ∧
    vm' = { vm with
      loaded := some ⟨m, arena, Array.replicate m.functions.length none⟩
      log := log } := by
  cases h with
  | module h =>
    obtain ⟨log, rfl⟩ := exists_of_load h
    exact ⟨_, log, Arena.packed_ofModule m, rfl⟩
  | bytes hdecode h =>
    rw [loadBytes_of_decode hdecode] at h
    obtain ⟨log, rfl⟩ := exists_of_load h
    exact ⟨_, log, Arena.packed_of_decode hdecode, rfl⟩

theorem run_beside (hverify : verify a 3 = .ok ()) (hshort : a.Short) (hstarts : c.StartsWith a)
    (hprimitives : vm.primitives = .standard) (hheap : vm.heap.Holds a.HasWord)
    (ha : Loads vm a va) (hc : Loads vm c vc) (hi : i < a.functions.length)
    (hargs : ∀ v ∈ args, v.kind = .int48) (fuel : Nat) :
    Option.Rel SameEnd (va.run fuel (.index i) args) (vc.run fuel (.index i) args) := by
  obtain ⟨arena₁, log₁, hpacked₁, rfl⟩ := exists_of_loads ha
  obtain ⟨arena₂, log₂, hpacked₂, rfl⟩ := exists_of_loads hc
  have hf : a.functions[i]? = some a.functions[i] := List.getElem?_eq_getElem hi
  set va : VirtualMachine := { vm with
    loaded := some ⟨a, arena₁, Array.replicate a.functions.length none⟩
    log := log₁ }
  set vc : VirtualMachine := { vm with
    loaded := some ⟨c, arena₂, Array.replicate c.functions.length none⟩
    log := log₂ }
  have hp₁ := prepare_index va rfl hf args
  have hp₂ := prepare_index vc rfl (hstarts.function hf) args
  by_cases hlength : args.length ≠ a.functions[i].nparams.toNat
  · rw [if_pos hlength] at hp₁ hp₂
    simp only [VirtualMachine.run, hp₁, hp₂]
    exact .some ⟨rfl, rfl, rfl⟩
  · rw [if_neg hlength] at hp₁ hp₂
    have hplain : (va.setting ⟨a, arena₁, Array.replicate a.functions.length none⟩).Plain ∧
        (vc.setting ⟨c, arena₂, Array.replicate c.functions.length none⟩).Plain :=
      ⟨⟨hprimitives, join_getElem?_replicate _⟩, ⟨hprimitives, join_getElem?_replicate _⟩⟩
    have hwords : ∀ v ∈ args, a.HasWord v := by
      intro v hv
      cases v with
      | int48 n =>
        intro _ h
        cases h
      | _ => cases hargs _ hv
    have hS := beside_lawful (verified_of_verify hverify) hshort hstarts hpacked₁ hpacked₂ hplain
      rfl
    exact Shadow.prepared_shadow hS hp₁ hp₂ rfl rfl hi hwords
      (.intro (.inl rfl) (fun _ hv => absurd hv (Array.not_mem_empty _)) hheap) (fun h => h.elim) fuel

/-- Appending a module does not change the one before it. -/
theorem run_of_appended (hverify : verify a 3 = .ok ())
    (htexts : ∀ s ∈ a.texts, s.toList.getLast? ≠ some '\x00') (hb : b.Plain)
    (hsize : (Image.payloads ([a, b].map Module.completed)).length < 0x100000000) :
    ∃ w bytes c arena, [a, b].forM Image.Writer.putModule .new = .ok () w ∧
      w.finish = .ok bytes ∧ Image.decode bytes = .ok (c, arena) ∧
      (∀ vm : VirtualMachine, Fresh vm → vm.config.verifyOnLoad = false →
        (vm.loadModule a).1 = .ok () ∧ (vm.loadModule c).1 = .ok () ∧
        (vm.loadBytes bytes).1 = .ok () ∧
        ∀ va vc, Loads vm a va → Loads vm c vc → ∀ i < a.functions.length, ∀ args,
          (∀ v ∈ args, v.kind = .int48) → ∀ fuel,
          Option.Rel SameEnd (va.run fuel (.index i) args) (vc.run fuel (.index i) args)) ∧
      ∀ name, c.functionIndex name = match b.functionIndex name with
        | .ok k => .ok (a.functions.length + k)
        | .error _ => a.functionIndex name := by
  have hplain : ∀ m ∈ [a, b], m.Plain :=
    List.forall_mem_cons.2 ⟨Module.plain_of_verify hverify htexts, List.forall_mem_singleton.2 hb⟩
  have hcompleted := Module.completed_of_verify hverify
  have hshort : a.Short := by
    have hfits := Image.fits_of_plain hplain hsize List.mem_cons_self
    rw [hcompleted] at hfits
    exact Module.short_of_fits hfits
  have hput := Image.putModules_of_plain hplain hsize .new
  have hdecode := Image.decode_of_plain hplain hsize
    (UInt32.ofNat (Image.payloads ([a, b].map Module.completed)).length)
  rw [Module.join_completed hverify] at hdecode
  have hends := Image.ended_of_decode hdecode
  have hpacked := Arena.packed_of_decode hdecode
  refine ⟨_, _, _, _, hput, Image.finish_of_plain hplain hsize _ hput, hdecode,
    fun vm hfresh hoff => ⟨?_, ?_, ?_, ?_⟩, fun name => ?_⟩
  · refine loadModule_of_verify ?_
    rw [hfresh.primitives]
    exact hverify
  · rw [loadModule, load_of_ended hends (Arena.packed_ofModule _), hoff]
    rfl
  · rw [loadBytes_of_decode hdecode, load_of_ended hends hpacked]
    exact if_neg (Bool.eq_false_iff.1 hoff)
  · intro va vc ha hc i hi args hargs fuel
    obtain ⟨threshold, hheap⟩ := hfresh.heap
    refine run_beside hverify hshort ⟨⟨_, rfl⟩, ⟨_, rfl⟩⟩ hfresh.primitives ?_ ha hc hi hargs fuel
    rw [hheap]
    exact fun _ => nofun
  · simp only [Module.functionIndex, Func.lastNamed?_append, Func.lastNamed?_completed]
    cases Func.lastNamed? name b.functions <;> rfl

def announcing : Module where
  functions := [
    .ofBody "f" 1 0 [.make .pushString 0, .make .primitiveCall 0, .make .drop 0,
      .make .pushParam 0, .make .functionCall 1, .make .functionReturn 0],
    .ofBody "g" 1 0 [.make .pushParam 0, .make .functionReturn 0]]
  strings := ["a"]

def announcingMachine : VirtualMachine := ((VirtualMachine.new {}).loadModule announcing).2

/-- Takes a name, and lacks the sentinel. -/
def taking : Module := ⟨[⟨"f", 0, 0, []⟩], ["b"]⟩

/-- The name stands for another function now, the index for the same as before. -/
theorem run_of_appended_taking : ∃ bytes c arena vc vm,
    Image.decode bytes = .ok (c, arena) ∧ c.functionIndex "f" = .ok 2 ∧
      c.functionIndex "g" = .ok 1 ∧ (VirtualMachine.new {}).loadBytes bytes = (.ok (), vc) ∧
      vc.run 20 (.index 0) [.int 5] = some (.ok (.int 5), vm) ∧
      vm.output.bytes = #[97, 10] := by
  have hverify : verify announcing 3 = .ok () := by decide +kernel
  have hb : taking.Plain := ⟨by decide, by decide⟩
  obtain ⟨_, bytes, c, arena, -, -, hdecode, hruns, hnames⟩ :=
    run_of_appended hverify (by decide) hb (by decide +kernel)
  obtain ⟨ha, -, hc, hsame⟩ := hruns (.new {}) ⟨rfl, _, rfl⟩ rfl
  have hload : (VirtualMachine.new {}).loadModule announcing = (.ok (), announcingMachine) :=
    Prod.ext ha rfl
  have hload₂ : (VirtualMachine.new {}).loadBytes bytes =
      (.ok (), ((VirtualMachine.new {}).loadBytes bytes).2) := Prod.ext hc rfl
  have hrel := hsame _ _ (.module hload) (.bytes hdecode hload₂) 0 (by decide) [.int 5]
    (by decide) 20
  have hrun : (announcingMachine.run 20 (.index 0) [.int 5]).map
      (fun x => (x.1, x.2.output.bytes)) = some (.ok (.int 5), #[97, 10]) := by decide +kernel
  obtain ⟨⟨result, va⟩, hrun, hresult⟩ := Option.map_eq_some_iff.1 hrun
  simp only [Prod.mk.injEq] at hresult
  obtain ⟨rfl, houtput⟩ := hresult
  rw [hrun] at hrel
  generalize ((VirtualMachine.new {}).loadBytes bytes).2 = vc at hload₂ hrel
  generalize hrun₂ : vc.run 20 (.index 0) [.int 5] = y at hrel
  cases hrel with
  | @some _ y hend =>
    obtain ⟨result, vm⟩ := y
    obtain ⟨rfl, houtput₂, -⟩ := hend
    exact ⟨bytes, c, arena, _, vm, hdecode, hnames "f", hnames "g", hload₂, hrun₂,
      houtput₂ ▸ houtput⟩

end VirtualMachine

end StackMachine
