import StackMachine.Proofs.Machine.Sessions
import StackMachine.Proofs.Machine.Twins

/-! A module file and the module in it are loaded to the same effect. The decoder makes the module
and the image from the same records; however the sections of the file are ordered, the image answers
as the one that is made from the module does, and every sequence of runs goes the same way. -/

namespace StackMachine

namespace Machine

variable {m₁ m₂ : Setting} {u v : State}

inductive TwinResults : Except Fault Value × Store → Except Fault Value × Store → Prop
  | mk (outcome : Except Fault Value) {s t : Store} : s.Like t →
      TwinResults (outcome, s) (outcome, t)

/-- Either both runs are over, with one outcome, or both go on. -/
theorem twin_cases (hm : m₁.Twin m₂) (h : TwinStates m₁.arena m₂.arena u v) :
    (∃ s t depth outcome, u = ⟨s, depth, [], .deliver outcome⟩ ∧
      v = ⟨t, depth, [], .deliver outcome⟩ ∧ s.Like t) ∨
    ∃ u' v', step? m₁ u = some u' ∧ step? m₂ v = some v' ∧ TwinStates m₁.arena m₂.arena u' v' := by
  have hstep := step_twin hm h
  cases hu : step? m₁ u with
  | none =>
    obtain ⟨s, depth, outcome, rfl⟩ := exists_end_of_none hu
    obtain ⟨t, _, gs, control⟩ := v
    obtain ⟨hs, hdepth, hf, hc⟩ := h
    cases hdepth
    cases hf
    cases hc
    exact .inl ⟨s, t, depth, outcome, rfl, rfl, hs⟩
  | some u' =>
    rw [hu] at hstep
    cases hv : step? m₂ v with
    | none =>
      rw [hv] at hstep
      cases hstep
    | some v' =>
      rw [hv] at hstep
      cases hstep with
      | some h' => exact .inr ⟨u', v', rfl, rfl, h'⟩

theorem run_twin (hm : m₁.Twin m₂) (h : TwinStates m₁.arena m₂.arena u v) (fuel : Nat) :
    Option.Rel TwinResults (run m₁ fuel u) (run m₂ fuel v) := by
  induction fuel generalizing u v with
  | zero =>
    rcases twin_cases hm h with ⟨s, t, depth, outcome, rfl, rfl, hs⟩ | ⟨u', v', hu, hv, -⟩
    · exact .some (.mk outcome hs)
    · rw [(run_of_step hu 0).1, (run_of_step hv 0).1]
      exact .none
  | succ fuel ih =>
    rcases twin_cases hm h with ⟨s, t, depth, outcome, rfl, rfl, hs⟩ | ⟨u', v', hu, hv, h'⟩
    · rw [run_of_end, run_of_end]
      exact .some (.mk outcome hs)
    · rw [(run_of_step hu fuel).2, (run_of_step hv fuel).2]
      exact ih h'

end Machine

/-- The functions that the machines run are the same, but for the image, which neither they nor the
primitives tell apart. -/
structure Loaded.Twin (table : PrimitiveTable) (l₁ l₂ : Loaded) : Prop where
  module : l₁.module = l₂.module
  arena : l₁.arena.Alike l₂.arena
  compiled : l₁.compiled = l₂.compiled
  functions : ∀ i : Nat, ∀ f ∈ l₁.compiled[i]?.join, ∀ params,
    (f params).Twin l₁.arena l₂.arena (f params)
  programs : ∀ p ∈ table, p.program.Twin l₁.arena l₂.arena p.program

theorem Loaded.Twin.refl (table : PrimitiveTable) (l : Loaded) : Loaded.Twin table l l where
  module := rfl
  arena := .refl l.arena
  compiled := rfl
  functions _ f _ params := .refl l.arena (f params)
  programs p _ := .refl l.arena p.program

namespace VirtualMachine

open Machine

/-- The machines differ in the image of their module, and in their logs. -/
structure Twin (vm₁ vm₂ : VirtualMachine) : Prop where
  config : vm₁.config = vm₂.config
  primitives : vm₁.primitives = vm₂.primitives
  heap : vm₁.heap = vm₂.heap
  output : vm₁.output = vm₂.output
  loaded : ∃ l₁ l₂, vm₁.loaded = some l₁ ∧ vm₂.loaded = some l₂ ∧
    Loaded.Twin vm₁.primitives l₁ l₂

variable {vm₁ vm₂ : VirtualMachine}

theorem Twin.setting {l₁ l₂ : Loaded} (h : Twin vm₁ vm₂)
    (hl : Loaded.Twin vm₁.primitives l₁ l₂) : (vm₁.setting l₁).Twin (vm₂.setting l₂) where
  module := hl.module
  arena := hl.arena
  compiled := hl.compiled
  functions := hl.functions
  primitives := h.primitives
  programs := hl.programs
  maxDepth := congrArg (·.limits.maxRecursionDepth.toNat) h.config
  debug := congrArg (·.debug) h.config

theorem Twin.store (h : Twin vm₁ vm₂) : vm₁.store.Like vm₂.store :=
  ⟨congrArg (fun c : Config => Stack.empty c.limits.maxStackSize.toNat) h.config, h.heap, h.output⟩

theorem Twin.record (h : Twin vm₁ vm₂) (es₁ es₂ : List Event) :
    Twin (vm₁.record es₁) (vm₂.record es₂) :=
  ⟨h.config, h.primitives, h.heap, h.output, h.loaded⟩

theorem Twin.keep {s t : Store} (h : Twin vm₁ vm₂) (hs : s.Like t) :
    Twin (vm₁.keep s) (vm₂.keep t) :=
  ⟨h.config, h.primitives, hs.heap, hs.output, h.loaded⟩

theorem call_twin {l₁ l₂ : Loaded} (h : Twin vm₁ vm₂) (hl : Loaded.Twin vm₁.primitives l₁ l₂)
    (fuel index : Nat) (args : List Value) :
    Option.Rel TwinResults (vm₁.call fuel l₁ index args) (vm₂.call fuel l₂ index args) := by
  have hpush := rules_pushArguments Action.blind_closed.rules args h.store
  unfold call
  generalize pushArguments args vm₁.store = r₁ at hpush
  generalize pushArguments args vm₂.store = r₂ at hpush
  cases hpush with
  | error hs => exact .some (.mk _ hs)
  | @ok _ _ s t _ hs =>
    have hstart : TwinStates l₁.arena l₂.arena (Machine.call index s) (Machine.call index t) :=
      ⟨hs, rfl, .nil, .enter index⟩
    exact Machine.run_twin (h.setting hl) hstart fuel

inductive TwinAnswers :
    Except VmError Value × VirtualMachine → Except VmError Value × VirtualMachine → Prop
  | mk (result : Except VmError Value) {vm₁ vm₂ : VirtualMachine} : Twin vm₁ vm₂ →
      TwinAnswers (result, vm₁) (result, vm₂)

theorem finish_twin {x y : Except Fault Value × Store} (h : Twin vm₁ vm₂) (hxy : TwinResults x y)
    (function : String) : TwinAnswers (vm₁.finish function x) (vm₂.finish function y) := by
  cases hxy with
  | @mk outcome s t hs =>
    cases outcome with
    | error f => exact .mk _ (h.keep hs)
    | ok v =>
      simp only [finish, hs.output]
      cases t.output.flush with
      | error reason => exact .mk _ (h.keep hs)
      | ok u => exact .mk _ ((h.keep hs).record _ _)

theorem prepare_twin {l₁ l₂ : Loaded} (h₁ : vm₁.loaded = some l₁) (h₂ : vm₂.loaded = some l₂)
    (hmodule : l₁.module = l₂.module) (target : Target) (args : List Value) :
    (∃ e, vm₁.prepare target args = .error e ∧ vm₂.prepare target args = .error e) ∨
      ∃ index f, vm₁.prepare target args = .ok (l₁, index, f) ∧
        vm₂.prepare target args = .ok (l₂, index, f) := by
  have hresolve : vm₁.resolve target = vm₂.resolve target := by
    simp only [resolve, h₁, h₂, hmodule]
  simp only [prepare, ← hresolve, h₁, h₂]
  cases vm₁.resolve target with
  | error e => exact .inl ⟨e, rfl, rfl⟩
  | ok index =>
    simp only [hmodule]
    cases l₂.module.function index with
    | error e => exact .inl ⟨_, rfl, rfl⟩
    | ok f =>
      dsimp only
      by_cases hargs : args.length ≠ f.nparams.toNat
      · rw [if_pos hargs, if_pos hargs]
        exact .inl ⟨_, rfl, rfl⟩
      · rw [if_neg hargs, if_neg hargs]
        exact .inr ⟨index, f, rfl, rfl⟩

theorem run_twin (h : Twin vm₁ vm₂) (fuel : Nat) (target : Target) (args : List Value) :
    Option.Rel TwinAnswers (vm₁.run fuel target args) (vm₂.run fuel target args) := by
  obtain ⟨l₁, l₂, h₁, h₂, hl⟩ := h.loaded
  rw [VirtualMachine.run, VirtualMachine.run]
  rcases prepare_twin h₁ h₂ hl.module target args with ⟨e, he₁, he₂⟩ | ⟨index, f, hp₁, hp₂⟩
  · rw [he₁, he₂]
    exact .some (.mk _ h)
  · rw [hp₁, hp₂]
    have hstarted : Twin (vm₁.started f args) (vm₂.started f args) := h.record _ _
    have hcall := call_twin hstarted hl fuel index args
    dsimp only
    generalize (vm₁.started f args).call fuel l₁ index args = r₁ at hcall
    generalize (vm₂.started f args).call fuel l₂ index args = r₂ at hcall
    cases hcall with
    | none => exact .none
    | some hxy => exact .some (finish_twin hstarted hxy f.name)

/-- Gives functions compiled forms, one after the other. -/
def install (vm : VirtualMachine) : List (Nat × CompiledFunction) → VirtualMachine
  | [] => vm
  | (index, function) :: rest => (vm.setCompiled index function).2.install rest

theorem setCompiled_twin (h : Twin vm₁ vm₂) (index : Nat) {function : CompiledFunction}
    (hf : function.Discreet) :
    Twin (vm₁.setCompiled index function).2 (vm₂.setCompiled index function).2 := by
  obtain ⟨l₁, l₂, h₁, h₂, hl⟩ := h.loaded
  simp only [setCompiled, h₁, h₂, ← hl.compiled]
  by_cases hindex : index < l₁.compiled.size
  · rw [if_pos hindex, if_pos hindex]
    refine ⟨h.config, h.primitives, h.heap, h.output, _, _, rfl, rfl, hl.module,
      hl.arena, rfl, fun i f hi => ?_, hl.programs⟩
    simp only [Array.getElem?_setIfInBounds] at hi
    rw [if_pos hindex] at hi
    split at hi
    · cases hi
      exact fun params => hf params _ _ hl.arena
    · exact hl.functions i f hi
  · rw [if_neg hindex, if_neg hindex]
    exact h

theorem install_twin (h : Twin vm₁ vm₂) (natives : List (Nat × CompiledFunction))
    (hnatives : ∀ n ∈ natives, CompiledFunction.Discreet n.2) :
    Twin (vm₁.install natives) (vm₂.install natives) := by
  induction natives generalizing vm₁ vm₂ with
  | nil => exact h
  | cons n natives ih =>
    obtain ⟨hn, hrest⟩ := List.forall_mem_cons.1 hnatives
    exact ih (setCompiled_twin h n.1 hn) hrest

/-- What a sequence of runs gives: the result of each run, and the output and the heap after it.
Nothing if one of them is not over within its fuel. -/
def transcript (vm : VirtualMachine) :
    List (Nat × Target × List Value) → Option (List (Except VmError Value × Output × Heap))
  | [] => some []
  | (fuel, target, args) :: calls =>
    (vm.run fuel target args).bind fun (result, vm) =>
      (vm.transcript calls).map ((result, vm.output, vm.heap) :: ·)

theorem transcript_eq (h : Twin vm₁ vm₂) (calls : List (Nat × Target × List Value)) :
    vm₁.transcript calls = vm₂.transcript calls := by
  induction calls generalizing vm₁ vm₂ with
  | nil => rfl
  | cons call calls ih =>
    obtain ⟨fuel, target, args⟩ := call
    have hrun := run_twin h fuel target args
    simp only [transcript]
    generalize vm₁.run fuel target args = r₁ at hrun
    generalize vm₂.run fuel target args = r₂ at hrun
    cases hrun with
    | none => rfl
    | some hanswers =>
      cases hanswers with
      | mk result h' => simp only [Option.bind_some, ih h', h'.output, h'.heap]

section Loading

variable {vm : VirtualMachine} {b : List UInt8} {m : Module} {a : Arena}

theorem checkEnd_iff {f : Func} : f.checkEnd = .ok () ↔ Image.Ended f.code := by
  constructor
  · intro h
    unfold Func.checkEnd at h
    split at h
    · cases h
    next last hlast =>
    split at h
    · cases h
    next hbody =>
    split at h
    next hend =>
      obtain rfl : last = Instruction.endSection := eq_of_beq hend
      exact ⟨f.code.dropLast, (List.dropLast_append_getLast? _ hlast).symm,
        List.findIdx?_eq_none_iff.1 hbody⟩
    · cases h
  · rintro ⟨body, hcode, hbody⟩
    have hnone : body.findIdx? Instruction.isEnd = none :=
      List.findIdx?_eq_none_iff.2 hbody
    simp only [Func.checkEnd, hcode, List.getLast?_concat, List.dropLast_concat, hnone]
    rfl

/-- Loading fails only where verification does. -/
theorem load_of_ended (hends : ∀ f ∈ m.functions, Image.Ended f.code) (hpacked : a.Packed m)
    (vm : VirtualMachine) : (vm.load m a).1 = if vm.config.verifyOnLoad then
      (verify m vm.primitives.length).mapError .verify else .ok () := by
  have hcheck : m.functions.forM Func.checkEnd = .ok () :=
    forM_checkEnd_iff.2 fun f hf => checkEnd_iff.2 (hends f hf)
  unfold load
  rw [if_neg (not_not_intro hpacked.size_functions.symm), hcheck]
  dsimp only
  split
  · cases verify m vm.primitives.length <;> rfl
  · rfl

theorem loadBytes_of_decode (h : Image.decode b = .ok (m, a)) (vm : VirtualMachine) :
    vm.loadBytes b = (vm.record (Image.decodeWithEvents b).events).load m a := by
  have hresult : (Image.decodeWithEvents b).result = .ok (m, a) := h
  simp only [loadBytes, hresult]

theorem twin_of_load {a₁ a₂ : Arena} {events : List Event} {vm₁ vm₂ : VirtualMachine}
    (hdiscreet : ∀ p ∈ vm.primitives, p.program.Discreet) (ha : a₁.Alike a₂)
    (h₁ : (vm.record events).load m a₁ = (.ok (), vm₁)) (h₂ : vm.load m a₂ = (.ok (), vm₂)) :
    Twin vm₁ vm₂ := by
  obtain ⟨log₁, rfl⟩ := exists_of_load h₁
  obtain ⟨log₂, rfl⟩ := exists_of_load h₂
  refine ⟨rfl, rfl, rfl, rfl, _, _, rfl, rfl, rfl, ha, rfl, fun i f hi => ?_,
    fun p hp => hdiscreet p hp _ _ ha⟩
  rw [join_getElem?_replicate] at hi
  cases hi

/-- The two views of a file agree, and it is all one whether the machine is given the file or the
module in it. The image answers every query with what the module has in that place. Loading succeeds
for both or for neither; the runs that follow have the same results, outputs and heaps, if neither
the primitives nor the compiled functions look behind the queries, as the standard primitives do
not. -/
theorem views_of_decode (h : Image.decode b = .ok (m, a)) :
    (a.functions.size = m.functions.length ∧ a.strings.size = m.strings.length) ∧
    (∀ i f, m.functions[i]? = some f → ∃ r, a.functionRecord i = .ok r ∧ r.name = f.name ∧
      r.nparams = f.nparams ∧ r.nlocals = f.nlocals ∧ r.codeLength = f.code.length ∧
      ∀ ip instruction, f.code[ip]? = some instruction →
        a.instruction r ip = .ok instruction) ∧
    (∀ j s, m.strings[j]? = some s → a.string j = .ok s) ∧
    ∀ vm : VirtualMachine, (∀ p ∈ vm.primitives, p.program.Discreet) →
      (vm.loadBytes b).1 = (vm.loadModule m).1 ∧
      (vm.config.verifyOnLoad = false → (vm.loadModule m).1 = .ok ()) ∧
      ((vm.loadModule m).1 = .ok () → ∀ natives : List (Nat × CompiledFunction),
        (∀ n ∈ natives, CompiledFunction.Discreet n.2) → ∀ calls,
        ((vm.loadBytes b).2.install natives).transcript calls =
          ((vm.loadModule m).2.install natives).transcript calls) := by
  have hwritable := Image.writable_of_decode h
  have hends := Image.ended_of_decode h
  have hpacked := Arena.packed_of_decode h
  refine ⟨⟨hpacked.size_functions, hpacked.size_strings⟩, fun i f hi => ?_,
    fun j s hj => Arena.string_of_packed hwritable hpacked hj, fun vm hdiscreet => ?_⟩
  · obtain ⟨r, hr, -, hshows⟩ := Arena.functionRecord_of_packed hwritable hpacked hi
    exact ⟨r, hr, hshows.name, hshows.nparams, hshows.nlocals, hshows.codeLength,
      fun _ _ hip => hshows.code hip⟩
  · have hbytes := load_of_ended hends hpacked (vm.record (Image.decodeWithEvents b).events)
    have hmodule := load_of_ended hends (Arena.packed_ofModule m) vm
    rw [← loadBytes_of_decode h] at hbytes
    refine ⟨hbytes.trans hmodule.symm, fun hverify => ?_,
      fun hok natives hnatives calls => ?_⟩
    · change (vm.load m (.ofModule m)).1 = .ok ()
      rw [hmodule, hverify]
      rfl
    · have halike := Arena.alike_of_packed hwritable hpacked (Arena.packed_ofModule m)
      have hok' := (hbytes.trans hmodule.symm).trans hok
      rw [loadBytes_of_decode h] at hok' ⊢
      have htwin := twin_of_load hdiscreet halike (Prod.ext hok' rfl) (Prod.ext hok rfl)
      exact transcript_eq (install_twin htwin natives hnatives) calls

end Loading

/-- Writes the string of the module by a primitive, then has the other function called. -/
def greeting : Module where
  functions := [
    .ofBody "f" 0 0 [.make .pushString 0, .make .primitiveCall 0, .make .drop 0,
      .make .functionCall 1, .make .functionReturn 0],
    .ofBody "" 0 0 []]
  strings := ["a"]

open Image in
/-- The module in a file, with the string before the functions. -/
def stringsFirst : List UInt8 :=
  wordBytes 82 ++ magic ++ (Section.strings greeting.strings).bytes ++
    (Section.functions greeting.functions).bytes

def packedFirst : Arena :=
  .ofRecords (greeting.strings.map .string ++ greeting.functions.map .function)

/-- Writes the string once more. -/
def echo : CompiledFunction := fun _ => do
  Program.writeText (← Program.stringAt 0)
  return .int 7

theorem discreet_echo : echo.Discreet := fun _ a₁ a₂ ha =>
  (Program.discreet_stringAt 0 a₁ a₂ ha).bind fun _ =>
    Program.Twin.bind (.write _ fun x => .done x) fun _ => .done _

/-- The results of two runs, and what is written by the end of each. -/
def answers? (vm : VirtualMachine) : Option (List (Except VmError Value × Array UInt8)) :=
  (vm.transcript [(20, .name "f", []), (20, .index 1, [])]).map
    (·.map fun (result, output, _) => (result, output.bytes))

theorem views_of_decode_stringsFirst :
    Image.decode stringsFirst = .ok (greeting, packedFirst) ∧ packedFirst ≠ .ofModule greeting ∧
    packedFirst.string 0 = .ok "a" ∧ (∃ r, packedFirst.functionRecord 1 = .ok r ∧ r.name = "" ∧
      packedFirst.instruction r 0 = .ok .endSection) ∧
    ((VirtualMachine.new {}).loadBytes stringsFirst).1 = .ok () ∧
    answers? (((VirtualMachine.new {}).loadBytes stringsFirst).2.install [(1, echo)]) =
      some [(.ok (.int 7), #[97, 10, 97]), (.ok (.int 7), #[97, 10, 97, 97])] := by
  have hdecode : Image.decode stringsFirst = .ok (greeting, packedFirst) := by decide +kernel
  have hanswers : answers? (((VirtualMachine.new {}).loadModule greeting).2.install [(1, echo)]) =
      some [(.ok (.int 7), #[97, 10, 97]), (.ok (.int 7), #[97, 10, 97, 97])] := by
    decide +kernel
  obtain ⟨-, hfunctions, hstrings, hloads⟩ := views_of_decode hdecode
  obtain ⟨r, hr, hname, -, -, -, hcode⟩ := hfunctions 1 _ rfl
  obtain ⟨hload, hsucceeds, hruns⟩ := hloads (.new {}) Program.discreet_standard
  have hok := hsucceeds rfl
  have hnatives : ∀ n ∈ [(1, echo)], n.2.Discreet := List.forall_mem_singleton.2 discreet_echo
  refine ⟨hdecode, by decide +kernel, hstrings 0 "a" rfl, ⟨r, hr, hname, hcode 0 _ rfl⟩,
    hload.trans hok, ?_⟩
  rw [answers?, hruns hok _ hnatives]
  exact hanswers

end VirtualMachine

end StackMachine
