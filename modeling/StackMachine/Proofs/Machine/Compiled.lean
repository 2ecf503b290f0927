import StackMachine.Proofs.Machine.Parity

/-! Virtual machines with compiled functions. Whichever functions are compiled, whether they are set
one by one or made by a generator that gives up on the rest, a run ends as it does without them. -/

namespace StackMachine

/-- A way to give functions compiled forms. -/
inductive Installation where
  | set (index : Nat) (function : CompiledFunction)
  | generate (index : Nat)
  | generateAll

namespace VirtualMachine

open Machine

def installed (vm : VirtualMachine) : Installation → VirtualMachine
  | .set index function => (vm.setCompiled index function).2
  | .generate index => (vm.generate index).2
  | .generateAll => vm.generateAll.2

/-- The second machine is the first, but for compiled functions, and for the log. -/
structure Equips (vm : VirtualMachine) (l : Loaded) (compiled : Array (Option CompiledFunction))
    (vm' : VirtualMachine) : Prop where
  config : vm'.config = vm.config
  primitives : vm'.primitives = vm.primitives
  heap : vm'.heap = vm.heap
  output : vm'.output = vm.output
  loaded : vm'.loaded = some { l with compiled }

section Installing

variable {vm vm' : VirtualMachine} {l : Loaded} {compiled : Array (Option CompiledFunction)}

theorem Equips.refl (h : vm.loaded = some l) : vm.Equips l l.compiled vm := ⟨rfl, rfl, rfl, rfl, h⟩

theorem Equips.set (h : vm.Equips l compiled vm') (compiled' : Array (Option CompiledFunction)) :
    vm.Equips l compiled' { vm' with loaded := some { l with compiled := compiled' } } :=
  ⟨h.config, h.primitives, h.heap, h.output, rfl⟩

theorem Equips.record (h : vm.Equips l compiled vm') (events : List Event) :
    vm.Equips l compiled (vm'.record events) :=
  ⟨h.config, h.primitives, h.heap, h.output, h.loaded⟩

theorem Equips.setCompiled (h : vm.Equips l compiled vm') (index : Nat)
    (function : CompiledFunction) :
    ∃ compiled', vm.Equips l compiled' (vm'.setCompiled index function).2 := by
  simp only [VirtualMachine.setCompiled, h.loaded]
  split
  · exact ⟨_, h.set _⟩
  · exact ⟨_, h⟩

theorem Equips.generate (h : vm.Equips l compiled vm') (index : Nat) :
    ∃ compiled', vm.Equips l compiled' (vm'.generate index).2 := by
  unfold VirtualMachine.generate
  rw [h.loaded]
  cases vm'.generator with
  | none => exact ⟨_, h⟩
  | some generator =>
    dsimp only
    split
    · cases generator l.module index with
      | ok function => exact ⟨_, h.config, h.primitives, h.heap, h.output, rfl⟩
      | error e => exact ⟨_, h.record _⟩
    · exact ⟨_, h⟩

theorem Equips.generateEach (h : vm.Equips l compiled vm') (count : Nat) (indices : List Nat) :
    ∃ compiled', vm.Equips l compiled' (vm'.generateEach count indices).2 := by
  induction indices generalizing vm' compiled count with
  | nil => exact ⟨_, h⟩
  | cons index indices ih =>
    obtain ⟨compiled', h'⟩ := h.generate index
    unfold VirtualMachine.generateEach
    rcases hanswer : vm'.generate index with ⟨_ | installed, vm''⟩
    · rw [hanswer] at h'
      exact ⟨_, h'⟩
    · rw [hanswer] at h'
      exact ih h' _

theorem Equips.installed (h : vm.Equips l compiled vm') (i : Installation) :
    ∃ compiled', vm.Equips l compiled' (vm'.installed i) := by
  cases i with
  | set index function => exact h.setCompiled index function
  | generate index => exact h.generate index
  | generateAll =>
    simp only [VirtualMachine.installed, generateAll]
    split
    · exact ⟨_, h⟩
    · obtain ⟨compiled', h'⟩ := h.generateEach 0 (List.range vm'.functionCount)
      rcases hanswer : vm'.generateEach 0 (List.range vm'.functionCount) with ⟨_ | count, vm''⟩
      · rw [hanswer] at h'
        exact ⟨_, h'⟩
      · rw [hanswer] at h'
        exact ⟨_, h'.record _⟩

theorem Equips.foldl (h : vm.Equips l compiled vm') (installations : List Installation) :
    ∃ compiled', vm.Equips l compiled' (installations.foldl VirtualMachine.installed vm') := by
  induction installations generalizing compiled vm' with
  | nil => exact ⟨compiled, h⟩
  | cons i rest ih =>
    obtain ⟨compiled', h'⟩ := h.installed i
    exact ih h'

end Installing

section Runs

variable {vm vm' vm₁ : VirtualMachine} {l : Loaded}
  {compiled : Array (Option CompiledFunction)} {fuel : Nat} {target : Target} {args : List Value}

theorem Equips.setting (h : vm.Equips l compiled vm') :
    vm'.setting { l with compiled } = { vm.setting l with compiled } := by
  simp only [VirtualMachine.setting, h.config, h.primitives]

theorem Equips.store (h : vm.Equips l compiled vm') : vm.store.Like vm'.store where
  stack := by rw [VirtualMachine.store, VirtualMachine.store, h.config]
  heap := h.heap.symm
  output := h.output.symm

theorem legal_store (vm : VirtualMachine) :
    vm.store.Legal vm.config.limits.maxStackSize.toNat vm.heap :=
  ⟨⟨rfl, Nat.zero_le _⟩, .refl _⟩

theorem call_equipped {outcome : Except Fault Value} {s : Store} {index : Nat}
    (h : vm.Equips l compiled vm') (hplain : (vm.setting l).Plain)
    (hfaithful : Faithful (vm.setting l) vm.config.limits.maxStackSize.toNat vm.heap compiled)
    (hcall : vm.call fuel l index args = some (outcome, s))
    (hlimit : ∀ f, outcome = .error f → f.isLimit = false) :
    ∃ fuel' t, vm'.call fuel' { l with compiled } index args = some (outcome, t) ∧
      t.heap = s.heap ∧ t.output = s.output := by
  have hpush := rules_pushArguments Action.blind_closed.rules args h.store
  have hwithin := rules_pushArguments
    (Action.invariant_within vm.config.limits.maxStackSize.toNat).rules args
  have hevolves := rules_pushArguments (Action.invariant_evolves vm.heap).rules args
  unfold call at *
  cases hpushed : pushArguments args vm.store with
  | error f s₀ =>
    rw [hpushed] at hpush hcall
    cases hcall
    generalize pushArguments args vm'.store = r at hpush ⊢
    cases hpush with
    | error hst => exact ⟨0, _, rfl, hst.heap.symm, hst.output.symm⟩
  | ok u s₀ =>
    rw [hpushed] at hpush hcall
    have hlegal : s₀.Legal vm.config.limits.maxStackSize.toNat vm.heap :=
      ⟨hwithin.of_ok (legal_store vm).stack hpushed, hevolves.of_ok (legal_store vm).heap hpushed⟩
    obtain ⟨n, depth, -, hafter⟩ := run_eq_some_iff.1 hcall
    generalize pushArguments args vm'.store = r at hpush ⊢
    cases hpush with
    | @ok _ _ _ t₀ _ hst =>
      have hstart : TwinStates (vm.setting l).arena (vm.setting l).arena (Machine.call index s₀)
          (Machine.call index t₀) := ⟨hst, rfl, .nil, .enter index⟩
      obtain ⟨k, t, depth', hend, hheap, houtput⟩ :=
        ends_parity hplain hfaithful hstart (by simp [State.Interpreted, Machine.call]) hlegal
          hafter hlimit
      refine ⟨k, t, ?_, hheap, houtput⟩
      dsimp only
      rw [h.setting]
      exact run_eq_some_iff.2 ⟨k, depth', Nat.le_refl k, hend⟩

theorem finish_equipped {outcome : Except Fault Value} {s t : Store} {function : String}
    {result : Except VmError Value} (hheap : t.heap = s.heap) (houtput : t.output = s.output)
    (h : vm.finish function (outcome, s) = (result, vm₁)) (vm' : VirtualMachine) :
    ∃ vm₂, vm'.finish function (outcome, t) = (result, vm₂) ∧ vm₂.output = vm₁.output ∧
      vm₂.heap = vm₁.heap := by
  cases outcome with
  | error f =>
    cases h
    exact ⟨_, rfl, houtput, hheap⟩
  | ok v =>
    simp only [finish, houtput] at h ⊢
    cases hflush : s.output.flush with
    | error reason =>
      rw [hflush] at h
      cases h
      exact ⟨_, rfl, houtput, hheap⟩
    | ok u =>
      rw [hflush] at h
      cases h
      exact ⟨_, rfl, houtput, hheap⟩

/-- Compiled functions are not told from interpreted ones. If each of them gives what interpreting
the function would compute from the arguments alone, a run that ends without them, and not at a
limit, ends with them: with the same result, output and heap. -/
theorem run_of_installed {result : Except VmError Value} (hl : vm.loaded = some l)
    (hprimitives : vm.primitives = .standard) (hnone : ∀ i : Nat, l.compiled[i]?.join = none)
    (installations : List Installation)
    (hfaithful : ∀ l', (installations.foldl installed vm).loaded = some l' →
      Faithful (vm.setting l) vm.config.limits.maxStackSize.toNat vm.heap l'.compiled)
    (hrun : vm.run fuel target args = some (result, vm₁))
    (hlimit : ∀ f, result = .error (.fault f) → f.isLimit = false) :
    ∃ fuel' vm₂, (installations.foldl installed vm).run fuel' target args = some (result, vm₂) ∧
      vm₂.output = vm₁.output ∧ vm₂.heap = vm₁.heap := by
  obtain ⟨compiled, hequips⟩ := (Equips.refl hl).foldl installations
  have hcompiled := hfaithful _ hequips.loaded
  generalize installations.foldl installed vm = vm' at *
  rcases prepare_twin hl hequips.loaded rfl target args with
    ⟨e, he, he'⟩ | ⟨index, f, hp, hp'⟩
  · rw [VirtualMachine.run, he] at hrun
    cases hrun
    refine ⟨0, vm', ?_, hequips.output, hequips.heap⟩
    rw [VirtualMachine.run, he']
  · obtain ⟨outcome, s, hcall, hfinish⟩ := call_of_run hp hrun
    have hstarted : (vm.started f args).Equips l compiled (vm'.started f args) :=
      ⟨hequips.config, hequips.primitives, hequips.heap, hequips.output, hequips.loaded⟩
    have houtcome : ∀ g, outcome = .error g → g.isLimit = false := by
      rintro g rfl
      cases hfinish
      exact hlimit g rfl
    obtain ⟨fuel', t, hcall', hheap, houtput⟩ :=
      call_equipped hstarted ⟨hprimitives, hnone⟩ hcompiled hcall houtcome
    obtain ⟨vm₂, hfinish', hsame⟩ := finish_equipped hheap houtput hfinish (vm'.started f args)
    refine ⟨fuel', vm₂, ?_, hsame⟩
    rw [VirtualMachine.run, hp']
    simp only [hcall', Option.map_some, hfinish']

end Runs

/-- The first function hands its argument to the second, which gives it back. -/
def relay : Module where
  functions := [
    .ofBody "main" 1 0 [.make .pushParam 0, .make .functionCall 1, .make .functionReturn 0],
    .ofBody "same" 1 0 [.make .pushParam 0, .make .functionReturn 0]]

def same (params : Array Value) : Except Fault Value :=
  match params[0]? with
  | some v => .ok v
  | none => .error .stackUnderflow

/-- Only the second function can be compiled. -/
def relayMachine : VirtualMachine :=
  { VirtualMachine.new {} with
    loaded := some ⟨relay, .ofModule relay, .replicate 2 none⟩
    generator := some fun _ index =>
      if index = 1 then .ok fun params => .done (same params)
      else .error ⟨"main", "calls are not supported"⟩ }

def relaySetting : Setting :=
  relayMachine.setting ⟨relay, .ofModule relay, .replicate 2 none⟩

def sameRecord : FuncRecord := ⟨1, "same", 1, 0, 48, 3⟩

theorem openFrame_same {s : Store} {below : Array Value} {p : Value} (depth : Nat)
    (hvalues : s.stack.values = below.push p) :
    ∃ log, openFrame relaySetting.arena 1 depth s =
      .ok ⟨sameRecord, below.size, 0⟩ { s with log } := by
  have hrecord : relaySetting.arena.functionRecord 1 = .ok sameRecord := by decide +kernel
  have hheight : s.stack.height = below.size + 1 := by
    rw [Stack.height, hvalues, Array.size_push]
  have hbase : argumentBase sameRecord.nparams.toNat s = .ok below.size s := by
    rw [argumentBase_eq, hheight]
    exact if_pos (Nat.le_add_left 1 _)
  have hlocals : Action.liftStack (Stack.pushZeros sameRecord.nlocals.toNat) s = .ok () s := by
    simp [Action.liftStack, Stack.pushZeros, sameRecord]
  refine ⟨s.log.record (.entered "same" depth below.size), ?_⟩
  rw [openFrame, functionRecord_eq hrecord, pure_bind, bind_of_ok hbase,
    bind_of_ok hlocals]
  rfl

theorem fetch_of_base (f : FuncRecord) (base base' : Nat) (ip : Int) (arena : Arena) :
    (⟨f, base, ip⟩ : Activation).fetch arena = (⟨f, base', ip⟩ : Activation).fetch arena := rfl

theorem report_same (a : Activation) (i : Instruction) (t : Store) :
    report relaySetting a i t = t := rfl

section Same

variable {t : Store} {below : Array Value} {p : Value} (depth : Nat)

theorem step_same_push (hvalues : t.stack.values = below.push p) :
    step? relaySetting ⟨t, depth, [], .execute ⟨sameRecord, below.size, 0⟩⟩ =
      some (if t.stack.height < t.stack.limit then
        ⟨{ t with stack := { t.stack with values := (below.push p).push p } }, depth, [],
          .execute ⟨sameRecord, below.size, 1⟩⟩
      else leave t depth [] (.error (.stackOverflow t.stack.limit))) := by
  have hfetch : (⟨sameRecord, below.size, 0⟩ : Activation).fetch relaySetting.arena =
      .ok (.make .pushParam 0, .pushParam, 0) := by
    rw [fetch_of_base _ _ 0]
    decide +kernel
  have hget : Action.liftStack (Stack.get below.size) t = .ok p t := by
    simp only [Action.liftStack, Stack.get, hvalues, Array.getElem?_push_size]
  have hperform : perform relaySetting.arena ⟨sameRecord, below.size, 0⟩ .pushParam 0 t =
      (Action.liftStack (Stack.push p) >>= fun _ => pure 0) t := by
    change (Action.liftStack (Stack.get below.size >>= Stack.push) >>= fun _ => pure 0) t = _
    rw [Action.liftStack_bind, bind_assoc, bind_of_ok hget]
  simp only [step?, execute, hfetch, report_same]
  rw [dispatch_of_stays (by decide), hperform]
  simp only [bind, EStateM.bind, Action.liftStack, Stack.push, hvalues]
  by_cases hroom : t.stack.height < t.stack.limit
  · simp only [if_pos hroom]
    rfl
  · simp only [if_neg hroom]

theorem step_same_return (hvalues : t.stack.values = (below.push p).push p) :
    ∃ log, step? relaySetting ⟨t, depth, [], .execute ⟨sameRecord, below.size, 1⟩⟩ =
      some ⟨{ t with stack := { t.stack with values := below }, log }, depth - 1, [],
        .deliver (.ok p)⟩ := by
  have hfetch : (⟨sameRecord, below.size, 1⟩ : Activation).fetch relaySetting.arena =
      .ok (.make .functionReturn 0, .functionReturn, 0) := by
    rw [fetch_of_base _ _ 0]
    decide +kernel
  refine ⟨t.log.record (.returned "same" p), ?_⟩
  have hpop : Action.liftStack Stack.pop t =
      .ok p { t with stack := { t.stack with values := below.push p } } := by
    simp only [Action.liftStack, Stack.pop, hvalues, Array.back?_push, Array.pop_push]
  have hrestore : Action.liftStack (Stack.restore below.size)
      { t with stack := { t.stack with values := below.push p } } =
      .ok () { t with stack := { t.stack with values := below } } := by
    simp [Action.liftStack, Stack.restore, Stack.height]
  simp only [step?, execute, hfetch, report_same, dispatch]
  rw [closeFrame, bind_of_ok hpop, bind_of_ok hrestore]
  rfl

end Same

theorem computes_same (limit : Nat) (heap : Heap) : Computes relaySetting limit heap 1 same := by
  intro s s' r below params depth fuel outcome _ hr hparams hvalues hrun hlimit
  have hrecord : relaySetting.arena.functionRecord 1 = .ok sameRecord := by decide +kernel
  obtain rfl := Except.ok.inj (hr.symm.trans hrecord)
  obtain ⟨p, rfl⟩ := Array.size_eq_one_iff.1 hparams
  rw [← Array.push_eq_append] at hvalues
  obtain ⟨n, depth', -, hafter⟩ := run_eq_some_iff.1 hrun
  -- a run that ends at a limit is not asked about
  have hends : ∀ (k : Nat) (f : Fault) (t : Store), f.isLimit = true →
      after relaySetting k ⟨s, depth, [], .enter 1⟩ ≠
        some ⟨t, depth, [], .deliver (.error f)⟩ := by
    intro k f t hf h
    have hnot := hlimit f (end_unique hafter h).1
    rw [hf] at hnot
    cases hnot
  by_cases hdepth : relaySetting.maxDepth ≤ depth
  · refine absurd ?_ (hends 1 (.callDepthExceeded relaySetting.maxDepth) s rfl)
    simp only [after, step?, enter, if_pos hdepth, Option.bind_some]
  obtain ⟨log₁, hopen⟩ := openFrame_same (depth + 1) hvalues
  have henter : step? relaySetting ⟨s, depth, [], .enter 1⟩ =
      some ⟨{ s with log := log₁ }, depth + 1, [], .execute ⟨sameRecord, below.size, 0⟩⟩ := by
    have hnone : relaySetting.compiled[1]?.join = none := rfl
    simp only [step?, enter, if_neg hdepth, hnone, hopen]
  have hpush := step_same_push (t := { s with log := log₁ }) (depth + 1) hvalues
  by_cases hroom : s.stack.height < s.stack.limit
  · rw [if_pos hroom] at hpush
    obtain ⟨log₂, hreturn⟩ := step_same_return (p := p) (depth + 1)
      (t := ⟨⟨(below.push p).push p, s.stack.limit⟩, s.heap, s.output, log₁⟩) rfl
    have hdone : after relaySetting 3 ⟨s, depth, [], .enter 1⟩ =
        some ⟨⟨⟨below, s.stack.limit⟩, s.heap, s.output, log₂⟩, depth, [], .deliver (.ok p)⟩ := by
      rw [after_of_step henter, after_of_step hpush,
        after_of_step hreturn]
      rfl
    obtain ⟨rfl, rfl⟩ := end_unique hafter hdone
    exact ⟨rfl, rfl, rfl, fun _ _ => rfl⟩
  · rw [if_neg hroom] at hpush
    refine absurd ?_ (hends 2 (.stackOverflow s.stack.limit) { s with log := log₁ } rfl)
    rw [after_of_step henter, after_of_step hpush]
    rfl

theorem loaded_relay : (relayMachine.installed .generateAll).loaded =
    some ⟨relay, .ofModule relay, #[none, some fun params => .done (same params)]⟩ := rfl

theorem run_of_installed_relay : ∃ fuel vm₁ vm₂,
    (relayMachine.installed .generateAll).hasCompiled 0 = false ∧
    (relayMachine.installed .generateAll).hasCompiled 1 = true ∧
    relayMachine.run 10 (.name "main") [.int 3] = some (.ok (.int 3), vm₁) ∧
    (relayMachine.installed .generateAll).run fuel (.name "main") [.int 3] =
      some (.ok (.int 3), vm₂) ∧ vm₂.output = vm₁.output ∧ vm₂.heap = vm₁.heap := by
  have hresult : (relayMachine.run 10 (.name "main") [.int 3]).map (·.1) =
      some (.ok (.int 3)) := by
    decide +kernel
  obtain ⟨⟨result, vm₁⟩, hrun, hvalue⟩ := Option.map_eq_some_iff.1 hresult
  cases hvalue
  have hnone : ∀ i : Nat, (Array.replicate 2 (none : Option CompiledFunction))[i]?.join = none :=
    join_getElem?_replicate 2
  have hfaithful : ∀ l', ([.generateAll].foldl installed relayMachine).loaded = some l' →
      Faithful relaySetting relayMachine.config.limits.maxStackSize.toNat relayMachine.heap
        l'.compiled := by
    intro l' hl'
    obtain rfl := Option.some.inj (hl'.symm.trans loaded_relay)
    intro index function hfunction
    rcases index with _ | _ | index
    · cases hfunction
    · cases hfunction
      exact ⟨same, fun _ => rfl, computes_same _ _⟩
    · cases hfunction
  obtain ⟨fuel, vm₂, hrun', hsame⟩ := run_of_installed rfl rfl hnone [.generateAll] hfaithful hrun
    nofun
  exact ⟨fuel, vm₁, vm₂, by decide +kernel, by decide +kernel, hrun, hrun', hsame⟩

end VirtualMachine

end StackMachine
