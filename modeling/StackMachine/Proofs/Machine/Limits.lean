import StackMachine.Proofs.Machine.Discipline
import StackMachine.Proofs.Machine.Shadowing
import StackMachine.Proofs.Machine.Termination

/-! The limits of the stack and of the depth of calls. A run keeps within them, and that is all they
do: under higher limits a run that came to neither goes through the same stores to the same end. -/

namespace StackMachine

open Machine

/-- A run beside the same run under higher limits. -/
def Setting.widened (m : Setting) (depth : Nat) : Shadow where
  left := m
  right := m
  word _ := True
  code := Eq
  entry _ := True
  allowed _ := True
  outputs := Eq
  rigid := True
  depth := depth
  wider := True

theorem Setting.Plain.widened {m : Setting} (hm : m.Plain) {depth : Nat}
    (hdepth : m.maxDepth ≤ depth) : (m.widened depth).Lawful where
  comparison := hm.itself ⟨fun _ => trivial, fun _ => trivial, fun _ => trivial⟩
  depth := .inr ⟨trivial, hdepth⟩
  ref _ := trivial

namespace VirtualMachine

variable {vm vm' : VirtualMachine} {l : Loaded} {f : Func} {index fuel : Nat} {args : List Value}
  {result : Except VmError Value} {m : Setting} {u : State}

def withLimits (vm : VirtualMachine) (limits : Limits) : VirtualMachine :=
  { vm with config := { vm.config with limits } }

theorem stores_withLimits {limits : Limits} {depth : Nat}
    (hstack : vm.config.limits.maxStackSize ≤ limits.maxStackSize) :
    (m.widened depth).Stores vm.store (vm.withLimits limits).store :=
  .intro (.inr ⟨trivial, hstack⟩) (fun _ _ => trivial) fun _ _ _ _ _ _ => trivial

/-- A result that no limit has decided is the result under higher limits too. -/
theorem run_higher (hm : (vm.setting l).Plain) (hl : vm.loaded = some l) {limits : Limits}
    (hstack : vm.config.limits.maxStackSize ≤ limits.maxStackSize)
    (hdepth : vm.config.limits.maxRecursionDepth ≤ limits.maxRecursionDepth) {target : Target}
    (h : vm.run fuel target args = some (result, vm'))
    (hresult : ∀ f, result = .error (.fault f) → f.isLimit = false) :
    ∃ y, (vm.withLimits limits).run fuel target args = some y ∧ SameEnd (result, vm') y := by
  have hprepare : (vm.withLimits limits).prepare target args = vm.prepare target args :=
    prepare_congr rfl target args
  cases hp : vm.prepare target args with
  | error e =>
    rw [VirtualMachine.run, hp] at h
    cases h
    rw [VirtualMachine.run, hprepare, hp]
    exact ⟨_, rfl, rfl, rfl, rfl⟩
  | ok x =>
    obtain ⟨l', index, f⟩ := x
    obtain rfl : l = l' := Option.some.inj (hl.symm.trans (prepare_of_ok hp).1)
    -- the run has one result only, so no amount of fuel brings it to a limit
    have hruns := Shadow.prepared_shadow (hm.widened hdepth) hp (hprepare.trans hp) rfl rfl trivial
      (fun _ _ => trivial) (stores_withLimits hstack)
      (fun _ _ fault _ h' => hresult fault (congrArg Prod.fst (run_unique h h'))) fuel
    rw [h] at hruns
    generalize (vm.withLimits limits).run fuel target args = y at hruns ⊢
    cases hruns with
    | some hend => exact ⟨_, rfl, hend⟩

theorem within_pushArguments (vm : VirtualMachine) (args : List Value) :
    (Program.attempt (pushArguments args) vm.store).2.stack.Within
      vm.config.limits.maxStackSize.toNat :=
  rules_pushArguments (Action.invariant_within _).rules args _ ⟨rfl, Nat.zero_le _⟩

theorem within_of_visits {target : Target} (h : vm.Visits target args m u) :
    u.store.stack.height ≤ vm.config.limits.maxStackSize.toNat ∧
      u.depth ≤ vm.config.limits.maxRecursionDepth.toNat := by
  obtain ⟨l, index, f, n, -, -, hstate⟩ := h
  obtain ⟨s, hpush, hafter⟩ := exists_of_callState hstate
  have hs := within_pushArguments (vm.started f args) args
  rw [Program.attempt, hpush] at hs
  have hdepth := depth_le_of_after hafter
  rw [Machine.call, Nat.zero_max] at hdepth
  exact ⟨((Action.invariant_within _).after hafter hs).2, hdepth⟩

/-- The limits cut runs off, and do nothing else. The stack is within its limit from the first
argument on that is pushed, and the arguments are pushed from the last one. -/
theorem run_withLimits (hl : vm.loaded = some l) (hprimitives : vm.primitives = .standard)
    (hinterpreted : ∀ i : Nat, l.compiled[i]?.join = none) (target : Target) (args : List Value) :
    (∀ limits : Limits, vm.config.limits.maxStackSize ≤ limits.maxStackSize →
      vm.config.limits.maxRecursionDepth ≤ limits.maxRecursionDepth →
      ∀ fuel result vm₁, vm.run fuel target args = some (result, vm₁) →
        (∀ f, result = .error (.fault f) → f.isLimit = false) →
        ∃ vm₂, (vm.withLimits limits).run fuel target args = some (result, vm₂) ∧
          vm₂.output = vm₁.output ∧ vm₂.heap = vm₁.heap) ∧
    (∀ m u, vm.Visits target args m u →
      u.store.stack.height ≤ vm.config.limits.maxStackSize.toNat ∧
        u.depth ≤ vm.config.limits.maxRecursionDepth.toNat) ∧
    ∀ k, (Program.attempt (pushArguments (args.drop k)) vm.store).2.stack.height ≤
      vm.config.limits.maxStackSize.toNat := by
  refine ⟨fun limits hstack hdepth fuel result vm₁ h hresult => ?_, fun m u => within_of_visits,
    fun k => (within_pushArguments vm (args.drop k)).2⟩
  have hm : (vm.setting l).Plain := ⟨hprimitives, hinterpreted⟩
  obtain ⟨⟨result', vm₂⟩, hrun, hanswer, houtput, hheap⟩ :=
    run_higher hm hl hstack hdepth h hresult
  obtain rfl : result = result' := hanswer
  exact ⟨vm₂, hrun, houtput.symm, hheap.symm⟩

/-- Three calls, one in the other, are what this limit of the depth allows. -/
def shallow : VirtualMachine := parityMachine.withLimits ⟨16, 3⟩

theorem run_withLimits_shallow :
    (∃ vm, (shallow.withLimits .standard).run 100 (.name "even") [.int 2] =
        some (.ok (.int 1), vm) ∧ vm.output = shallow.output ∧ vm.heap = shallow.heap) ∧
      ∀ m u, shallow.Visits (.name "even") [.int 2] m u →
        u.store.stack.height ≤ 16 ∧ u.depth ≤ 3 := by
  have hl : shallow.loaded = some ⟨parity, .ofModule parity, #[none, none]⟩ := rfl
  obtain ⟨hlimits, hwithin, -⟩ :=
    run_withLimits hl rfl (join_getElem?_replicate 2) (.name "even") [.int 2]
  refine ⟨?_, hwithin⟩
  have hrun : (shallow.run 100 (.name "even") [.int 2]).map
      (fun x => (x.1, x.2.output, x.2.heap)) =
        some (.ok (.int 1), shallow.output, shallow.heap) := by decide +kernel
  obtain ⟨⟨result, vm₁⟩, hrun, hsame⟩ := Option.map_eq_some_iff.1 hrun
  simp only [Prod.mk.injEq] at hsame
  obtain ⟨rfl, houtput, hheap⟩ := hsame
  obtain ⟨vm₂, hrun₂, houtput₂, hheap₂⟩ :=
    hlimits .standard (by decide) (by decide) 100 _ vm₁ hrun nofun
  exact ⟨vm₂, hrun₂, houtput₂.trans houtput, hheap₂.trans hheap⟩

end VirtualMachine

end StackMachine
