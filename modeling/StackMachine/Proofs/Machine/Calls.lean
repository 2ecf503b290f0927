import StackMachine.Proofs.Machine.Evolution
import StackMachine.Proofs.Machine.Lockstep
import StackMachine.VirtualMachine

/-! Runs of a virtual machine: the checks before the call, the states that the call goes through,
and what it leaves. Calls with the same arguments, none of them a handle, end alike when their
settings can be compared, whatever the heaps hold. -/

namespace StackMachine

namespace VirtualMachine

open Machine

variable {vm vm' : VirtualMachine} {fuel : Nat} {target : Target} {args : List Value}

theorem prepare_congr {vm₁ vm₂ : VirtualMachine} (h : vm₁.loaded = vm₂.loaded) (target : Target)
    (args : List Value) : vm₁.prepare target args = vm₂.prepare target args := by
  unfold prepare resolve
  rw [h]

theorem prepare_of_ok {l : Loaded} {index : Nat} {f : Func}
    (h : vm.prepare target args = .ok (l, index, f)) :
    vm.loaded = some l ∧ l.module.functions[index]? = some f := by
  unfold prepare at h
  cases hr : vm.resolve target with
  | error e =>
    rw [hr] at h
    cases h
  | ok i =>
    cases hl : vm.loaded with
    | none =>
      rw [hr, hl] at h
      cases h
    | some l' =>
      simp only [hr, hl, Module.function] at h
      cases hf : l'.module.functions[i]? with
      | none =>
        rw [hf] at h
        cases h
      | some g =>
        simp only [hf] at h
        split at h
        · cases h
        · cases h
          exact ⟨rfl, hf⟩

theorem prepare_index (vm : VirtualMachine) {l : Loaded} {f : Func} {i : Nat}
    (hl : vm.loaded = some l) (hf : l.module.functions[i]? = some f) (args : List Value) : vm.prepare (.index i) args =
      if args.length ≠ f.nparams.toNat then
        .error (.badFunctionCall f.name f.nparams.toNat args.length)
      else .ok (l, i, f) := by
  obtain ⟨hlt, -⟩ := List.getElem?_eq_some_iff.1 hf
  simp only [prepare, resolve, hl, if_pos hlt, Module.function, hf]

theorem resolve_ne_fault (f : Fault) : vm.resolve target ≠ .error (.fault f) := by
  unfold resolve
  cases vm.loaded with
  | none => exact nofun
  | some l =>
    cases target with
    | index i =>
      dsimp only
      split <;> exact nofun
    | name s =>
      dsimp only
      cases l.module.functionIndex s <;> exact nofun

/-- Only a call can fault. -/
theorem prepare_ne_fault (f : Fault) : vm.prepare target args ≠ .error (.fault f) := by
  unfold prepare
  cases hr : vm.resolve target with
  | error e =>
    rintro ⟨⟩
    exact resolve_ne_fault f hr
  | ok index =>
    cases vm.loaded with
    | none => exact nofun
    | some l =>
      dsimp only
      cases l.module.function index with
      | error e => exact nofun
      | ok g =>
        dsimp only
        split <;> exact nofun

variable {l : Loaded} {index : Nat} {m : Setting} {u : State}

/-- The state of a call after `n` steps, if there are so many. -/
def callState (vm : VirtualMachine) (l : Loaded) (index : Nat) (args : List Value) (n : Nat) :
    Option State :=
  match pushArguments args vm.store with
  | .error _ _ => none
  | .ok () s => after (vm.setting l) n (Machine.call index s)

def runState (vm : VirtualMachine) (target : Target) (args : List Value) (n : Nat) :
    Option State :=
  match vm.prepare target args with
  | .error _ => none
  | .ok (l, index, f) => (vm.started f args).callState l index args n

theorem runState_of_prepare {f : Func} (h : vm.prepare target args = .ok (l, index, f))
    (n : Nat) : vm.runState target args n = (vm.started f args).callState l index args n := by
  rw [runState, h]

/-- The run goes through the state, in the setting. -/
def Visits (vm : VirtualMachine) (target : Target) (args : List Value) (m : Setting) (u : State) :
    Prop :=
  ∃ l index f n, vm.prepare target args = .ok (l, index, f) ∧ m = vm.setting l ∧
    (vm.started f args).callState l index args n = some u

theorem rules_pushArguments {P : ∀ {α : Type}, Action α → Prop} (hP : Action.Rules P)
    (args : List Value) : P (pushArguments args) := by
  unfold pushArguments
  induction args.reverse with
  | nil => exact hP.pure _
  | cons v vs ih => exact hP.bind (hP.push v) fun _ => ih

section Heaps

variable {outcome : Except Fault Value} {s : Store} {result : Except VmError Value}

theorem evolves_pushArguments (args : List Value) : Action.Evolves (pushArguments args) :=
  fun s => rules_pushArguments (Action.invariant_evolves s.heap).rules args s (.refl _)

theorem exists_of_callState {n : Nat} (h : vm.callState l index args n = some u) :
    ∃ s, pushArguments args vm.store = .ok () s ∧
      after (vm.setting l) n (Machine.call index s) = some u := by
  unfold callState at h
  cases hpush : pushArguments args vm.store with
  | error f s =>
    rw [hpush] at h
    cases h
  | ok _ s =>
    rw [hpush] at h
    exact ⟨s, rfl, h⟩

theorem evolves_callState {n : Nat} (h : vm.callState l index args n = some u) :
    vm.heap.Evolves u.store.heap := by
  obtain ⟨s, hpush, hafter⟩ := exists_of_callState h
  exact ((evolves_pushArguments args).of_ok hpush).trans (evolves_after hafter)

/-- A call that is over has faulted before its first step, or come to an end of the machine. -/
theorem call_cases (h : vm.call fuel l index args = some (outcome, s)) :
    (∃ f, outcome = .error f ∧ pushArguments args vm.store = .error f s) ∨
      ∃ n s₀ depth, pushArguments args vm.store = .ok () s₀ ∧
        after (vm.setting l) n (Machine.call index s₀) =
          some ⟨s, depth, [], .deliver outcome⟩ := by
  unfold call at h
  cases hpush : pushArguments args vm.store with
  | error f s' =>
    rw [hpush] at h
    cases h
    exact .inl ⟨f, rfl, rfl⟩
  | ok _ s₀ =>
    rw [hpush] at h
    obtain ⟨n, depth, -, hafter⟩ := run_eq_some_iff.1 h
    exact .inr ⟨n, s₀, depth, rfl, hafter⟩

theorem evolves_call (h : vm.call fuel l index args = some (outcome, s)) :
    vm.heap.Evolves s.heap := by
  rcases call_cases h with ⟨f, -, hpush⟩ | ⟨n, s₀, depth, hpush, hafter⟩
  · exact (evolves_pushArguments args).of_error hpush
  · exact ((evolves_pushArguments args).of_ok hpush).trans (evolves_after hafter)

theorem evolves_call_of_callState {n : Nat} (hu : vm.callState l index args n = some u)
    (h : vm.call fuel l index args = some (outcome, s)) : u.store.heap.Evolves s.heap := by
  obtain ⟨s', hpush, hafter⟩ := exists_of_callState hu
  rcases call_cases h with ⟨f, -, hpush'⟩ | ⟨k, s₀, depth, hpush', hend⟩
  · cases hpush.symm.trans hpush'
  cases hpush.symm.trans hpush'
  -- the state comes before the end, or it is the end
  rcases Nat.le_total n k with hnk | hkn
  · obtain ⟨d, rfl⟩ := Nat.exists_eq_add_of_le hnk
    rw [after_add, hafter] at hend
    exact evolves_after hend
  · obtain ⟨d, rfl⟩ := Nat.exists_eq_add_of_le hkn
    rw [after_add, hend] at hafter
    obtain ⟨-, rfl⟩ := after_of_none rfl hafter
    exact .refl _

theorem finish_heap (vm : VirtualMachine) (function : String)
    (x : Except Fault Value × Store) : (vm.finish function x).2.heap = x.2.heap := by
  obtain ⟨_ | v, s⟩ := x
  · rfl
  · simp only [finish]
    cases s.output.flush <;> rfl

/-- Only a call with a result makes a run with one, and with the same. -/
theorem outcome_of_finish {function : String} {v : Value}
    (h : vm.finish function (outcome, s) = (.ok v, vm')) : outcome = .ok v := by
  cases outcome with
  | error f => cases h
  | ok w =>
    simp only [finish] at h
    split at h <;> cases h
    rfl

theorem call_of_run {l : Loaded} {f : Func} {vm' : VirtualMachine}
    (hp : vm.prepare target args = .ok (l, index, f))
    (h : vm.run fuel target args = some (result, vm')) :
    ∃ outcome s, (vm.started f args).call fuel l index args = some (outcome, s) ∧
      (vm.started f args).finish f.name (outcome, s) = (result, vm') := by
  rw [VirtualMachine.run, hp] at h
  obtain ⟨⟨outcome, s⟩, hcall, hfinish⟩ := Option.map_eq_some_iff.1 h
  exact ⟨outcome, s, hcall, hfinish⟩

theorem evolves_run (h : vm.run fuel target args = some (result, vm')) :
    vm.heap.Evolves vm'.heap := by
  cases hp : vm.prepare target args with
  | error e =>
    rw [VirtualMachine.run, hp] at h
    cases h
    exact .refl _
  | ok x =>
    obtain ⟨outcome, s, hcall, hfinish⟩ := call_of_run hp h
    have hheap := finish_heap (vm.started x.2.2 args) x.2.2.name (outcome, s)
    rw [hfinish] at hheap
    have hcalled := evolves_call hcall
    rwa [← hheap] at hcalled

/-- A run passes through no heap with more slots than the one that it leaves. -/
theorem Visits.size_le (hu : vm.Visits target args m u) (hh : vm.heap.Reachable)
    (h : vm.run fuel target args = some (result, vm')) :
    u.store.heap.slots.size ≤ vm'.heap.slots.size := by
  obtain ⟨l, index, f, n, hp, -, hstate⟩ := hu
  obtain ⟨outcome, s, hcall, hfinish⟩ := call_of_run hp h
  have hheap := finish_heap (vm.started f args) f.name (outcome, s)
  rw [hfinish] at hheap
  have hh' : (vm.started f args).heap.Reachable := hh
  have hregular := (hh'.evolves (evolves_callState hstate)).regular
  have hsize := (evolves_call_of_callState hstate hcall).size_le hregular
  rwa [← hheap] at hsize

theorem run_keeps (h : vm.run fuel target args = some (result, vm')) :
    vm' = { vm with heap := vm'.heap, output := vm'.output, log := vm'.log } := by
  cases hp : vm.prepare target args with
  | error e =>
    rw [VirtualMachine.run, hp] at h
    cases h
    rfl
  | ok x =>
    obtain ⟨outcome, s, -, hfinish⟩ := call_of_run hp h
    cases outcome with
    | error f =>
      cases hfinish
      rfl
    | ok v =>
      simp only [finish] at hfinish
      split at hfinish <;> cases hfinish <;> rfl

end Heaps

section Unique

variable {fuel' : Nat}

/-- A call has one outcome, whatever the fuel. -/
theorem call_unique {outcome outcome' : Except Fault Value} {s s' : Store}
    (h : vm.call fuel l index args = some (outcome, s))
    (h' : vm.call fuel' l index args = some (outcome', s')) : outcome = outcome' ∧ s = s' := by
  rcases call_cases h with ⟨f, rfl, hpush⟩ | ⟨n, s₀, depth, hpush, hafter⟩ <;>
    rcases call_cases h' with ⟨f', rfl, hpush'⟩ | ⟨n', s₀', depth', hpush', hafter'⟩ <;>
    cases hpush.symm.trans hpush'
  · exact ⟨rfl, rfl⟩
  · exact end_unique hafter hafter'

theorem run_unique {x y : Except VmError Value × VirtualMachine}
    (hx : vm.run fuel target args = some x) (hy : vm.run fuel' target args = some y) : x = y := by
  cases hp : vm.prepare target args with
  | error e =>
    rw [VirtualMachine.run, hp] at hx hy
    exact Option.some.inj (hx.symm.trans hy)
  | ok prepared =>
    obtain ⟨outcome, s, hcall, hfinish⟩ := call_of_run hp hx
    obtain ⟨outcome', s', hcall', hfinish'⟩ := call_of_run hp hy
    obtain ⟨rfl, rfl⟩ := call_unique hcall hcall'
    exact hfinish.symm.trans hfinish'

end Unique

end VirtualMachine

namespace Comparison

open Machine VirtualMachine

variable {K : Comparison} (hK : K.Lawful) {args : List Value}
  (hargs : ∀ v ∈ args, v.asRef? = none ∧ K.word v)
include hK hargs

theorem pushArguments_alike {pairs : ObjectRef → ObjectRef → Prop} {fact : Heap → Prop} :
    K.Alike (K.Stores pairs fact) (pushArguments args) (pushArguments args)
      (K.Returns pairs fact fun _ _ => True) := by
  have hvs : ∀ v ∈ args.reverse, v.asRef? = none ∧ K.word v :=
    fun v hv => hargs v (List.mem_reverse.1 hv)
  unfold pushArguments
  generalize args.reverse = vs at hvs
  induction vs with
  | nil => exact Alike.pure trivial
  | cons v vs ih =>
    obtain ⟨⟨hn, hw⟩, hvs⟩ := List.forall_mem_cons.1 hvs
    exact (push_alike hK (.word hn hw)).bind fun _ _ _ => ih hvs

theorem call_alike {vm₁ vm₂ : VirtualMachine} {l₁ l₂ : Loaded} {index : Nat}
    {pairs : ObjectRef → ObjectRef → Prop} (hleft : K.left = vm₁.setting l₁)
    (hright : K.right = vm₂.setting l₂) (hindex : K.entry index)
    (hs : K.Stores pairs (fun _ => True) vm₁.store vm₂.store)
    (hroom₁ : ∀ n u, vm₁.callState l₁ index args n = some u → u.Roomy)
    (hroom₂ : ∀ n u, vm₂.callState l₂ index args n = some u → u.Roomy)
    (hprint : K.rigid ∨ K.Tolerant ∨
      ∀ n u, vm₁.callState l₁ index args n = some u → ¬ u.PrintsStack K.left) :
    (∀ fuel, Outcomes K (vm₁.call fuel l₁ index args) (vm₂.call fuel l₂ index args)) ∧
      ∀ n, Option.Rel K.States (vm₁.callState l₁ index args n)
        (vm₂.callState l₂ index args n) := by
  have hr := pushArguments_alike hK hargs hs
  unfold VirtualMachine.call
  unfold callState at *
  rw [← hleft] at hroom₁ hprint ⊢
  rw [← hright] at hroom₂ ⊢
  generalize pushArguments args vm₁.store = r₁ at *
  generalize pushArguments args vm₂.store = r₂ at *
  cases hr with
  | error hf hk => exact ⟨fun _ => .fault hf hk, fun _ => .none⟩
  | @ok _ _ s₁ s₂ hq =>
    have hstart : K.States (Machine.call index s₁) (Machine.call index s₂) :=
      .going hq.2 .nil (.enter hindex)
    have hafter := after_alike hK hstart hroom₁ hroom₂ hprint
    exact ⟨run_alike hafter, hafter⟩

end Comparison

end StackMachine
