import StackMachine.Proofs.Machine.Shadowing

/-! Integers stay within 48 bits. A run is compared with itself: if what code makes has a property,
and the arguments and the heap have it at the start, then it is one of every value on the stack and
in the heap, from the first argument that is pushed to the heap that is left. -/

namespace StackMachine

namespace Value

/-- No integer but one within 48 bits. -/
def Fits48 (v : Value) : Prop :=
  ∀ n, v = .int48 n → -0x800000000000 ≤ n.toInt ∧ n.toInt ≤ 0x7fffffffffff

theorem fits48_int (n : Int64) : (int n).Fits48 := by
  rintro _ ⟨⟩
  rw [toInt_wrap48, Int.bmod_def]
  omega

theorem closed_fits48 : Closed Fits48 where
  int := fits48_int
  string _ := nofun
  ref _ := nofun

end Value

open Machine

/-- The values on the stack and in the heap have the property, and so has a result that is on its
way to the caller. -/
structure State.Holds (P : Value → Prop) (u : State) : Prop where
  stack : ∀ v ∈ u.store.stack.values, P v
  heap : u.store.heap.Holds P
  result : ∀ v, u.control = .deliver (.ok v) → P v

def Setting.beside (m : Setting) (P : Value → Prop) : Shadow where
  toComparison := m.itself P
  depth := m.maxDepth
  wider := False

section Beside

variable {P : Value → Prop} {m : Setting} {u u' : State} {s s' : Store}

theorem Setting.Plain.beside (hm : m.Plain) (hP : Value.Closed P) : (m.beside P).Lawful where
  comparison := hm.itself hP
  depth := .inl rfl
  ref := hP.ref

theorem stores_beside (hstack : ∀ v ∈ s.stack.values, P v) (hheap : s.heap.Holds P) :
    (m.beside P).Stores s s :=
  .intro (.inl rfl) hstack hheap

theorem Shadow.Stores.holds {S : Shadow} (h : S.Stores s s') :
    (∀ v ∈ s.stack.values, S.word v) ∧ s.heap.Holds S.word := by
  obtain ⟨-, hw, hh⟩ := h
  exact ⟨hw, hh⟩

theorem Shadow.States.holds {S : Shadow} (h : S.States u u') : u.Holds S.word := by
  obtain ⟨hs, -, hc⟩ := h
  obtain ⟨hstack, hheap⟩ := hs.holds
  refine ⟨hstack, hheap, ?_⟩
  rintro v rfl
  cases hc with
  | deliver hv => exact hv

/-- Every step keeps to the property, and so does a whole run. -/
theorem State.Holds.after (hm : m.Plain) (hP : Value.Closed P) (hstack : ∀ v ∈ s.stack.values, P v)
    (hheap : s.heap.Holds P) {index n : Nat}
    (h : Machine.after m n (Machine.call index s) = some u) : u.Holds P := by
  have hstart : (m.beside P).States (Machine.call index s) (Machine.call index s) :=
    .intro (stores_beside hstack hheap) .nil (.enter trivial)
  have hafter := Shadow.after_shadow (hm.beside hP) hstart (fun hcut => hcut.1) n
  change Option.Rel _ (Machine.after m n _) _ at hafter
  rw [h] at hafter
  generalize Machine.after (m.beside P).setting n (Machine.call index s) = x at hafter
  cases hafter with
  | some hu => exact hu.holds

end Beside

namespace VirtualMachine

variable {vm vm' : VirtualMachine} {l : Loaded} {P : Value → Prop} {target : Target}
  {args : List Value} {m : Setting} {u : State}

theorem holds_pushArguments (vm : VirtualMachine) (m : Setting) (hheap : vm.heap.Holds P)
    (hargs : ∀ v ∈ args, P v) :
    (∀ v ∈ (Program.attempt (pushArguments args) vm.store).2.stack.values, P v) ∧
      (Program.attempt (pushArguments args) vm.store).2.heap.Holds P := by
  have hs : (m.beside P).Stores vm.store vm.store := stores_beside nofun hheap
  have hr := Shadow.pushArguments_alike hargs hs
  unfold Program.attempt
  generalize pushArguments args vm.store = r at hr
  cases hr with
  | ok _ ht => exact ht.holds
  | error ht => exact ht.holds
  | cut hwider => exact hwider.elim

section Runs

variable (hP : Value.Closed P) (hplain : ∀ l, vm.loaded = some l → (vm.setting l).Plain)
  (hheap : vm.heap.Holds P) (hargs : ∀ v ∈ args, P v)
include hP hplain hheap hargs

theorem holds_of_visits (h : vm.Visits target args m u) : u.Holds P := by
  obtain ⟨l, index, f, n, hp, rfl, hstate⟩ := h
  obtain ⟨s, hpush, hafter⟩ := exists_of_callState hstate
  have hs := holds_pushArguments (vm.started f args) (vm.setting l) hheap hargs
  rw [Program.attempt, hpush] at hs
  exact State.Holds.after (hplain l (prepare_of_ok hp).1) hP hs.1 hs.2 hafter

theorem holds_of_run {fuel : Nat} {result : Except VmError Value}
    (h : vm.run fuel target args = some (result, vm')) :
    (∀ v, result = .ok v → P v) ∧ vm'.heap.Holds P := by
  cases hp : vm.prepare target args with
  | error e =>
    rw [VirtualMachine.run, hp] at h
    cases h
    refine ⟨fun v hv => ?_, hheap⟩
    cases hv
  | ok x =>
    obtain ⟨l, index, f⟩ := x
    obtain ⟨outcome, s, hcall, hfinish⟩ := call_of_run hp h
    have hend : (∀ v, outcome = .ok v → P v) ∧ s.heap.Holds P := by
      have hs := holds_pushArguments (vm.started f args) (vm.setting l) hheap hargs
      rcases call_cases hcall with ⟨fault, rfl, hpush⟩ | ⟨n, s₀, depth, hpush, hafter⟩
      · rw [Program.attempt, hpush] at hs
        refine ⟨fun v hv => ?_, hs.2⟩
        cases hv
      · rw [Program.attempt, hpush] at hs
        have hu := State.Holds.after (hplain l (prepare_of_ok hp).1) hP hs.1 hs.2 hafter
        exact ⟨fun v hv => hu.result v (congrArg Control.deliver hv), hu.heap⟩
    have hheap' := finish_heap (vm.started f args) f.name (outcome, s)
    rw [hfinish] at hheap'
    constructor
    · rintro v rfl
      exact hend.1 v (outcome_of_finish hfinish)
    · rw [hheap']
      exact hend.2

end Runs

/-- Integers never leave their 48 bits, be the code verified or not and the limits what they may:
neither on the stack, from the first argument on that is pushed, nor in an object, nor as a result.
The heap that a run leaves is one to start from again, also when the run faults. -/
theorem run_of_fits48 (hl : vm.loaded = some l) (hprimitives : vm.primitives = .standard)
    (hinterpreted : ∀ i : Nat, l.compiled[i]?.join = none) (hheap : vm.heap.Holds Value.Fits48)
    (target : Target) (args : List Value) (hargs : ∀ v ∈ args, v.Fits48) :
    (∀ k, ∀ v ∈ (Program.attempt (pushArguments (args.drop k)) vm.store).2.stack.values,
      v.Fits48) ∧
    (∀ m u, vm.Visits target args m u → (∀ v ∈ u.store.stack.values, v.Fits48) ∧
      u.store.heap.Holds Value.Fits48 ∧ ∀ v, u.control = .deliver (.ok v) → v.Fits48) ∧
    ∀ fuel result vm', vm.run fuel target args = some (result, vm') →
      (∀ v, result = .ok v → v.Fits48) ∧ vm'.heap.Holds Value.Fits48 := by
  have hplain : ∀ l', vm.loaded = some l' → (vm.setting l').Plain := by
    intro l' hl'
    obtain rfl : l = l' := Option.some.inj (hl.symm.trans hl')
    exact ⟨hprimitives, hinterpreted⟩
  refine ⟨fun k => ?_, fun m u hu => ?_, fun fuel result vm' h => ?_⟩
  · have hrest : ∀ v ∈ args.drop k, v.Fits48 := fun v hv => hargs v (List.mem_of_mem_drop hv)
    exact (holds_pushArguments vm (vm.setting l) hheap hrest).1
  · have hu := holds_of_visits Value.closed_fits48 hplain hheap hargs hu
    exact ⟨hu.stack, hu.heap, hu.result⟩
  · exact holds_of_run Value.closed_fits48 hplain hheap hargs h

/-- Puts the successor of the argument into a field, and divides by zero. -/
def storing : Module where
  functions := [.ofBody "f" 1 0 [.make .pushParam 0, .make .pushInt 1, .make (.binary .add) 0,
    .make .newObject 0, .make .popField 7, .make .pushParam 0, .make .pushInt 0,
    .make (.binary .div) 0, .make .functionReturn 0]]

def storingMachine : VirtualMachine := ((VirtualMachine.new {}).loadModule storing).2

/-- The successor of the greatest integer is the least, and a fault leaves it in the heap. -/
theorem run_of_fits48_storing : ∃ vm,
    storingMachine.run 20 (.name "f") [.int 0x7fffffffffff] =
      some (.error (.fault .divisionByZero), vm) ∧
    vm.heap.getField ⟨0, 0⟩ 0 = .ok (.int48 (-0x800000000000)) ∧ vm.heap.Holds Value.Fits48 ∧
    ∀ m u, storingMachine.Visits (.name "f") [.int 0x7fffffffffff] m u →
      ∀ v ∈ u.store.stack.values, v.Fits48 := by
  have hl : storingMachine.loaded = some ⟨storing, .ofModule storing, #[none]⟩ := rfl
  obtain ⟨-, hvisits, hruns⟩ := run_of_fits48 hl rfl (join_getElem?_replicate 1)
    (fun _ => nofun) (.name "f") [.int 0x7fffffffffff]
    (List.forall_mem_singleton.2 (Value.fits48_int _))
  have hrun : (storingMachine.run 20 (.name "f") [.int 0x7fffffffffff]).map
      (fun x => (x.1, x.2.heap.getField ⟨0, 0⟩ 0)) =
        some (.error (.fault .divisionByZero), .ok (.int48 (-0x800000000000))) := by
    decide +kernel
  obtain ⟨⟨result, vm⟩, hrun, hend⟩ := Option.map_eq_some_iff.1 hrun
  obtain ⟨rfl, hfield⟩ := Prod.mk.inj hend
  exact ⟨vm, hrun, hfield, (hruns 20 _ vm hrun).2, fun m u hu => (hvisits m u hu).1⟩

end VirtualMachine

end StackMachine
