import StackMachine.Proofs.Machine.Safety

/-! Sessions: one module is loaded into a new machine and its functions are run, one run after the
other, whatever becomes of each. If the module passes verification, no run ends in a fault that
only broken code or a broken heap can cause. -/

namespace StackMachine

namespace VirtualMachine

open Machine

/-- A machine as it is made, with the standard primitives and any configuration. -/
structure Fresh (vm : VirtualMachine) : Prop where
  primitives : vm.primitives = .standard
  heap : ∃ threshold, vm.heap = .new threshold

/-- Machines that have the module loaded and have run some of its functions on integers. -/
inductive Session (m : Module) : VirtualMachine → Prop
  | loadModule {vm vm' : VirtualMachine} :
      Fresh vm → vm.loadModule m = (.ok (), vm') → Session m vm'
  | loadBytes {vm vm' : VirtualMachine} {bytes : List UInt8} {arena : Arena} :
      Fresh vm → Image.decode bytes = .ok (m, arena) → vm.loadBytes bytes = (.ok (), vm') →
      Session m vm'
  | run {vm vm' : VirtualMachine} {fuel : Nat} {target : Target} {args : List Value}
      {result : Except VmError Value} :
      Session m vm → (∀ v ∈ args, v.kind = .int48) →
      vm.run fuel target args = some (result, vm') → Session m vm'

structure Ready (m : Module) (vm : VirtualMachine) : Prop where
  primitives : vm.primitives = .standard
  heap : vm.heap.Reachable
  loaded : ∃ l, vm.loaded = some l ∧ l.module = m ∧ l.arena.Packed m ∧
    ∀ i : Nat, l.compiled[i]?.join = none

variable {m : Module} {vm vm' : VirtualMachine} {fuel : Nat} {target : Target}
  {args : List Value} {result : Except VmError Value}

theorem forM_checkEnd_iff {fs : List Func} :
    fs.forM Func.checkEnd = .ok () ↔ ∀ f ∈ fs, f.checkEnd = .ok () := by
  induction fs with
  | nil => exact iff_of_true rfl nofun
  | cons f fs ih =>
    rw [List.forall_mem_cons, ← ih]
    change (f.checkEnd >>= fun _ => fs.forM Func.checkEnd) = .ok () ↔ _
    cases f.checkEnd with
    | error e => exact ⟨nofun, fun h => h.1⟩
    | ok _ => exact (and_iff_right rfl).symm

/-- A load that fails leaves the machine; one that succeeds replaces all that was loaded, by
functions that all end as they should. -/
theorem load_cases {arena : Arena} {answer : Except VmError Unit}
    (h : vm.load m arena = (answer, vm')) :
    (∃ e, answer = .error e ∧ vm' = vm) ∨
      answer = .ok () ∧ arena.functions.size = m.functions.length ∧
        (∀ f ∈ m.functions, f.checkEnd = .ok ()) ∧
        ∃ log, vm' = { vm with
          loaded := some ⟨m, arena, Array.replicate m.functions.length none⟩
          log := log } := by
  unfold load at h
  split at h
  · cases h
    exact .inl ⟨_, rfl, rfl⟩
  next hsize =>
  split at h
  · cases h
    exact .inl ⟨_, rfl, rfl⟩
  next hends =>
  have hends := forM_checkEnd_iff.1 hends
  have hsize := (not_not.1 hsize).symm
  dsimp only at h
  split at h
  · split at h
    · cases h
      exact .inl ⟨_, rfl, rfl⟩
    · cases h
      exact .inr ⟨rfl, hsize, hends, _, rfl⟩
  · cases h
    exact .inr ⟨rfl, hsize, hends, _, rfl⟩

theorem exists_of_load {arena : Arena} (h : vm.load m arena = (.ok (), vm')) :
    ∃ log, vm' = { vm with
      loaded := some ⟨m, arena, Array.replicate m.functions.length none⟩
      log := log } := by
  rcases load_cases h with ⟨e, he, -⟩ | ⟨-, -, -, hloaded⟩
  · cases he
  · exact hloaded

/-- A verified module loads, with or without verification on the way. -/
theorem loadModule_of_verify (h : verify m vm.primitives.length = .ok ()) :
    (vm.loadModule m).1 = .ok () := by
  have hends : m.functions.forM Func.checkEnd = .ok () :=
    forM_checkEnd_iff.2 fun f hf => (verified_of_verify h f hf).checkEnd
  have hlength : m.functions.length = (Arena.ofModule m).functions.size := by
    rw [← Array.length_toList]
    exact (Arena.packed_ofModule m).functions.length_eq.symm
  unfold loadModule load
  rw [if_neg (not_not_intro hlength), hends]
  dsimp only
  split
  · rw [h]
  · rfl

theorem ready_of_load {arena : Arena} (hfresh : Fresh vm) (hpacked : arena.Packed m)
    (h : vm.load m arena = (.ok (), vm')) : Ready m vm' := by
  obtain ⟨log, rfl⟩ := exists_of_load h
  obtain ⟨threshold, hheap⟩ := hfresh.heap
  exact ⟨hfresh.primitives, ⟨threshold, [], hheap⟩, _, rfl, rfl, hpacked,
    join_getElem?_replicate _⟩

theorem Session.ready (h : Session m vm) : Ready m vm := by
  induction h with
  | loadModule hfresh hload => exact ready_of_load hfresh (Arena.packed_ofModule m) hload
  | @loadBytes vm vm' bytes arena hfresh hdecode hload =>
    unfold VirtualMachine.loadBytes at hload
    have hresult : (Image.decodeWithEvents bytes).result = .ok (m, arena) := hdecode
    simp only [hresult] at hload
    have hrecorded : Fresh (vm.record (Image.decodeWithEvents bytes).events) :=
      ⟨hfresh.primitives, hfresh.heap⟩
    exact ready_of_load hrecorded (Arena.packed_of_decode hdecode) hload
  | run _ _ hrun ih =>
    have hheap := ih.heap.evolves (evolves_run hrun)
    rw [run_keeps hrun] at hheap ⊢
    exact ⟨ih.primitives, hheap, ih.loaded⟩

theorem tolerates_of_finish {setting : Setting} {outcome : Except Fault Value} {s : Store}
    {x : Option (Except Fault Value × Store)} {function : String} {fault : Fault}
    (h : (guarded m setting).Outcomes (some (outcome, s)) x)
    (hfinish : vm.finish function (outcome, s) = (.error (.fault fault), vm')) :
    m.Tolerates fault := by
  cases h with
  | fault hallowed _ =>
    cases hfinish
    exact hallowed
  | value _ _ =>
    simp only [finish] at hfinish
    split at hfinish
    · cases hfinish
      exact m.tolerates_of_isOrdinary rfl
    · cases hfinish

section Runs

variable (hverify : verify m 3 = .ok ()) (hshort : m.Short) (hready : Ready m vm)
  (hargs : ∀ v ∈ args, v.kind = .int48) (hrun : vm.run fuel target args = some (result, vm'))
  (hsize : vm'.heap.slots.size < 2 ^ 32)
include hverify hshort hready hargs hrun hsize

theorem call_guarded {l : Loaded} {index : Nat} {f : Func}
    (hp : vm.prepare target args = .ok (l, index, f)) :
    (∀ fuel, (guarded m (vm.setting l)).Outcomes ((vm.started f args).call fuel l index args)
      ((vm.started f args).call fuel l index args)) ∧
    ∀ n, Option.Rel (guarded m (vm.setting l)).States
      ((vm.started f args).callState l index args n)
      ((vm.started f args).callState l index args n) := by
  obtain ⟨l', hl', rfl, hpacked, hinterpreted⟩ := hready.loaded
  obtain ⟨hl, hf⟩ := prepare_of_ok hp
  obtain rfl : l' = l := Option.some.inj (hl'.symm.trans hl)
  have hK : (guarded l'.module (vm.setting l')).Lawful :=
    guarded_lawful (verified_of_verify hverify) hshort hpacked hready.primitives hinterpreted
  have hheap : vm.heap.slots.size < 2 ^ 32 :=
    ((evolves_run hrun).size_le hready.heap.regular).trans_lt hsize
  have hstores : (guarded l'.module (vm.setting l')).Stores (fun _ _ => False) (fun _ => True)
      (vm.started f args).store (vm.started f args).store := {
    stack := ⟨rfl, .nil⟩
    heap := ⟨hready.heap.sound hheap.le, hready.heap.sound hheap.le, Heap.renaming_empty _ _,
      fun _ => ⟨rfl, fun _ _ h => h.elim⟩⟩
    fact := trivial
    output := rfl }
  have hwords : ∀ v ∈ args, v.asRef? = none ∧ l'.module.HasWord v := by
    intro v hv
    cases v with
    | int48 n => exact ⟨rfl, nofun⟩
    | _ => cases hargs _ hv
  have hindex : index < l'.module.functions.length := (List.getElem?_eq_some_iff.1 hf).1
  have hroom : ∀ n u, (vm.started f args).callState l' index args n = some u → u.Roomy := by
    intro n u hu
    have hvisits : vm.Visits target args (vm.setting l') u := ⟨l', index, f, n, hp, rfl, hu⟩
    exact (hvisits.size_le hready.heap hrun).trans hsize.le
  exact Comparison.call_alike hK hwords rfl rfl hindex hstores hroom hroom (.inl trivial)

theorem tolerates_of_ready {fault : Fault} (hfault : result = .error (.fault fault)) :
    m.Tolerates fault := by
  cases hp : vm.prepare target args with
  | error e =>
    rw [VirtualMachine.run, hp] at hrun
    cases hrun
    cases hfault
    exact absurd hp (prepare_ne_fault fault)
  | ok x =>
    obtain ⟨l, index, f⟩ := x
    obtain ⟨outcome, s, hcall, hfinish⟩ := call_of_run hp hrun
    have houtcomes := (call_guarded hverify hshort hready hargs hrun hsize hp).1 fuel
    rw [hcall] at houtcomes
    rw [hfault] at hfinish
    exact tolerates_of_finish houtcomes hfinish

theorem fallsThrough_of_visits {setting : Setting} {u : State} {a : Activation} {name : String}
    (hu : vm.Visits target args setting u) (hcontrol : u.control = .execute a)
    (hfetch : a.fetch setting.arena = .error (.fellOffEnd name)) :
    ∃ f, m.functions[a.function.index]? = some f ∧ f.name = name ∧ f.FallsThrough := by
  obtain ⟨l, index, f, n, hp, rfl, hstate⟩ := hu
  have hstates := (call_guarded hverify hshort hready hargs hrun hsize hp).2 n
  rw [hstate] at hstates
  cases hstates with
  | some hstates =>
    obtain ⟨g, hg⟩ := stands_of_states hstates hcontrol
    have hverified := verified_of_verify hverify g (List.mem_of_getElem? hg.function)
    rcases hg.fetch_cases hverified with ⟨_, _, _, -, -, -, -, -, -, hok⟩ | ⟨hfalls, herror⟩
    · cases hok.symm.trans hfetch
    · cases herror.symm.trans hfetch
      exact ⟨g, hg.function, rfl, hfalls⟩

end Runs

/-- Verification is sound. However many runs came before, no run of a verified module on integers
ends in a fault that only broken code or a broken heap can cause, or falls off the end of a
function that ends with a return or a jump. -/
theorem run_of_verified (hverify : verify m 3 = .ok ()) (hshort : m.Short) (hs : Session m vm)
    (hargs : ∀ v ∈ args, v.kind = .int48) (hrun : vm.run fuel target args = some (result, vm'))
    (hsize : vm'.heap.slots.size < 2 ^ 32) :
    (∀ fault, result = .error (.fault fault) → ¬ fault.isStructural ∧
      ∀ name, fault = .fellOffEnd name → ∃ f ∈ m.functions, f.name = name ∧ f.FallsThrough) ∧
    ∀ setting u a name, vm.Visits target args setting u → u.control = .execute a →
      a.fetch setting.arena = .error (.fellOffEnd name) →
      ∃ f, m.functions[a.function.index]? = some f ∧ f.name = name ∧ f.FallsThrough :=
  ⟨fun _ hfault => tolerates_of_ready hverify hshort hs.ready hargs hrun hsize hfault,
    fun _ _ _ _ hu hcontrol hfetch =>
      fallsThrough_of_visits hverify hshort hs.ready hargs hrun hsize hu hcontrol hfetch⟩

def openEnded : Module :=
  { functions := [Func.ofBody "open" 1 0 [.make .newObject 0, .make .pushParam 0]] }

def openEndedMachine : VirtualMachine := ((VirtualMachine.new {}).loadModule openEnded).2

/-- The second of two runs ends as the first did, and the function is one that falls through. -/
theorem run_of_verified_openEnded :
    ∃ vm vm' f, Session openEnded vm ∧ vm.heap.slots.size = 1 ∧
      vm.run 5 (.name "open") [.int 2] = some (.error (.fault (.fellOffEnd "open")), vm') ∧
      f ∈ openEnded.functions ∧ f.name = "open" ∧ f.FallsThrough := by
  have hverify : verify openEnded 3 = .ok () := by decide +kernel
  have hload : (VirtualMachine.new {}).loadModule openEnded = (.ok (), openEndedMachine) :=
    Prod.ext (loadModule_of_verify hverify) rfl
  have hruns : ((openEndedMachine.run 5 (.name "open") [.int 1]).bind fun x =>
      (x.2.run 5 (.name "open") [.int 2]).map fun y =>
        (x.2.heap.slots.size, y.1, y.2.heap.slots.size)) =
      some (1, .error (.fault (.fellOffEnd "open")), 2) := by
    decide +kernel
  obtain ⟨⟨answer, vm⟩, hfirst, hsecond⟩ := Option.bind_eq_some_iff.1 hruns
  obtain ⟨⟨result, vm'⟩, hsecond, hsizes⟩ := Option.map_eq_some_iff.1 hsecond
  simp only [Prod.mk.injEq] at hsizes
  obtain ⟨hsize, rfl, hsize'⟩ := hsizes
  have hs : Session openEnded vm :=
    .run (.loadModule ⟨rfl, _, rfl⟩ hload) (by decide) hfirst
  have hanswer := run_of_verified hverify ⟨by decide, by decide⟩ hs (by decide) hsecond
    (by rw [hsize']; decide)
  obtain ⟨f, hf, hname, hfalls⟩ := (hanswer.1 _ rfl).2 _ rfl
  exact ⟨vm, vm', f, hs, hsize, hsecond, hf, hname, hfalls⟩

end VirtualMachine

end StackMachine
