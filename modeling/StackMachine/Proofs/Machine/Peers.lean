import StackMachine.Proofs.Machine.Calls

/-! Machines that differ in nothing but their heaps, and in how often they collect. A program
cannot tell them apart: its runs end on both or on neither, with the same fault or with values that
a renaming of handles relates. What the earlier runs left on the heaps is never seen. -/

namespace StackMachine

namespace Output

/-- How much the output can still take, if there is a limit. -/
def room (o : Output) : Option Nat := o.capacity.map (· - o.bytes.size)

def fitting (room : Option Nat) (data : List UInt8) : List UInt8 :=
  match room with
  | none => data
  | some n => data.take n

theorem write_eq (o : Output) (data : List UInt8) :
    o.write data =
      (if (fitting o.room data).length = data.length then .ok () else .error "output full",
        { o with bytes := o.bytes ++ fitting o.room data }) := by
  unfold write room
  cases o.capacity with
  | none => simp only [Option.map_none, fitting, if_true]
  | some capacity => rfl

theorem room_append (o : Output) (data : List UInt8) :
    ({ o with bytes := o.bytes ++ data } : Output).room = o.room.map (· - data.length) := by
  cases hc : o.capacity with
  | none => simp only [room, hc, Option.map_none]
  | some capacity =>
    have hsize : (o.bytes ++ data).size = o.bytes.size + data.length := by
      rw [← Array.length_toList, Array.toList_appendList, List.length_append, Array.length_toList]
    simp only [room, hc, Option.map_some, hsize, Nat.sub_sub]

/-- Outputs that held `o₁` and `o₂`, after the same text was written to both. -/
structure Echo (o₁ o₂ p₁ p₂ : Output) : Prop where
  room : p₁.room = p₂.room
  flush : p₁.flushError = p₂.flushError
  text : ∃ text : List UInt8, p₁.bytes = o₁.bytes ++ text ∧ p₂.bytes = o₂.bytes ++ text

structure Endless (p₁ p₂ : Output) : Prop where
  left : p₁.room = none
  right : p₂.room = none
  flush : p₁.flushError = p₂.flushError

variable {o₁ o₂ p₁ p₂ : Output}

theorem Echo.write (h : Echo o₁ o₂ p₁ p₂) (data : List UInt8) :
    (p₁.write data).1 = (p₂.write data).1 ∧
      Echo o₁ o₂ (p₁.write data).2 (p₂.write data).2 := by
  have happend : ∀ (bytes : Array UInt8) (xs ys : List UInt8),
      bytes ++ xs ++ ys = bytes ++ (xs ++ ys) := fun _ _ _ => Array.ext' (by simp)
  obtain ⟨text, htext₁, htext₂⟩ := h.text
  simp only [write_eq, h.room]
  refine ⟨trivial, ?_, h.flush, text ++ fitting p₂.room data, ?_, ?_⟩
  · rw [room_append, room_append, h.room]
  · rw [htext₁, happend]
  · rw [htext₂, happend]

theorem Endless.write (h : Endless p₁ p₂) (data₁ data₂ : List UInt8) :
    (p₁.write data₁).1 = (p₂.write data₂).1 ∧
      Endless (p₁.write data₁).2 (p₂.write data₂).2 := by
  have hleft := h.left
  have hright := h.right
  simp only [write_eq, hleft, hright, fitting, if_true]
  refine ⟨trivial, ?_, ?_, h.flush⟩
  · rw [room_append, hleft, Option.map_none]
  · rw [room_append, hright, Option.map_none]

end Output

namespace VirtualMachine

open Machine

/-- The machines differ in nothing that the code can see. Their heaps are whatever heap operations
can make of an empty heap, with any threshold. -/
structure Peers (vm₁ vm₂ : VirtualMachine) : Prop where
  loaded : vm₁.loaded = vm₂.loaded
  limits : vm₁.config.limits = vm₂.config.limits
  primitives : vm₁.primitives = .standard ∧ vm₂.primitives = .standard
  interpreted : ∀ l, vm₁.loaded = some l → ∀ i : Nat, l.compiled[i]?.join = none
  room : vm₁.output.room = vm₂.output.room
  flush : vm₁.output.flushError = vm₂.output.flushError
  history : vm₁.heap.Reachable ∧ vm₂.heap.Reachable
  size : vm₁.heap.slots.size < 2 ^ 32 ∧ vm₂.heap.slots.size < 2 ^ 32

def ListsStack (vm : VirtualMachine) (target : Target) (args : List Value) : Prop :=
  ∃ m u, vm.Visits target args m u ∧ u.PrintsStack m

/-- The same answer on both machines, up to a renaming of handles. -/
inductive Answers (written : Output → Output → Prop) :
    Option (Except VmError Value × VirtualMachine) →
    Option (Except VmError Value × VirtualMachine) → Prop
  | running : Answers written none none
  | error {e : VmError} {vm₁ vm₂ : VirtualMachine} : written vm₁.output vm₂.output →
      Answers written (some (.error e, vm₁)) (some (.error e, vm₂))
  | value {pairs : ObjectRef → ObjectRef → Prop} {v₁ v₂ : Value} {vm₁ vm₂ : VirtualMachine} :
      Heap.Renaming (fun _ => True) pairs vm₁.heap vm₂.heap →
      Value.Renamed (fun _ => True) pairs v₁ v₂ → written vm₁.output vm₂.output →
      Answers written (some (.ok v₁, vm₁)) (some (.ok v₂, vm₂))

theorem Answers.mono {written written' : Output → Output → Prop}
    {x₁ x₂ : Option (Except VmError Value × VirtualMachine)} (h : Answers written x₁ x₂)
    (hw : ∀ o₁ o₂, written o₁ o₂ → written' o₁ o₂) : Answers written' x₁ x₂ := by
  cases h with
  | running => exact .running
  | error ho => exact .error (hw _ _ ho)
  | value hr hv ho => exact .value hr hv (hw _ _ ho)

variable {vm₁ vm₂ : VirtualMachine} {target : Target} {args : List Value}

theorem Peers.after_run (h : Peers vm₁ vm₂) {fuel : Nat} {result : Except VmError Value}
    {vm : VirtualMachine} (hrun : vm₂.run fuel target args = some (result, vm))
    (hroom : vm₁.output.room = vm.output.room)
    (hflush : vm₁.output.flushError = vm.output.flushError)
    (hsize : vm.heap.slots.size < 2 ^ 32) : Peers vm₁ vm := by
  have hkeeps := run_keeps hrun
  have hhistory := h.history.2.evolves (evolves_run hrun)
  rw [hkeeps] at hroom hflush hsize hhistory ⊢
  exact ⟨h.loaded, h.limits, h.primitives, h.interpreted, hroom, hflush, ⟨h.history.1, hhistory⟩,
    h.size.1, hsize⟩

/-- The same answer within the fuel, and related outputs at every step on the way. -/
structure Matches (vm₁ vm₂ : VirtualMachine) (target : Target) (args : List Value)
    (written : Output → Output → Prop) (fuel : Nat) : Prop where
  answers : Answers written (vm₁.run fuel target args) (vm₂.run fuel target args)
  states : ∀ n, Option.Rel (fun u₁ u₂ => written u₁.store.output u₂.store.output)
    (vm₁.runState target args n) (vm₂.runState target args n)

/-- The same text was written since the start, if the stack is never listed. -/
def SameText (vm₁ vm₂ : VirtualMachine) (target : Target) (args : List Value) (o₁ o₂ : Output) :
    Prop :=
  ¬ vm₁.ListsStack target args → Output.Echo vm₁.output vm₂.output o₁ o₂

/-- The heaps may differ, and so may the outputs as far as `outputs` allows it. -/
def sides (vm₁ vm₂ : VirtualMachine) (l : Loaded) (outputs : Output → Output → Prop) :
    Comparison where
  left := vm₁.setting l
  right := vm₂.setting l
  word _ := True
  code := Eq
  entry _ := True
  allowed _ := True
  outputs := outputs
  rigid := False

theorem sides_lawful (h : Peers vm₁ vm₂) {l : Loaded} (hl : vm₁.loaded = some l)
    {outputs : Output → Output → Prop}
    (hwrite : ∀ o₁ o₂, outputs o₁ o₂ → ∀ bytes, (o₁.write bytes).1 = (o₂.write bytes).1 ∧
      outputs (o₁.write bytes).2 (o₂.write bytes).2) :
    (sides vm₁ vm₂ l outputs).Lawful where
  ordinary _ := trivial
  int _ := trivial
  text _ := Agree.self (fun _ _ => rfl) fun _ _ => trivial
  fetch {a₁ a₂} ha := by
    obtain rfl : a₁ = a₂ := ha
    have hoperand := Comparison.operand_self (K := sides vm₁ vm₂ l outputs) (fun _ => trivial)
      (fun _ => trivial) (fun _ => trivial) a₁
    exact Agree.self (fun x _ => ⟨rfl, rfl, hoperand _ _, fun _ _ => rfl⟩) fun _ _ => trivial
  entry _ := Agree.self (fun _ _ => ⟨rfl, rfl, fun _ => rfl⟩) fun _ _ => trivial
  write ho bytes := hwrite _ _ ho bytes
  depth := by
    simp only [sides, setting, h.limits]
  primitives := h.primitives
  interpreted i := ⟨h.interpreted l hl i, h.interpreted l hl i⟩

/-- The stores that a run starts from agree, since the stacks are empty. -/
theorem stores_of_peers (h : Peers vm₁ vm₂) {outputs : Output → Output → Prop}
    (hstart : outputs vm₁.output vm₂.output) (l : Loaded) (f : Func) (args : List Value) :
    (sides vm₁ vm₂ l outputs).Stores (fun _ _ => False) (fun _ => True)
      (vm₁.started f args).store (vm₂.started f args).store where
  stack := ⟨congrArg (fun limits => limits.maxStackSize.toNat) h.limits, .nil⟩
  heap := ⟨h.history.1.sound (Nat.le_of_lt h.size.1),
    h.history.2.sound (Nat.le_of_lt h.size.2), Heap.renaming_empty _ _, False.elim⟩
  fact := trivial
  output := hstart

section Outputs

variable {outputs : Output → Output → Prop}
  (hflush : ∀ {o₁ o₂}, outputs o₁ o₂ → o₁.flushError = o₂.flushError)
include hflush

theorem answers_finish {l : Loaded} {x₁ x₂ : Option (Except Fault Value × Store)}
    (h : (sides vm₁ vm₂ l outputs).Outcomes x₁ x₂) (vm₁' vm₂' : VirtualMachine)
    (function : String) :
    Answers outputs (x₁.map (vm₁'.finish function)) (x₂.map (vm₂'.finish function)) := by
  cases h with
  | running => exact .running
  | fault _ hk =>
    obtain ⟨pairs, -, ho⟩ := hk
    exact .error ho
  | @value pairs v₁ v₂ s₁ s₂ hv hs =>
    have hflushed : s₁.output.flush = s₂.output.flush := by
      unfold Output.flush
      rw [hflush hs.output]
    simp only [Option.map_some, finish, hflushed]
    cases s₂.output.flush with
    | error reason => exact .error hs.output
    | ok _ => exact .value hs.heap.renamed hv hs.output

theorem matches_of_peers (h : Peers vm₁ vm₂) (hargs : ∀ v ∈ args, v.asRef? = none)
    (hroom₁ : ∀ m u, vm₁.Visits target args m u → u.Roomy)
    (hroom₂ : ∀ m u, vm₂.Visits target args m u → u.Roomy)
    (hstart : outputs vm₁.output vm₂.output)
    (hwrite : ∀ o₁ o₂, outputs o₁ o₂ → ∀ bytes, (o₁.write bytes).1 = (o₂.write bytes).1 ∧
      outputs (o₁.write bytes).2 (o₂.write bytes).2)
    (hlists : (∀ o₁ o₂, outputs o₁ o₂ → ∀ bytes₁ bytes₂,
        (o₁.write bytes₁).1 = (o₂.write bytes₂).1 ∧
          outputs (o₁.write bytes₁).2 (o₂.write bytes₂).2) ∨
      ¬ vm₁.ListsStack target args) (fuel : Nat) :
    Matches vm₁ vm₂ target args outputs fuel := by
  have hp₂ := prepare_congr h.loaded target args
  cases hp : vm₁.prepare target args with
  | error e =>
    constructor
    · rw [VirtualMachine.run, VirtualMachine.run, ← hp₂, hp]
      exact .error hstart
    · intro n
      unfold runState
      rw [← hp₂, hp]
      exact .none
  | ok x =>
    obtain ⟨l, index, f⟩ := x
    rw [hp] at hp₂
    have hl := (prepare_of_ok hp).1
    have hK := sides_lawful h hl hwrite
    have hleft : (sides vm₁ vm₂ l outputs).left = (vm₁.started f args).setting l := rfl
    have hright : (sides vm₁ vm₂ l outputs).right = (vm₂.started f args).setting l := rfl
    have hcalls := Comparison.call_alike hK (fun v hv => ⟨hargs v hv, trivial⟩)
      hleft hright trivial (stores_of_peers h hstart l f args)
      (fun n u hu => hroom₁ _ u ⟨l, index, f, n, hp, rfl, hu⟩)
      (fun n u hu => hroom₂ _ u ⟨l, index, f, n, hp₂.symm, rfl, hu⟩)
      (.inr (hlists.imp (fun ht {_ _} => ht _ _) fun hlists n u hu hprints =>
        hlists ⟨_, u, ⟨l, index, f, n, hp, rfl, hu⟩, hprints⟩))
    constructor
    · rw [VirtualMachine.run, VirtualMachine.run, ← hp₂, hp]
      exact answers_finish hflush (hcalls.1 fuel) _ _ _
    · intro n
      rw [runState_of_prepare hp, runState_of_prepare hp₂.symm]
      exact option_rel_imp (hcalls.2 n) fun _ _ hu => hu.output

end Outputs

theorem Matches.mono {outputs outputs' : Output → Output → Prop} {fuel : Nat}
    (h : Matches vm₁ vm₂ target args outputs fuel)
    (hw : ∀ o₁ o₂, outputs o₁ o₂ → outputs' o₁ o₂) :
    Matches vm₁ vm₂ target args outputs' fuel where
  answers := h.answers.mono hw
  states n := option_rel_imp (h.states n) fun _ _ ho => hw _ _ ho

/-- What the heaps hold cannot be seen, nor when they are collected. The outputs get the same text
unless the stack is listed, handles and all. -/
theorem run_of_peers (h : Peers vm₁ vm₂) (hargs : ∀ v ∈ args, v.asRef? = none)
    (hroom₁ : ∀ m u, vm₁.Visits target args m u → u.store.heap.slots.size < 2 ^ 32)
    (hroom₂ : ∀ m u, vm₂.Visits target args m u → u.store.heap.slots.size < 2 ^ 32)
    (hlists : vm₁.output.capacity = none ∨ ¬ vm₁.ListsStack target args) (fuel : Nat) :
    Matches vm₁ vm₂ target args (SameText vm₁ vm₂ target args) fuel := by
  have hroomy₁ : ∀ m u, vm₁.Visits target args m u → u.Roomy :=
    fun m u hu => Nat.le_of_lt (hroom₁ m u hu)
  have hroomy₂ : ∀ m u, vm₂.Visits target args m u → u.Roomy :=
    fun m u hu => Nat.le_of_lt (hroom₂ m u hu)
  -- listings may differ in length, so outputs without a limit are related by that alone
  by_cases hp : vm₁.ListsStack target args
  · have hroom : vm₁.output.room = none := by
      rw [Output.room, hlists.resolve_right (not_not_intro hp), Option.map_none]
    refine (matches_of_peers Output.Endless.flush h hargs hroomy₁ hroomy₂
      ⟨hroom, h.room ▸ hroom, h.flush⟩ (fun _ _ ho bytes => ho.write bytes bytes)
      (.inl fun _ _ => Output.Endless.write) fuel).mono fun _ _ _ hn => absurd hp hn
  · refine (matches_of_peers Output.Echo.flush h hargs hroomy₁ hroomy₂
      ⟨h.room, h.flush, [], Array.appendList_nil.symm, Array.appendList_nil.symm⟩
      (fun _ _ => Output.Echo.write) (.inr hp) fuel).mono fun _ _ ho _ => ho

/-- Two functions. One makes ten objects and drops them, the other lists a new object. -/
def maker (capacity : Option Nat) : VirtualMachine :=
  let make := [Instruction.make .newObject 0, .make .drop 0]
  let module : Module := {
    functions := [
      Func.ofBody "make" 0 0
        ((List.replicate 10 make).flatten ++ [.make .pushInt 0, .make .functionReturn 0]),
      Func.ofBody "list" 0 0
        [.make .newObject 0, .make .primitiveCall 2, .make .functionReturn 0]] }
  { ((VirtualMachine.new {}).loadModule module).2 with output := { capacity } }

theorem peers_maker (capacity : Option Nat) : Peers (maker capacity) (maker capacity) where
  loaded := rfl
  limits := rfl
  primitives := ⟨rfl, rfl⟩
  interpreted := by
    rintro l ⟨⟩ i
    match i with
    | 0 => rfl
    | 1 => rfl
    | i + 2 => rfl
  room := rfl
  flush := rfl
  history := ⟨⟨_, [], rfl⟩, ⟨_, [], rfl⟩⟩
  size := ⟨Nat.two_pow_pos 32, Nat.two_pow_pos 32⟩

theorem exists_used (capacity : Option Nat) (answer : Except VmError Value)
    (h : (((maker capacity).run 30 (.index 0) []).bind fun x =>
        (x.2.run 10 (.index 1) []).map fun y =>
          (x.1, x.2.output, x.2.heap.slots.size, y.1, y.2.heap.slots.size)) =
      some (.ok .zero, { capacity }, 10, answer, 11)) :
    ∃ vm vm', (maker capacity).run 30 (.index 0) [] = some (.ok .zero, vm) ∧
      Peers (maker capacity) vm ∧ vm.run 10 (.index 1) [] = some (answer, vm') ∧
      vm'.heap.slots.size = 11 := by
  obtain ⟨⟨result, vm⟩, hmake, h⟩ := Option.bind_eq_some_iff.1 h
  obtain ⟨⟨answer', vm'⟩, hlist, h⟩ := Option.map_eq_some_iff.1 h
  simp only [Prod.mk.injEq] at h
  obtain ⟨rfl, houtput, hsize, rfl, hsize'⟩ := h
  refine ⟨vm, vm', hmake, (peers_maker capacity).after_run hmake ?_ ?_ ?_, hlist, hsize'⟩
  · rw [houtput]
    rfl
  · rw [houtput]
    rfl
  · rw [hsize]
    decide

theorem run_of_peers_maker :
    ∃ vm, (maker none).run 30 (.index 0) [] = some (.ok .zero, vm) ∧ Peers (maker none) vm ∧
      Matches (maker none) vm (.index 1) [] (SameText (maker none) vm (.index 1) []) 10 := by
  have hnew : ((maker none).run 10 (.index 1) []).map (fun x => x.2.heap.slots.size) =
      some 1 := by decide +kernel
  obtain ⟨⟨answer, new⟩, hrun, hsize⟩ := Option.map_eq_some_iff.1 hnew
  obtain ⟨vm, used, hmake, hpeers, hlist, hsize'⟩ := exists_used none (.ok .zero)
    (by decide +kernel)
  refine ⟨vm, hmake, hpeers, run_of_peers hpeers (by decide) ?_ ?_ (.inl rfl) 10⟩
  · exact fun m u hu => (hu.size_le hpeers.history.1 hrun).trans_lt (by rw [hsize]; decide)
  · exact fun m u hu => (hu.size_le hpeers.history.2 hlist).trans_lt (by rw [hsize']; decide)

/-- Where the output is limited, a listing may fit on one machine and not on the other. -/
theorem not_matches_of_peers :
    ¬ ∀ (vm₁ vm₂ : VirtualMachine) (target : Target) (args : List Value), Peers vm₁ vm₂ →
      (∀ v ∈ args, v.asRef? = none) →
      (∀ m u, vm₁.Visits target args m u → u.store.heap.slots.size < 2 ^ 32) →
      (∀ m u, vm₂.Visits target args m u → u.store.heap.slots.size < 2 ^ 32) → ∀ fuel,
      Matches vm₁ vm₂ target args (SameText vm₁ vm₂ target args) fuel := by
  intro h
  have hnew : ((maker (some 16)).run 10 (.index 1) []).map
      (fun x => (x.1, x.2.heap.slots.size)) = some (.ok .zero, 1) := by decide +kernel
  obtain ⟨⟨answer, new⟩, hrun, heq⟩ := Option.map_eq_some_iff.1 hnew
  obtain ⟨rfl, hsize⟩ := Prod.mk.inj heq
  obtain ⟨vm, used, -, hpeers, hlist, hsize'⟩ :=
    exists_used (some 16) (.error (.fault (.output "output full"))) (by decide +kernel)
  have hmatches := h _ vm (.index 1) [] hpeers (by decide)
    (fun m u hu => (hu.size_le hpeers.history.1 hrun).trans_lt (by rw [hsize]; decide))
    (fun m u hu => (hu.size_le hpeers.history.2 hlist).trans_lt (by rw [hsize']; decide)) 10
  have hanswers := hmatches.answers
  rw [hrun, hlist] at hanswers
  cases hanswers

end VirtualMachine

end StackMachine
