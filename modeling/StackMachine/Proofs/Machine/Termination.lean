import StackMachine.Proofs.Code.Names
import StackMachine.Proofs.Image.Views
import StackMachine.Proofs.Machine.Calls
import StackMachine.Proofs.Machine.Interpreted
import StackMachine.Proofs.Machine.Nested
import StackMachine.Proofs.Machine.Safety

/-! Runs of code that only jumps forward come to an end. Within an activation every instruction
leaves fewer instructions to go. A call is a run of its own, one level deeper, and the depth of
calls is limited; so the measure is what is left of the depth, and under it what is left of the
code. -/

namespace StackMachine

/-- If the instruction jumps, it goes on behind itself. -/
def Instruction.Forward (i : Instruction) : Prop := i.opcode?.any Opcode.isJump → 0 ≤ i.signed

instance (i : Instruction) : Decidable i.Forward := inferInstanceAs (Decidable (_ → _))

def Module.Forward (m : Module) : Prop := ∀ f ∈ m.functions, ∀ i ∈ f.code, i.Forward

instance (m : Module) : Decidable m.Forward := inferInstanceAs (Decidable (∀ _ ∈ _, _))

/-- The same for all code that a machine with this image can come to. -/
def Arena.Forward (arena : Arena) : Prop :=
  ∀ (index : Nat) (r : FuncRecord) (ip : Nat) (i : Instruction),
    arena.functionRecord index = .ok r → arena.instruction r ip = .ok i → i.Forward

theorem Arena.Packed.forward {arena : Arena} {m : Module} (h : arena.Packed m)
    (hnames : ∀ f ∈ m.functions, f.name.utf8ByteSize < 0x100000000) (hm : m.Forward) :
    arena.Forward := by
  intro index r ip i hr hi
  rcases Nat.lt_or_ge index m.functions.length with hlt | hge
  · have hf := List.getElem?_eq_getElem hlt
    have hmem := List.getElem_mem hlt
    obtain ⟨r', hr', -, hshows⟩ := h.functionRecord hf (hnames _ hmem)
    obtain rfl : r = r' := Except.ok.inj (hr.symm.trans hr')
    have hip : ip < m.functions[index].code.length := by
      rw [← hshows.codeLength]
      by_contra hip
      rw [Arena.instruction, if_neg hip] at hi
      cases hi
    obtain rfl := Except.ok.inj (hi.symm.trans (hshows.code (List.getElem?_eq_getElem hip)))
    exact hm _ hmem _ (List.getElem_mem hip)
  · cases hr.symm.trans (Arena.functionRecord_of_le h hge)

theorem Activation.fetch_ok {a : Activation} {arena : Arena} {i : Instruction} {op : Opcode}
    {operand : Int} (h : a.fetch arena = .ok (i, op, operand)) :
    a.ip < a.function.codeLength ∧ arena.instruction a.function a.ip.toNat = .ok i ∧
      i.opcode? = some op ∧ operand = if op.hasSignedOperand then i.signed else i.index := by
  unfold fetch at h
  by_cases hip : a.ip < 0 ∨ (a.function.codeLength : Int) ≤ a.ip
  · rw [if_pos hip] at h
    cases h
  rw [if_neg hip] at h
  cases hi : arena.instruction a.function a.ip.toNat with
  | error e =>
    rw [hi] at h
    cases h
  | ok j =>
    simp only [hi, Instruction.decode?] at h
    cases hop : j.opcode? with
    | none =>
      simp only [hop, Option.map_none] at h
      split at h <;> cases h
    | some op' =>
      simp only [hop, Option.map_some] at h
      split at h
      · cases h
      · cases h
        exact ⟨by omega, rfl, hop, rfl⟩

namespace Machine

open StackMachine.Action

theorem nonneg_of_lands {op : Opcode} {operand offset : Int} (hop : op.isJump → 0 ≤ operand)
    (h : op.Lands operand offset) : 0 ≤ offset := by
  cases op with
  | jump => exact h ▸ hop rfl
  | branch relation =>
    rcases h with rfl | rfl
    · exact Int.le_refl 0
    · exact hop rfl
  | callIndirect | endSection | functionReturn => exact h.elim
  | _ => exact Int.le_of_eq (Eq.symm h)

/-- The run from this state comes to an end. -/
def Halts (m : Setting) (u : State) : Prop := ∃ n v, after m n u = some v ∧ step? m v = none

section Halting

variable {m : Setting} {u v : State} {s : Store} {depth index n : Nat} {frames : List Frame}

theorem Halts.of_step (hs : step? m u = some v) (h : Halts m v) : Halts m u := by
  obtain ⟨n, w, hafter, hw⟩ := h
  exact ⟨n + 1, w, (after_of_step hs n).trans hafter, hw⟩

theorem Halts.of_after (hn : after m n u = some v) (h : Halts m v) : Halts m u := by
  obtain ⟨k, w, hafter, hw⟩ := h
  refine ⟨n + k, w, ?_, hw⟩
  rw [after_add, hn]
  exact hafter

theorem halts_deliver (outcome : Except Fault Value) :
    Halts m ⟨s, depth, [], .deliver outcome⟩ := ⟨0, _, rfl, rfl⟩

theorem after_above (frames : List Frame) (h : after m n u = some v) :
    after m n (u.above frames) = some (v.above frames) := by
  induction n generalizing u with
  | zero =>
    cases h
    rfl
  | succ n ih =>
    obtain ⟨w, hstep, hafter⟩ := Option.bind_eq_some_iff.1 h
    exact (after_of_step (step_above frames hstep) n).trans (ih hafter)

/-- If the call ends by itself, it ends as well with others waiting, and they go on. -/
theorem Halts.call (h : Halts m ⟨s, depth, [], .enter index⟩)
    (hrest : ∀ s' outcome, Halts m ⟨s', depth, frames, .deliver outcome⟩) :
    Halts m ⟨s, depth, frames, .enter index⟩ := by
  obtain ⟨n, w, hafter, hw⟩ := h
  obtain ⟨s', depth', outcome, rfl⟩ := exists_end_of_none hw
  obtain ⟨rfl, -, -⟩ := returned_of_inside (Inside.start.of_after rfl hafter) ⟨rfl, rfl⟩
  exact .of_after (after_above frames hafter) (hrest s' outcome)

theorem Halts.exists_run (h : Halts m u) :
    ∃ fuel outcome s', run m fuel u = some (outcome, s') := by
  obtain ⟨n, w, hafter, hw⟩ := h
  obtain ⟨s', depth, outcome, rfl⟩ := exists_end_of_none hw
  exact ⟨n, outcome, s', run_eq_some_iff.2 ⟨n, depth, Nat.le_refl n, hafter⟩⟩

end Halting

section Forward

variable {m : Setting} (hm : m.Plain) (hforward : m.arena.Forward) {depth index : Nat}
include hm hforward

/-- An activation ends if all calls do that it can make. -/
theorem halts_execute (hcalls : ∀ s i, Halts m ⟨s, depth, [], .enter i⟩) {a : Activation}
    (hr : m.arena.functionRecord index = .ok a.function) (s : Store) :
    Halts m ⟨s, depth, [], .execute a⟩ := by
  -- on the instructions from the one at hand to the end of the code
  induction hleft : (a.function.codeLength - a.ip).toNat using Nat.strongRecOn
    generalizing a s with
  | _ left ih =>
    have hadvance : ∀ {i op operand offset}, a.fetch m.arena = .ok (i, op, operand) →
        0 ≤ offset → ∀ s, Halts m ⟨s, depth, [], .execute (a.advance offset)⟩ := by
      intro i op operand offset hfetch hoffset s
      obtain ⟨hip, -⟩ := Activation.fetch_ok hfetch
      refine ih _ ?_ (a := a.advance offset) hr s rfl
      simp only [Activation.advance]
      omega
    have hmoves := moves_execute hm a s depth []
    refine .of_step rfl ?_
    generalize execute m a s depth [] = v at hmoves
    cases hmoves with
    | fails | returns => exact halts_deliver _
    | calls hfetch =>
      refine (hcalls _ _).call fun s' outcome => .of_step rfl ?_
      cases outcome with
      | error f => exact halts_deliver _
      | ok v =>
        simp only [deliver]
        cases liftStack (Stack.push v) s' with
        | ok _ t => exact hadvance hfetch (Int.le_refl 0) t
        | error f t => exact halts_deliver _
    | acts hfetch hop heffect =>
      obtain ⟨-, hi, hopcode, rfl⟩ := Activation.fetch_ok hfetch
      refine hadvance hfetch (nonneg_of_lands (fun hjump => ?_) (lands_of_effect heffect)) _
      split
      · exact hforward index _ _ _ hr hi (by rw [hopcode]; exact hjump)
      · exact Int.natCast_nonneg _

/-- Every call ends, by induction on how much deeper calls can go. -/
theorem halts_enter (left : Nat) (s : Store) (hdepth : m.maxDepth ≤ depth + left) :
    Halts m ⟨s, depth, [], .enter index⟩ := by
  induction left generalizing s depth index with
  | zero =>
    refine .of_step rfl ?_
    rw [Nat.add_zero] at hdepth
    rw [enter, if_pos hdepth]
    exact halts_deliver _
  | succ left ih =>
    have hmoves := moves_enter hm index s depth []
    refine .of_step rfl ?_
    generalize enter m index s depth [] = v at hmoves
    cases hmoves with
    | fails => exact halts_deliver _
    | opens hopen =>
      have hcalls : ∀ s i, Halts m ⟨s, depth + 1, [], .enter i⟩ :=
        fun s i => ih s (by omega)
      exact halts_execute hm hforward hcalls (openFrame_ok hopen).1 _

end Forward

end Machine

/-- No jump of the loaded code goes back: none of the module, if the image is one of this module, or
none that there is in the image. -/
inductive Loaded.Forward (l : Loaded) : Prop
  | module : l.arena.Packed l.module →
      (∀ f ∈ l.module.functions, f.name.utf8ByteSize < 0x100000000) → l.module.Forward → Forward l
  | image : l.arena.Forward → Forward l

theorem Loaded.Forward.arena {l : Loaded} (h : l.Forward) : l.arena.Forward := by
  cases h with
  | module hpacked hnames hm => exact hpacked.forward hnames hm
  | image h => exact h

/-- The function that a run of this target calls: the one with the index, or the last one with the
name. -/
def Target.Refers (target : Target) (m : Module) (f : Func) : Prop :=
  match target with
  | .index i => m.functions[i]? = some f
  | .name s => ∃ i, IsLastNamed m.functions s i ∧ m.functions[i]? = some f

theorem Target.Refers.unique {m : Module} {f g : Func} {target : Target}
    (hf : target.Refers m f) (hg : target.Refers m g) : f = g := by
  cases target with
  | index i => exact Option.some.inj (hf.symm.trans hg)
  | name s =>
    obtain ⟨i, hi, hf⟩ := hf
    obtain ⟨j, hj, hg⟩ := hg
    have hij := (Func.lastNamed?_eq_some_iff.2 hi).symm.trans (Func.lastNamed?_eq_some_iff.2 hj)
    obtain rfl := Option.some.inj hij
    exact Option.some.inj (hf.symm.trans hg)

namespace VirtualMachine

open Machine

/-- What a call comes to is a value or a fault, also when the output cannot be flushed after it. -/
theorem finish_cases (vm : VirtualMachine) (function : String) (x : Except Fault Value × Store) :
    (∃ v, (vm.finish function x).1 = .ok v) ∨
      ∃ f, (vm.finish function x).1 = .error (.fault f) := by
  obtain ⟨outcome, s⟩ := x
  cases outcome with
  | error f => exact .inr ⟨f, rfl⟩
  | ok v =>
    simp only [finish]
    split
    · exact .inr ⟨_, rfl⟩
    · exact .inl ⟨v, rfl⟩

/-- A run that gets as far as its call ends if no jump of the loaded code goes back. -/
theorem exists_run_of_forward {vm : VirtualMachine} {l : Loaded} (hm : (vm.setting l).Plain)
    (hforward : l.Forward) {target : Target} {args : List Value} {index : Nat} {f : Func}
    (hp : vm.prepare target args = .ok (l, index, f)) :
    ∃ fuel result vm', vm.run fuel target args = some (result, vm') ∧
      ((∃ v, result = .ok v) ∨ ∃ fault, result = .error (.fault fault)) := by
  have hcall : ∃ fuel y, (vm.started f args).call fuel l index args = some y := by
    unfold call
    cases pushArguments args (vm.started f args).store with
    | error fault s => exact ⟨0, _, rfl⟩
    | ok _ s =>
      have hhalts : Halts (vm.setting l) (Machine.call index s) :=
        halts_enter hm hforward.arena _ s (Nat.le_add_left _ 0)
      obtain ⟨fuel, outcome, s', hrun⟩ := hhalts.exists_run
      exact ⟨fuel, _, hrun⟩
  obtain ⟨fuel, y, hcall⟩ := hcall
  have hrun : vm.run fuel target args = some ((vm.started f args).finish f.name y) := by
    simp only [VirtualMachine.run, hp, hcall, Option.map_some]
  exact ⟨fuel, _, _, hrun, finish_cases _ f.name y⟩

theorem run_of_prepare_error {vm : VirtualMachine} {target : Target} {args : List Value}
    {e : VmError} (hp : vm.prepare target args = .error e) (fuel : Nat) :
    vm.run fuel target args = some (.error e, vm) := by
  simp only [VirtualMachine.run, hp]

theorem prepare_of_refers {vm : VirtualMachine} {l : Loaded} (hl : vm.loaded = some l)
    {target : Target} {f : Func} (hf : target.Refers l.module f) (args : List Value) :
    ∃ i, vm.prepare target args = if args.length ≠ f.nparams.toNat then
      .error (.badFunctionCall f.name f.nparams.toNat args.length) else .ok (l, i, f) := by
  cases target with
  | index i => exact ⟨i, prepare_index vm hl hf args⟩
  | name s =>
    obtain ⟨i, hi, hf⟩ := hf
    have hresolve : vm.prepare (.name s) args = vm.prepare (.index i) args := by
      obtain ⟨hlt, -⟩ := List.getElem?_eq_some_iff.1 hf
      simp only [prepare, resolve, hl, Module.functionIndex, Func.lastNamed?_eq_some_iff.2 hi,
        Except.mapError, if_pos hlt]
    exact ⟨i, hresolve.trans (prepare_index vm hl hf args)⟩

theorem prepare_of_not_refers {vm : VirtualMachine} {l : Loaded} (hl : vm.loaded = some l)
    {target : Target} (hnone : ∀ f, ¬ target.Refers l.module f) (args : List Value) :
    ∃ s, vm.prepare target args = .error (.functionNotFound s) := by
  cases target with
  | index i =>
    have hi : ¬ i < l.module.functions.length :=
      fun hlt => hnone _ (List.getElem?_eq_getElem hlt)
    exact ⟨s!"#{i}", by simp only [prepare, resolve, hl, if_neg hi]⟩
  | name s =>
    have hs : Func.lastNamed? s l.module.functions = none := by
      refine Option.eq_none_iff_forall_ne_some.2 fun i hi => ?_
      have hlast := Func.lastNamed?_eq_some_iff.1 hi
      obtain ⟨f, hf, -⟩ := hlast.named
      exact hnone f ⟨i, hlast, hf⟩
    exact ⟨s, by simp only [prepare, resolve, hl, Module.functionIndex, hs, Except.mapError]⟩

/-- Recursion alone is no loop. Where only forward jumps are loaded, every call of a function comes
to a value or a fault, from any heap, with any arguments and under any limits. A run that is asked
for no function of the module, or with other arguments than the function takes, ends with an error
that says so, and leaves the machine. -/
theorem run_of_forward {vm : VirtualMachine} {l : Loaded} (hl : vm.loaded = some l)
    (hprimitives : vm.primitives = .standard)
    (hinterpreted : ∀ i : Nat, l.compiled[i]?.join = none) (hforward : l.Forward)
    (target : Target) (args : List Value) :
    ∃ fuel result vm', vm.run fuel target args = some (result, vm') ∧
      (∀ f, target.Refers l.module f → args.length = f.nparams.toNat →
        (∃ v, result = .ok v) ∨ ∃ fault, result = .error (.fault fault)) ∧
      (∀ f, target.Refers l.module f → args.length ≠ f.nparams.toNat →
        result = .error (.badFunctionCall f.name f.nparams.toNat args.length) ∧ vm' = vm) ∧
      ((∀ f, ¬ target.Refers l.module f) →
        (∃ s, result = .error (.functionNotFound s)) ∧ vm' = vm) := by
  by_cases hrefers : ∃ f, target.Refers l.module f
  · obtain ⟨f, hf⟩ := hrefers
    obtain ⟨i, hp⟩ := prepare_of_refers hl hf args
    by_cases hlength : args.length = f.nparams.toNat
    · rw [if_neg (not_not_intro hlength)] at hp
      obtain ⟨fuel, result, vm', hrun, hends⟩ :=
        exists_run_of_forward ⟨hprimitives, hinterpreted⟩ hforward hp
      refine ⟨fuel, result, vm', hrun, fun _ _ _ => hends, fun g hg hne => ?_,
        fun hnone => absurd hf (hnone f)⟩
      rw [hg.unique hf] at hne
      exact absurd hlength hne
    · rw [if_pos hlength] at hp
      refine ⟨0, _, _, run_of_prepare_error hp 0, fun g hg heq => ?_, fun g hg _ => ?_,
        fun hnone => absurd hf (hnone f)⟩
      · rw [hg.unique hf] at heq
        exact absurd heq hlength
      · rw [hg.unique hf]
        exact ⟨rfl, rfl⟩
  · have hnone : ∀ f, ¬ target.Refers l.module f := not_exists.1 hrefers
    obtain ⟨s, hp⟩ := prepare_of_not_refers hl hnone args
    exact ⟨0, _, _, run_of_prepare_error hp 0, fun f hf => absurd hf (hnone f),
      fun f hf => absurd hf (hnone f), fun _ => ⟨⟨s, rfl⟩, rfl⟩⟩

/-- Two functions that call each other, until the number is zero. -/
def parity : Module where
  functions :=
    let body := fun (onZero : Int) (other : Int) =>
      [.make .pushParam 0, .make .pushInt 0, .make (.branch .ne) 2, .make .pushInt onZero,
        .make .functionReturn 0, .make .pushParam 0, .make .pushInt 1, .make (.binary .sub) 0,
        .make .functionCall other, .make .functionReturn 0]
    [.ofBody "even" 1 0 (body 1 1), .ofBody "odd" 1 0 (body 0 0)]

def parityMachine : VirtualMachine := ((VirtualMachine.new {}).loadModule parity).2

/-- The same with room for five calls, one in the other. -/
def crampedMachine : VirtualMachine :=
  ((VirtualMachine.new { limits := ⟨16, 5⟩ }).loadModule parity).2

/-- From four down to zero the calls come to a value, and from below zero to the limit of the
depth. -/
theorem run_of_forward_parity :
    (∃ fuel vm, crampedMachine.run fuel (.name "even") [.int 4] = some (.ok (.int 1), vm)) ∧
    ∃ fuel vm, crampedMachine.run fuel (.name "even") [.int (-1)] =
      some (.error (.fault (.callDepthExceeded 5)), vm) := by
  have hl : crampedMachine.loaded = some ⟨parity, .ofModule parity, #[none, none]⟩ := rfl
  have hforward : Loaded.Forward ⟨parity, .ofModule parity, #[none, none]⟩ :=
    .module (Arena.packed_ofModule parity) (by decide) (by decide)
  have hends := run_of_forward hl rfl (join_getElem?_replicate 2) hforward (.name "even")
  have hvalue : (crampedMachine.run 100 (.name "even") [.int 4]).map Prod.fst =
      some (.ok (.int 1)) := by decide +kernel
  have hfault : (crampedMachine.run 100 (.name "even") [.int (-1)]).map Prod.fst =
      some (.error (.fault (.callDepthExceeded 5))) := by decide +kernel
  -- whatever fuel the theorem finds, the run has this one result
  have hnamed : ∀ args result, (crampedMachine.run 100 (.name "even") args).map Prod.fst =
      some result → ∃ fuel vm, crampedMachine.run fuel (.name "even") args = some (result, vm) := by
    intro args result hresult
    obtain ⟨fuel, result', vm, hrun, -⟩ := hends args
    obtain ⟨x, hx, rfl⟩ := Option.map_eq_some_iff.1 hresult
    obtain rfl := run_unique hx hrun
    exact ⟨fuel, vm, hrun⟩
  exact ⟨hnamed _ _ hvalue, hnamed _ _ hfault⟩

end VirtualMachine

end StackMachine
