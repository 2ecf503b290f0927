import StackMachine.Proofs.Machine.Interchange
import StackMachine.Proofs.Machine.Interpreted
import StackMachine.Proofs.Machine.Invariants
import StackMachine.Proofs.Machine.Nested

/-! Compiled functions in the place of interpreted ones. A function may be compiled if its
interpretation computes something from the arguments alone. Two runs, one of them with compiled
functions, go step by step alike; where one of them makes a compiled call, the other interprets the
function to the end of that call, and then both have the same store again, or the same fault. -/

namespace StackMachine

namespace Fault

/-- A limit was in the way, of the stack or of the depth of calls. -/
def isLimit : Fault → Bool
  | .stackOverflow _ | .callDepthExceeded _ => true
  | _ => false

end Fault

/-- A store with a stack within the limit, and a heap that has come from this one. -/
structure Store.Legal (limit : Nat) (heap : Heap) (s : Store) : Prop where
  stack : s.stack.Within limit
  heap : heap.Evolves s.heap

namespace Machine

open StackMachine.Action

/-- Interpreted from a legal store, whatever there is on the stack below its arguments, the function
ends as `g` says, if no limit is in the way. It leaves heap and output alone, and a call with a
result takes the arguments off the stack and nothing else. -/
def Computes (m : Setting) (limit : Nat) (heap : Heap) (index : Nat)
    (g : Array Value → Except Fault Value) : Prop :=
  ∀ (s s' : Store) (r : FuncRecord) (below params : Array Value) (depth fuel : Nat)
    (outcome : Except Fault Value), s.Legal limit heap → m.arena.functionRecord index = .ok r →
    params.size = r.nparams.toNat → s.stack.values = below ++ params →
    run m fuel ⟨s, depth, [], .enter index⟩ = some (outcome, s') →
    (∀ f, outcome = .error f → f.isLimit = false) →
      outcome = g params ∧ s'.heap = s.heap ∧ s'.output = s.output ∧
        ∀ v, outcome = .ok v → s'.stack.values = below

/-- Each compiled function gives what the interpretation of the function computes. -/
def Faithful (m : Setting) (limit : Nat) (heap : Heap)
    (compiled : Array (Option CompiledFunction)) : Prop :=
  ∀ (index : Nat) (function : CompiledFunction), compiled[index]?.join = some function →
    ∃ g, (∀ params, function params = .done (g params)) ∧ Computes m limit heap index g

/-- The run ends with this outcome, and with this heap and output. -/
def Ends (m : Setting) (u : State) (outcome : Except Fault Value) (heap : Heap)
    (output : Output) : Prop :=
  ∃ n s depth, after m n u = some ⟨s, depth, [], .deliver outcome⟩ ∧ s.heap = heap ∧
    s.output = output

section Ends

variable {m : Setting} {u v : State} {outcome : Except Fault Value} {heap : Heap} {output : Output}

theorem Ends.of_step (hs : step? m u = some v) (h : Ends m v outcome heap output) :
    Ends m u outcome heap output := by
  obtain ⟨n, s, depth, hafter, hsame⟩ := h
  exact ⟨n + 1, s, depth, (after_of_step hs n).trans hafter, hsame⟩

theorem ends_of_fault {f : Fault} {s : Store} {depth : Nat} {frames : List Frame}
    (h : ∀ frame ∈ frames, ∃ a, frame = .interpreted a) :
    Ends m ⟨s, depth, frames, .deliver (.error f)⟩ (.error f) s.heap s.output :=
  ⟨_, s, _, after_of_fault f s depth h, rfl, rfl⟩

theorem end_of_fault {f : Fault} {s s' : Store} {depth depth' n : Nat} {frames : List Frame}
    (hframes : ∀ frame ∈ frames, ∃ a, frame = .interpreted a)
    (h : after m n ⟨s, depth, frames, .deliver (.error f)⟩ =
      some ⟨s', depth', [], .deliver outcome⟩) : outcome = .error f ∧ s' = s :=
  end_unique h (after_of_fault f s depth hframes)

end Ends

section Opening

variable {arena : Arena} {index : Nat} {s : Store}

theorem open_of_no_record (depth : Nat) {e : ModuleError}
    (h : arena.functionRecord index = .error e) :
    openFrame arena index depth s = .error (.module e) s ∧
      openCompiled arena index s = .error (.module e) s := by
  have hrecord : Machine.functionRecord arena index = throw (.module e) := by
    rw [Machine.functionRecord, h]
  simp only [openFrame, openCompiled, hrecord]
  exact ⟨rfl, rfl⟩

theorem argumentBase_eq (n : Nat) (s : Store) : argumentBase n s =
    if n ≤ s.stack.height then .ok (s.stack.height - n) s else .error .stackUnderflow s := by
  change (if n ≤ s.stack.height then pure (s.stack.height - n) else throw .stackUnderflow :
    Action Nat) s = _
  split <;> rfl

variable {r : FuncRecord} (hr : arena.functionRecord index = .ok r)
include hr

theorem functionRecord_eq : Machine.functionRecord arena index = pure r := by
  rw [Machine.functionRecord, hr]

theorem open_of_short (depth : Nat) (h : s.stack.height < r.nparams.toNat) :
    openFrame arena index depth s = .error .stackUnderflow s ∧
      openCompiled arena index s = .error .stackUnderflow s := by
  have hbase : ∀ {α : Type} (next : Nat → Action α),
      (argumentBase r.nparams.toNat >>= next) s = .error .stackUnderflow s := by
    intro α next
    simp only [bind, EStateM.bind, argumentBase_eq, if_neg (Nat.not_le_of_lt h)]
  constructor
  · rw [openFrame, functionRecord_eq hr, pure_bind]
    exact hbase _
  · rw [openCompiled, functionRecord_eq hr, pure_bind]
    exact hbase _

theorem openCompiled_of_le (h : r.nparams.toNat ≤ s.stack.height) :
    ∃ log, openCompiled arena index s =
      .ok (s.stack.height - r.nparams.toNat, s.stack.values.extract
        (s.stack.height - r.nparams.toNat) s.stack.values.size) { s with log } := by
  have hbase : argumentBase r.nparams.toNat s = .ok (s.stack.height - r.nparams.toNat) s := by
    rw [argumentBase_eq, if_pos h]
  refine ⟨s.log.record (.enteredCompiled r.name), ?_⟩
  simp only [openCompiled, functionRecord_eq hr, pure_bind]
  rw [bind_of_ok hbase]
  rfl

end Opening

theorem closeCompiled_of_le {base : Nat} {s : Store} (h : base ≤ s.stack.height) (v : Value) :
    closeCompiled base v s =
      .ok v { s with stack := { s.stack with values := s.stack.values.shrink base } } := by
  have hcursor : liftStack (Stack.cursorAt base) s = .ok base s := by
    simp only [liftStack, Stack.cursorAt, if_pos h]
  have hrestore : liftStack (Stack.restore base) s =
      .ok () { s with stack := { s.stack with values := s.stack.values.shrink base } } := by
    simp only [liftStack, Stack.restore, if_pos h]
  rw [closeCompiled, bind_of_ok hcursor, bind_of_ok hrestore]
  rfl

end Machine

namespace Machine

open StackMachine.Action

section Simulation

variable {m : Setting} (hm : m.Plain) {compiled : Array (Option CompiledFunction)} {limit : Nat}
  {heap : Heap} {u v : State}

theorem interpreted_twin {a₁ a₂ : Arena} {fs gs : List Frame}
    (h : List.Forall₂ (TwinFrames a₁ a₂) fs gs)
    (hfs : ∀ frame ∈ fs, ∃ a, frame = .interpreted a) :
    ∀ frame ∈ gs, ∃ a, frame = .interpreted a := by
  induction h with
  | nil => exact hfs
  | cons hfg _ ih =>
    obtain ⟨⟨a, rfl⟩, hrest⟩ := List.forall_mem_cons.1 hfs
    cases hfg with
    | interpreted => exact List.forall_mem_cons.2 ⟨⟨_, rfl⟩, ih hrest⟩

include hm

/-- The compiled functions matter where one of them is called, and nowhere else. -/
theorem step_of_not_compiled
    (h : ∀ index : Nat, v.control = .enter index → compiled[index]?.join = none) :
    step? { m with compiled } v = step? m v := by
  obtain ⟨s, depth, frames, control⟩ := v
  cases control with
  | enter index => simp only [step?, enter, h index rfl, hm.interpreted index]
  | execute a => rfl
  | deliver outcome =>
    cases frames with
    | nil => rfl
    | cons frame frames => cases frame <;> rfl

variable {s t s' : Store} {depth depth' index n : Nat} {fs gs : List Frame}
  {outcome : Except Fault Value} {function : CompiledFunction}
  {g : Array Value → Except Fault Value}

omit hm in
/-- A compiled call that gets its arguments is one step. -/
theorem step_of_compiled (gs : List Frame) (hfunction : compiled[index]?.join = some function)
    (hdone : ∀ params, function params = .done (g params)) (hdepth : ¬ m.maxDepth ≤ depth)
    {r : FuncRecord} (hr : m.arena.functionRecord index = .ok r)
    (hle : r.nparams.toNat ≤ t.stack.height) :
    ∃ log, step? { m with compiled } ⟨t, depth, gs, .enter index⟩ =
      some (match g (t.stack.values.extract (t.stack.height - r.nparams.toNat)
          t.stack.values.size) with
        | .ok result => ⟨⟨{ t.stack with
            values := t.stack.values.shrink (t.stack.height - r.nparams.toNat) },
            t.heap, t.output, log⟩, depth, gs, .deliver (.ok result)⟩
        | .error f => ⟨{ t with log }, depth, gs, .deliver (.error f)⟩) := by
  obtain ⟨log, hopen⟩ := openCompiled_of_le hr hle
  refine ⟨log, ?_⟩
  simp only [step?, enter, if_neg hdepth, hfunction, hopen, runCompiled, hdone, Program.advance]
  cases g _ with
  | error f => rfl
  | ok result =>
    have hclose := closeCompiled_of_le (s := { t with log }) (Nat.sub_le _ r.nparams.toNat) result
    simp only [hclose]
    rfl

/-- Neither run gets as far as the function, for the same reason; or there are arguments enough. -/
theorem enter_refused_or (depth : Nat) (fs gs : List Frame)
    (hfunction : compiled[index]?.join = some function) (hst : s.Like t) :
    (∃ f, step? m ⟨s, depth, fs, .enter index⟩ = some ⟨s, depth, fs, .deliver (.error f)⟩ ∧
      step? { m with compiled } ⟨t, depth, gs, .enter index⟩ =
        some ⟨t, depth, gs, .deliver (.error f)⟩) ∨
    ¬ m.maxDepth ≤ depth ∧ ∃ r, m.arena.functionRecord index = .ok r ∧
      r.nparams.toNat ≤ t.stack.height := by
  by_cases hdepth : m.maxDepth ≤ depth
  · refine .inl ⟨.callDepthExceeded m.maxDepth, ?_, ?_⟩ <;>
      simp only [step?, enter, if_pos hdepth]
  have hopen : ∀ f, openFrame m.arena index (depth + 1) s = .error f s →
      openCompiled m.arena index t = .error f t →
      step? m ⟨s, depth, fs, .enter index⟩ = some ⟨s, depth, fs, .deliver (.error f)⟩ ∧
        step? { m with compiled } ⟨t, depth, gs, .enter index⟩ =
          some ⟨t, depth, gs, .deliver (.error f)⟩ := by
    intro f hframe hcompiled
    constructor
    · simp only [step?, enter, if_neg hdepth, hm.interpreted index, hframe]
      rfl
    · simp only [step?, enter, if_neg hdepth, hfunction, hcompiled]
      rfl
  cases hr : m.arena.functionRecord index with
  | error e =>
    exact .inl ⟨_, hopen _ (open_of_no_record _ hr).1 (open_of_no_record depth hr).2⟩
  | ok r =>
    rcases Nat.lt_or_ge t.stack.height r.nparams.toNat with hlt | hle
    · have hlt' : s.stack.height < r.nparams.toNat := by rwa [hst.stack]
      exact .inl ⟨_, hopen _ (open_of_short hr _ hlt').1 (open_of_short hr depth hlt).2⟩
    · exact .inr ⟨hdepth, r, rfl, hle⟩

/-- A call of a compiled function, beside the interpretation of the function. Both come back with
the same store, or both runs end with the same fault. -/
theorem call_parity (hfunction : compiled[index]?.join = some function)
    (hdone : ∀ params, function params = .done (g params))
    (hg : Computes m limit heap index g) (hst : s.Like t)
    (hlegal : s.Legal limit heap) (hfs : ∀ frame ∈ fs, ∃ a, frame = .interpreted a)
    (hgs : ∀ frame ∈ gs, ∃ a, frame = .interpreted a)
    (h : after m n ⟨s, depth, fs, .enter index⟩ = some ⟨s', depth', [], .deliver outcome⟩)
    (hlimit : ∀ f, outcome = .error f → f.isLimit = false) :
    (∃ k < n, ∃ s₁ t₁ result, s₁.Like t₁ ∧ s₁.Legal limit heap ∧
      after m k ⟨s₁, depth, fs, .deliver (.ok result)⟩ =
        some ⟨s', depth', [], .deliver outcome⟩ ∧
      step? { m with compiled } ⟨t, depth, gs, .enter index⟩ =
        some ⟨t₁, depth, gs, .deliver (.ok result)⟩) ∨
    Ends { m with compiled } ⟨t, depth, gs, .enter index⟩ outcome s'.heap s'.output := by
  obtain ⟨k, s₁, o, hpos, hk, hcall, hrest⟩ := exists_call_end rfl h
  have hfault : ∀ f, o = .error f → outcome = .error f ∧ s' = s₁ := by
    rintro f rfl
    exact end_of_fault hfs hrest
  rcases enter_refused_or hm depth [] gs hfunction hst with
    ⟨f, hstep, hstep'⟩ | ⟨hdepth, r, hr, hle⟩
  · obtain ⟨ho, rfl⟩ := end_unique hcall ((after_of_step hstep 0).trans rfl)
    obtain ⟨rfl, rfl⟩ := hfault f ho
    have hends := Ends.of_step hstep' (ends_of_fault (m := { m with compiled }) hgs)
    rw [← hst.heap, ← hst.output] at hends
    exact .inr hends
  obtain ⟨log, hstep⟩ := step_of_compiled gs hfunction hdone hdepth hr hle
  have hparams : (t.stack.values.extract (t.stack.height - r.nparams.toNat)
      t.stack.values.size).size = r.nparams.toNat := by
    rw [Array.size_extract, Nat.min_self]
    exact Nat.sub_sub_self hle
  have hvalues : s.stack.values = t.stack.values.shrink (t.stack.height - r.nparams.toNat) ++
      t.stack.values.extract (t.stack.height - r.nparams.toNat) t.stack.values.size := by
    rw [hst.stack, shrink_append_extract]
  obtain ⟨ho, hheap, houtput, hstack⟩ := hg s s₁ r _ _ depth k o hlegal hr hparams hvalues
    (run_eq_some_iff.2 ⟨k, depth, Nat.le_refl k, hcall⟩) fun f hf => hlimit f (hfault f hf).1
  have hlegal₁ : s₁.Legal limit heap :=
    ⟨(invariant_within limit).after hcall hlegal.stack, hlegal.heap.trans (evolves_after hcall)⟩
  cases hresult : g (t.stack.values.extract (t.stack.height - r.nparams.toNat)
      t.stack.values.size) with
  | error f =>
    rw [hresult] at ho hstep
    obtain ⟨rfl, rfl⟩ := hfault f ho
    have hends := Ends.of_step hstep (ends_of_fault (m := { m with compiled }) hgs)
    rw [hheap, houtput, hst.heap, hst.output]
    exact .inr hends
  | ok result =>
    rw [hresult] at ho hstep
    refine .inl ⟨n - k, Nat.sub_lt_of_pos_le hpos hk, s₁, _, result, ⟨?_, ?_, ?_⟩, hlegal₁,
      ho ▸ hrest, hstep⟩
    · obtain ⟨hlimit₁, -⟩ := hlegal₁.stack
      obtain ⟨hlimit', -⟩ := hlegal.stack
      rw [hst.stack] at hlimit'
      rw [← hstack result ho]
      change s₁.stack = ⟨s₁.stack.values, t.stack.limit⟩
      rw [hlimit', ← hlimit₁]
    · exact hheap.trans hst.heap
    · exact houtput.trans hst.output

theorem ends_parity (hcompiled : Faithful m limit heap compiled)
    (huv : TwinStates m.arena m.arena u v) (hu : u.Interpreted)
    (hlegal : u.store.Legal limit heap)
    (h : after m n u = some ⟨s', depth', [], .deliver outcome⟩)
    (hlimit : ∀ f, outcome = .error f → f.isLimit = false) :
    Ends { m with compiled } v outcome s'.heap s'.output := by
  -- a compiled call takes one step only, and the interpretation of it many
  induction n using Nat.strongRecOn generalizing u v with
  | _ n ih =>
    have hgs := interpreted_twin huv.frames hu
    by_cases hcall : ∃ index function, v.control = .enter index ∧
        compiled[index]?.join = some function
    · obtain ⟨index, function, hcontrol, hfunction⟩ := hcall
      obtain ⟨g, hdone, hg⟩ := hcompiled index function hfunction
      obtain ⟨s, depth, fs, control⟩ := u
      obtain ⟨t, _, gs, _⟩ := v
      obtain ⟨hst, hdepth, hframes, hc⟩ := huv
      cases hdepth
      cases hcontrol
      cases hc
      rcases call_parity hm hfunction hdone hg hst hlegal hu hgs h hlimit with
        ⟨k, hk, s₁, t₁, result, hst₁, hlegal₁, hafter, hstep⟩ | hends
      · have htwin : TwinStates m.arena m.arena ⟨s₁, depth, fs, .deliver (.ok result)⟩
            ⟨t₁, depth, gs, .deliver (.ok result)⟩ := ⟨hst₁, rfl, hframes, .deliver _⟩
        exact .of_step hstep (ih k hk htwin hu hlegal₁ hafter)
      · exact hends
    · have hnone : ∀ index : Nat, v.control = .enter index → compiled[index]?.join = none := by
        intro index hcontrol
        cases hjoin : compiled[index]?.join with
        | none => rfl
        | some function => exact absurd ⟨index, function, hcontrol, hjoin⟩ hcall
      have hstep := step_of_not_compiled hm hnone
      rcases twin_cases (.refl m) huv with
        ⟨s, t, depth, o, rfl, rfl, hst⟩ | ⟨u', v', hu', hv', huv'⟩
      · obtain ⟨-, hend⟩ := after_of_none rfl h
        cases hend
        exact ⟨0, t, _, rfl, hst.heap.symm, hst.output.symm⟩
      · cases n with
        | zero =>
          cases h
          cases hu'
        | succ n =>
          rw [after_of_step hu'] at h
          rw [hv'] at hstep
          have hlegal' : u'.store.Legal limit heap :=
            ⟨(invariant_within limit).step hu' hlegal.stack,
              (invariant_evolves heap).step hu' hlegal.heap⟩
          exact .of_step hstep (ih n (Nat.lt_succ_self n) huv'
            ((moves_of_step hm hu hu').interpreted hu) hlegal' h)

end Simulation

end Machine

end StackMachine
