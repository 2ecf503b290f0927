import StackMachine.Proofs.Machine.Calls
import StackMachine.Proofs.Machine.Shadow

/-! Every step keeps a run and its shadow in the same store, or the run is about to end at a limit.
Hence, if no limit is in the way, both have the same outcome after the same number of steps, or
neither has one. Nothing is asked of the heap. -/

namespace StackMachine

open Machine

/-- The same answer, and after it the same output and the same heap. -/
def VirtualMachine.SameEnd (x y : Except VmError Value × VirtualMachine) : Prop :=
  x.1 = y.1 ∧ x.2.output = y.2.output ∧ x.2.heap = y.2.heap

namespace Shadow

variable (S : Shadow)

inductive Controls : Control → Control → Prop
  | enter {i : Nat} : S.entry i → Controls (.enter i) (.enter i)
  | execute {a₁ a₂ : Activation} : S.code a₁ a₂ → Controls (.execute a₁) (.execute a₂)
  | deliver {v : Value} : S.word v → Controls (.deliver (.ok v)) (.deliver (.ok v))
  | fault {f : Fault} : Controls (.deliver (.error f)) (.deliver (.error f))

inductive States : State → State → Prop
  | intro {s₁ s₂ : Store} {depth : Nat} {fs₁ fs₂ : List Frame} {c₁ c₂ : Control} :
      S.Stores s₁ s₂ → List.Forall₂ S.toComparison.Frames fs₁ fs₂ → S.Controls c₁ c₂ →
      States ⟨s₁, depth, fs₁, c₁⟩ ⟨s₂, depth, fs₂, c₂⟩

/-- The run goes on to a limit, where its shadow may have more room. -/
def CutsOff (u : State) : Prop :=
  S.wider ∧ ∃ n s depth f, f.isLimit = true ∧
    after S.left n u = some ⟨s, depth, [], .deliver (.error f)⟩

/-- The shadow has come along, or it need not, since the run is about to end. -/
inductive Follows (u₁ u₂ : State) : Prop
  | states : S.States u₁ u₂ → Follows u₁ u₂
  | cut : S.CutsOff u₁ → Follows u₁ u₂

variable {S} {fs₁ fs₂ : List Frame} {a₁ a₂ : Activation} {depth : Nat} {s₁ s₂ : Store}
  {u₁ u₂ v₁ : State}

theorem CutsOff.of_step (hs : step? S.left u₁ = some v₁) (h : S.CutsOff v₁) : S.CutsOff u₁ := by
  obtain ⟨hwider, n, s, depth, f, hlimit, hafter⟩ := h
  exact ⟨hwider, n + 1, s, depth, f, hlimit, (after_of_step hs n).trans hafter⟩

theorem exists_interpreted (hf : List.Forall₂ S.toComparison.Frames fs₁ fs₂) :
    ∀ frame ∈ fs₁, ∃ a, frame = .interpreted a := by
  induction hf with
  | nil => exact nofun
  | cons hframe _ ih =>
    cases hframe with
    | interpreted => exact List.forall_mem_cons.2 ⟨⟨_, rfl⟩, ih⟩

theorem Follows.fault {f : Fault} (hs : S.Stores s₁ s₂)
    (hf : List.Forall₂ S.toComparison.Frames fs₁ fs₂) :
    S.Follows ⟨s₁, depth, fs₁, .deliver (.error f)⟩ ⟨s₂, depth, fs₂, .deliver (.error f)⟩ :=
  .states (.intro hs hf .fault)

/-- No frame is in the way of a fault. -/
theorem Follows.limit {f : Fault} (hwider : S.wider) (hlimit : f.isLimit = true)
    (hf : List.Forall₂ S.toComparison.Frames fs₁ fs₂) :
    S.Follows ⟨s₁, depth, fs₁, .deliver (.error f)⟩ u₂ :=
  .cut ⟨hwider, _, _, _, f, hlimit, after_of_fault f s₁ depth (exists_interpreted hf)⟩

theorem States.of_left_end {outcome : Except Fault Value}
    (h : S.States ⟨s₁, depth, [], .deliver outcome⟩ u₂) :
    ∃ s₂, S.Stores s₁ s₂ ∧ u₂ = ⟨s₂, depth, [], .deliver outcome⟩ := by
  obtain ⟨hs, ⟨⟩, hc⟩ := h
  cases hc <;> exact ⟨_, hs, rfl⟩

theorem States.of_right_end {outcome : Except Fault Value}
    (h : S.States u₁ ⟨s₂, depth, [], .deliver outcome⟩) :
    ∃ s₁, S.Stores s₁ s₂ ∧ u₁ = ⟨s₁, depth, [], .deliver outcome⟩ := by
  obtain ⟨hs, ⟨⟩, hc⟩ := h
  cases hc <;> exact ⟨_, hs, rfl⟩

theorem Stores.relog (hs : S.Stores s₁ s₂) (log₁ log₂ : Log) :
    S.Stores { s₁ with log := log₁ } { s₂ with log := log₂ } := by
  obtain ⟨hn, hw, hh⟩ := hs
  exact .intro hn hw hh

theorem Stores.report (hs : S.Stores s₁ s₂) (m₁ m₂ : Setting) (i₁ i₂ : Instruction) :
    S.Stores (report m₁ a₁ i₁ s₁) (report m₂ a₂ i₂ s₂) := by
  obtain ⟨log₁, h₁⟩ := Machine.report_eq m₁ a₁ i₁ s₁
  obtain ⟨log₂, h₂⟩ := Machine.report_eq m₂ a₂ i₂ s₂
  rw [h₁, h₂]
  exact hs.relog log₁ log₂

theorem deliver_shadow {v : Value} (hv : S.word v) (hs : S.Stores s₁ s₂)
    (hf : List.Forall₂ S.toComparison.Frames fs₁ fs₂) (hc : S.code a₁ a₂) :
    S.Follows (deliver S.left (.ok v) s₁ depth fs₁ (.interpreted a₁))
      (deliver S.setting (.ok v) s₂ depth fs₂ (.interpreted a₂)) := by
  have hr := push_alike hv hs
  simp only [deliver]
  generalize Action.liftStack (Stack.push v) s₁ = r₁ at hr
  generalize Action.liftStack (Stack.push v) s₂ = r₂ at hr
  cases hr with
  | ok _ ht => exact .states (.intro ht hf (.execute hc))
  | error ht => exact .fault ht hf
  | cut hwider hlimit => exact .limit hwider hlimit hf

section Steps

variable (hS : S.Lawful)
include hS

theorem Lawful.plain : S.left.Plain ∧ S.setting.Plain :=
  ⟨⟨hS.comparison.primitives.1, fun i => (hS.comparison.interpreted i).1⟩,
    ⟨hS.comparison.primitives.2, fun i => (hS.comparison.interpreted i).2⟩⟩

theorem dispatch_shadow {op : Opcode} {operand : Int} (hbase : a₁.base = a₂.base)
    (ho : S.toComparison.Operand a₁ a₂ operand op)
    (hl : ∀ offset, op.Lands operand offset → S.code (a₁.advance offset) (a₂.advance offset))
    (hs : S.Stores s₁ s₂) (hf : List.Forall₂ S.toComparison.Frames fs₁ fs₂) :
    S.Follows (dispatch S.left a₁ op operand s₁ depth fs₁)
      (dispatch S.setting a₂ op operand s₂ depth fs₂) := by
  by_cases hcall : op = .functionCall
  · subst hcall
    exact .states (.intro hs (.cons (.interpreted (hl 0 rfl)) hf) (.enter ho))
  by_cases hreturn : op = .functionReturn
  · subst hreturn
    have hr := closeFrame_alike hbase hs
    simp only [dispatch]
    generalize closeFrame a₁ s₁ = r₁ at hr
    generalize closeFrame a₂ s₂ = r₂ at hr
    cases hr with
    | ok hv ht =>
      obtain ⟨rfl, hw⟩ := hv
      exact .states (.intro ht hf (.deliver hw))
    | error ht => exact .fault ht hf
    | cut hwider hlimit => exact .limit hwider hlimit hf
  · rw [dispatch_plain (Lawful.plain hS).1 ⟨hcall, hreturn⟩,
      dispatch_plain (Lawful.plain hS).2 ⟨hcall, hreturn⟩]
    have hr := effect_alike hS ⟨hcall, hreturn⟩ ho hs
    generalize heffect : effect S.left.arena a₁ op operand s₁ = r₁ at hr
    change S.Results _ r₁ (effect S.setting.arena a₂ op operand s₂) at hr
    generalize effect S.setting.arena a₂ op operand s₂ = r₂ at hr
    cases hr with
    | ok hoffset ht =>
      subst hoffset
      exact .states (.intro ht hf (.execute (hl _ (lands_of_effect heffect))))
    | error ht => exact .fault ht hf
    | cut hwider hlimit => exact .limit hwider hlimit hf

theorem execute_shadow (hc : S.code a₁ a₂) (hs : S.Stores s₁ s₂)
    (hf : List.Forall₂ S.toComparison.Frames fs₁ fs₂) :
    S.Follows (execute S.left a₁ s₁ depth fs₁) (execute S.setting a₂ s₂ depth fs₂) := by
  have hfetch := hS.comparison.fetch hc
  unfold execute
  change Agree _ _ (a₁.fetch S.left.arena) (a₂.fetch S.setting.arena) at hfetch
  generalize a₁.fetch S.left.arena = x₁ at hfetch
  generalize a₂.fetch S.setting.arena = x₂ at hfetch
  cases hfetch with
  | error => exact .fault hs hf
  | @ok x₁ x₂ hx =>
    obtain ⟨i₁, op, operand⟩ := x₁
    obtain ⟨i₂, op', operand'⟩ := x₂
    obtain ⟨⟨⟩, hbase, ho, hl⟩ := hx
    exact dispatch_shadow hS hbase ho hl (hs.report _ _ _ _) hf

theorem enter_shadow {i : Nat} (hi : S.entry i) (hs : S.Stores s₁ s₂)
    (hf : List.Forall₂ S.toComparison.Frames fs₁ fs₂) :
    S.Follows (enter S.left i s₁ depth fs₁) (enter S.setting i s₂ depth fs₂) := by
  unfold enter
  rw [(Lawful.plain hS).1.interpreted i, (Lawful.plain hS).2.interpreted i]
  by_cases hdepth : S.left.maxDepth ≤ depth
  · rw [if_pos hdepth]
    rcases hS.depth with heq | ⟨hwider, -⟩
    · have hmax : S.left.maxDepth = S.setting.maxDepth := heq
      rw [hmax] at hdepth ⊢
      rw [if_pos hdepth]
      exact .fault hs hf
    · exact .limit hwider rfl hf
  · have hdepth' : ¬ S.setting.maxDepth ≤ depth := fun h => hdepth (Nat.le_trans hS.depth.le h)
    rw [if_neg hdepth, if_neg hdepth']
    have hr := openFrame_alike hS hi (depth + 1) hs
    change S.Results _ _ (openFrame S.setting.arena i (depth + 1) s₂) at hr
    simp only
    generalize openFrame S.left.arena i (depth + 1) s₁ = r₁ at hr
    generalize openFrame S.setting.arena i (depth + 1) s₂ = r₂ at hr
    cases hr with
    | ok hc ht => exact .states (.intro ht hf (.execute hc))
    | error ht => exact .fault ht hf
    | cut hwider hlimit => exact .limit hwider hlimit hf

theorem step_shadow (h : S.States u₁ u₂) :
    Option.Rel S.Follows (step? S.left u₁) (step? S.setting u₂) := by
  obtain ⟨hs, hf, hc⟩ := h
  cases hc with
  | enter hi => exact .some (enter_shadow hS hi hs hf)
  | execute hc => exact .some (execute_shadow hS hc hs hf)
  | deliver hv =>
    cases hf with
    | nil => exact .none
    | cons hframe hf =>
      cases hframe with
      | interpreted hc =>
        exact .some (deliver_shadow hv hs hf hc)
  | fault =>
    cases hf with
    | nil => exact .none
    | cons hframe hf =>
      cases hframe with
      | interpreted => exact .some (.fault hs hf)

theorem after_shadow (h : S.States u₁ u₂) (hcut : ¬ S.CutsOff u₁) (n : Nat) :
    Option.Rel S.States (after S.left n u₁) (after S.setting n u₂) := by
  induction n generalizing u₁ u₂ with
  | zero => exact .some h
  | succ n ih =>
    have hstep := step_shadow hS h
    simp only [after]
    generalize hx : step? S.left u₁ = x₁ at hstep
    generalize step? S.setting u₂ = x₂ at hstep
    cases hstep with
    | none => exact .none
    | some hv =>
      have hcut' := mt (CutsOff.of_step hx) hcut
      cases hv with
      | states hv => exact ih hv hcut'
      | cut hv => exact absurd hv hcut'

/-- The run and its shadow are both still under way, or have ended alike. -/
theorem run_shadow (h : S.States u₁ u₂) (hcut : ¬ S.CutsOff u₁) (fuel : Nat) :
    Option.Rel (fun x y => x.1 = y.1 ∧ S.Stores x.2 y.2) (run S.left fuel u₁)
      (run S.setting fuel u₂) := by
  cases h₁ : run S.left fuel u₁ with
  | some x =>
    obtain ⟨outcome, s⟩ := x
    obtain ⟨n, depth, hn, hafter₁⟩ := run_eq_some_iff.1 h₁
    have hrel := after_shadow hS h hcut n
    rw [hafter₁] at hrel
    generalize hafter₂ : after S.setting n u₂ = x₂ at hrel
    cases hrel with
    | some hend =>
      obtain ⟨t, hs, rfl⟩ := hend.of_left_end
      rw [run_eq_some_iff.2 ⟨n, depth, hn, hafter₂⟩]
      exact .some ⟨rfl, hs⟩
  | none =>
    cases h₂ : run S.setting fuel u₂ with
    | none => exact .none
    | some y =>
      obtain ⟨outcome, t⟩ := y
      obtain ⟨n, depth, hn, hafter₂⟩ := run_eq_some_iff.1 h₂
      have hrel := after_shadow hS h hcut n
      rw [hafter₂] at hrel
      generalize hafter₁ : after S.left n u₁ = x₁ at hrel
      cases hrel with
      | some hend =>
        obtain ⟨s, -, rfl⟩ := hend.of_right_end
        rw [run_eq_some_iff.2 ⟨n, depth, hn, hafter₁⟩] at h₁
        cases h₁

end Steps

section Calls

open VirtualMachine

variable {args : List Value} {vm₁ vm₂ : VirtualMachine} {l₁ l₂ : Loaded} {index : Nat}

theorem pushArguments_alike (hargs : ∀ v ∈ args, S.word v) :
    S.Alike (pushArguments args) (pushArguments args) fun _ _ => True := by
  have hvs : ∀ v ∈ args.reverse, S.word v := fun v hv => hargs v (List.mem_reverse.1 hv)
  unfold pushArguments
  generalize args.reverse = vs at hvs
  induction vs with
  | nil => exact .pure trivial
  | cons v vs ih =>
    obtain ⟨hv, hvs⟩ := List.forall_mem_cons.1 hvs
    exact (push_alike hv).bind fun _ _ _ => ih hvs

/-- The call and its shadow have the same outcome, unless it is a limit that only the call has. -/
theorem call_shadow (hS : S.Lawful) (vm₁ vm₂ : VirtualMachine) (hleft : S.left = vm₁.setting l₁)
    (hright : S.setting = vm₂.setting l₂) (hindex : S.entry index)
    (hargs : ∀ v ∈ args, S.word v) (hs : S.Stores vm₁.store vm₂.store)
    (hcut : S.wider → ∀ fuel f s, vm₁.call fuel l₁ index args = some (.error f, s) →
      f.isLimit = false) (fuel : Nat) :
    Option.Rel (fun x y => x.1 = y.1 ∧ S.Stores x.2 y.2) (vm₁.call fuel l₁ index args)
      (vm₂.call fuel l₂ index args) := by
  have hr := pushArguments_alike hargs hs
  unfold VirtualMachine.call at *
  rw [← hleft] at hcut ⊢
  rw [← hright]
  generalize pushArguments args vm₁.store = r₁ at *
  generalize pushArguments args vm₂.store = r₂ at *
  cases hr with
  | error hs => exact .some ⟨rfl, hs⟩
  | cut hwider hlimit =>
    have hnot := hcut hwider fuel _ _ rfl
    rw [hlimit] at hnot
    cases hnot
  | ok _ hs =>
    refine run_shadow hS (.intro hs .nil (.enter hindex)) ?_ fuel
    rintro ⟨hwider, n, s, depth, f, hlimit, hafter⟩
    have hnot := hcut hwider n f s (run_eq_some_iff.2 ⟨n, depth, Nat.le_refl n, hafter⟩)
    rw [hlimit] at hnot
    cases hnot

theorem finish_shadow {x₁ x₂ : Option (Except Fault Value × Store)}
    (h : Option.Rel (fun x y => x.1 = y.1 ∧ S.Stores x.2 y.2) x₁ x₂) (vm₁ vm₂ : VirtualMachine)
    (name₁ name₂ : String) :
    Option.Rel SameEnd (x₁.map (vm₁.finish name₁)) (x₂.map (vm₂.finish name₂)) := by
  cases h with
  | none => exact .none
  | @some x y h =>
    obtain ⟨outcome, s₁⟩ := x
    obtain ⟨_, s₂⟩ := y
    obtain ⟨rfl, ⟨-, -, -⟩⟩ := h
    rename_i output _ _
    refine .some ?_
    cases outcome with
    | error f => exact ⟨rfl, rfl, rfl⟩
    | ok v =>
      unfold finish
      cases hflush : output.flush with
      | error reason =>
        simp only [hflush]
        exact ⟨rfl, rfl, rfl⟩
      | ok _ =>
        simp only [hflush]
        exact ⟨rfl, rfl, rfl⟩

/-- Runs whose checks lead to the same call end alike, unless a limit is in the way of the first. -/
theorem prepared_shadow (hS : S.Lawful) {target₁ target₂ : Target} {f₁ f₂ : Func}
    (hp₁ : vm₁.prepare target₁ args = .ok (l₁, index, f₁))
    (hp₂ : vm₂.prepare target₂ args = .ok (l₂, index, f₂)) (hleft : S.left = vm₁.setting l₁)
    (hright : S.setting = vm₂.setting l₂) (hindex : S.entry index)
    (hargs : ∀ v ∈ args, S.word v) (hs : S.Stores vm₁.store vm₂.store)
    (hcut : S.wider → ∀ fuel f vm, vm₁.run fuel target₁ args = some (.error (.fault f), vm) →
      f.isLimit = false) (fuel : Nat) :
    Option.Rel SameEnd (vm₁.run fuel target₁ args) (vm₂.run fuel target₂ args) := by
  have hlimit : S.wider → ∀ fuel f s, (vm₁.started f₁ args).call fuel l₁ index args =
      some (.error f, s) → f.isLimit = false := by
    intro hwider n f s hcall
    refine hcut hwider n f ((vm₁.started f₁ args).keep s) ?_
    simp only [VirtualMachine.run, hp₁, hcall]
    rfl
  have hcalls := call_shadow hS (vm₁.started f₁ args) (vm₂.started f₂ args) hleft hright hindex
    hargs (hs.relog _ _) hlimit fuel
  rw [VirtualMachine.run, hp₁, VirtualMachine.run, hp₂]
  exact finish_shadow hcalls _ _ _ _

end Calls

end Shadow

end StackMachine
