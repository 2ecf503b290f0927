import StackMachine.Proofs.Image.Views
import StackMachine.Proofs.Machine.Actions
import StackMachine.Proofs.Machine.Runs

/-! Two machines that differ in the image of one module, and in what their logs hold. As long as the
images answer alike, each step of the one is a step of the other, with the same stack, heap and
output: code, names and strings are had by queries only. Primitives and compiled functions may call
back, but they have to keep to the queries as well. -/

namespace StackMachine

/-- The stores differ in their logs only. -/
structure Store.Like (s t : Store) : Prop where
  stack : s.stack = t.stack
  heap : s.heap = t.heap
  output : s.output = t.output

namespace Action

inductive Same {α β : Type} (R : α → β → Prop) :
    EStateM.Result Fault Store α → EStateM.Result Fault Store β → Prop
  | ok {a : α} {b : β} {s t : Store} : R a b → s.Like t → Same R (.ok a s) (.ok b t)
  | error {f : Fault} {s t : Store} : s.Like t → Same R (.error f s) (.error f t)

/-- In stores that differ in their logs the two actions have results that correspond. -/
def Twin {α β : Type} (R : α → β → Prop) (x : Action α) (y : Action β) : Prop :=
  ∀ ⦃s t : Store⦄, s.Like t → Same R (x s) (y t)

/-- The action does not read the log. -/
def Blind {α : Type} (act : Action α) : Prop := Twin Eq act act

variable {α β γ δ : Type}

theorem twin_pure {R : α → β → Prop} {a : α} {b : β} (h : R a b) :
    Twin R (pure a) (pure b) := fun _ _ hs => .ok h hs

theorem twin_throw {R : α → β → Prop} (f : Fault) : Twin R (throw f) (throw f) :=
  fun _ _ hs => .error hs

theorem Twin.bind {R : α → β → Prop} {Q : γ → δ → Prop} {x : Action α} {y : Action β}
    {f : α → Action γ} {g : β → Action δ} (h : Twin R x y)
    (hf : ∀ a b, R a b → Twin Q (f a) (g b)) : Twin Q (x >>= f) (y >>= g) := by
  intro s t hs
  have hr := h hs
  simp only [Bind.bind, EStateM.bind]
  generalize x s = r₁ at hr
  generalize y t = r₂ at hr
  cases hr with
  | ok hab hs' => exact hf _ _ hab hs'
  | error hs' => exact .error hs'

theorem blind_liftStack (act : StackOp α) : Blind (liftStack act) := by
  intro s t hs
  simp only [liftStack, hs.stack]
  cases act t.stack with
  | ok a stack => exact .ok rfl ⟨rfl, hs.heap, hs.output⟩
  | error f stack => exact .error ⟨rfl, hs.heap, hs.output⟩

theorem blind_liftHeap (act : HeapOp α) : Blind (liftHeap act) := by
  intro s t hs
  simp only [liftHeap, hs.heap]
  cases act t.heap with
  | ok a heap => exact .ok rfl ⟨hs.stack, rfl, hs.output⟩
  | error f heap => exact .error ⟨hs.stack, rfl, hs.output⟩

theorem blind_write (bytes : List UInt8) : Blind (write bytes) := by
  intro s t hs
  simp only [write, hs.output]
  rcases t.output.write bytes with ⟨_ | _, output⟩
  · exact .error ⟨hs.stack, hs.heap, rfl⟩
  · exact .ok rfl ⟨hs.stack, hs.heap, rfl⟩

theorem blind_allocate : Blind allocate := by
  intro s t hs
  simp only [allocate, hs.stack, hs.heap]
  exact .ok rfl ⟨rfl, rfl, hs.output⟩

theorem blind_collect : Blind collect := by
  intro s t hs
  simp only [collect, hs.stack, hs.heap]
  exact .ok rfl ⟨rfl, rfl, hs.output⟩

theorem blind_closed : Closed Blind where
  pure _ := twin_pure rfl
  throw := twin_throw
  bind h hn := h.bind fun a b hab => hab ▸ hn a
  read {_ f} h s t hs := by
    change Same Eq (f s.stack s.heap s) (f t.stack t.heap t)
    rw [hs.stack, hs.heap]
    exact h _ _ hs
  liftStack := blind_liftStack
  addField _ _ := blind_liftHeap _
  setField _ _ _ := blind_liftHeap _
  allocate := blind_allocate
  collect := blind_collect
  record _ _ _ hs := .ok rfl ⟨hs.stack, hs.heap, hs.output⟩

theorem Blind.attempt {act : Action α} (h : Blind act) {s t : Store} (hs : s.Like t) :
    (Program.attempt act s).1 = (Program.attempt act t).1 ∧
      (Program.attempt act s).2.Like (Program.attempt act t).2 := by
  have hr := h hs
  unfold Program.attempt
  generalize act s = r₁ at hr
  generalize act t = r₂ at hr
  cases hr with
  | ok hab hs' => exact ⟨congrArg Except.ok hab, hs'⟩
  | error hs' => exact ⟨rfl, hs'⟩

end Action

namespace Program

variable {α β : Type} {a₁ a₂ : Arena}

/-- The programs make the same requests, the first with the one image before it, the second with the
other. -/
inductive Twin (a₁ a₂ : Arena) {α : Type} : Program α → Program α → Prop
  | done (result : Except Fault α) : Twin a₁ a₂ (.done result) (.done result)
  | view {n₁ n₂ : View → Program α} :
      (∀ module depth stack heap,
        Twin a₁ a₂ (n₁ ⟨module, a₁, depth, stack, heap⟩) (n₂ ⟨module, a₂, depth, stack, heap⟩)) →
      Twin a₁ a₂ (.view n₁) (.view n₂)
  | push (v : Value) {n₁ n₂ : Except Fault Unit → Program α} :
      (∀ x, Twin a₁ a₂ (n₁ x) (n₂ x)) → Twin a₁ a₂ (.push v n₁) (.push v n₂)
  | pop {n₁ n₂ : Except Fault Value → Program α} :
      (∀ x, Twin a₁ a₂ (n₁ x) (n₂ x)) → Twin a₁ a₂ (.pop n₁) (.pop n₂)
  | pushZeros (n : Nat) {n₁ n₂ : Except Fault Unit → Program α} :
      (∀ x, Twin a₁ a₂ (n₁ x) (n₂ x)) → Twin a₁ a₂ (.pushZeros n n₁) (.pushZeros n n₂)
  | restore (cursor : Nat) {n₁ n₂ : Except Fault Unit → Program α} :
      (∀ x, Twin a₁ a₂ (n₁ x) (n₂ x)) → Twin a₁ a₂ (.restore cursor n₁) (.restore cursor n₂)
  | set (index : Nat) (v : Value) {n₁ n₂ : Except Fault Unit → Program α} :
      (∀ x, Twin a₁ a₂ (n₁ x) (n₂ x)) → Twin a₁ a₂ (.set index v n₁) (.set index v n₂)
  | allocate (roots : Array Value) {n₁ n₂ : ObjectRef → Program α} :
      (∀ x, Twin a₁ a₂ (n₁ x) (n₂ x)) → Twin a₁ a₂ (.allocate roots n₁) (.allocate roots n₂)
  | addField (r : ObjectRef) (id : FieldId) {n₁ n₂ : Except Fault Nat → Program α} :
      (∀ x, Twin a₁ a₂ (n₁ x) (n₂ x)) → Twin a₁ a₂ (.addField r id n₁) (.addField r id n₂)
  | setField (r : ObjectRef) (slot : Nat) (v : Value) {n₁ n₂ : Except Fault Unit → Program α} :
      (∀ x, Twin a₁ a₂ (n₁ x) (n₂ x)) → Twin a₁ a₂ (.setField r slot v n₁) (.setField r slot v n₂)
  | collect (roots : Array Value) {n₁ n₂ : Nat → Program α} :
      (∀ x, Twin a₁ a₂ (n₁ x) (n₂ x)) → Twin a₁ a₂ (.collect roots n₁) (.collect roots n₂)
  | write (bytes : List UInt8) {n₁ n₂ : Except Fault Unit → Program α} :
      (∀ x, Twin a₁ a₂ (n₁ x) (n₂ x)) → Twin a₁ a₂ (.write bytes n₁) (.write bytes n₂)
  | flush {n₁ n₂ : Except Fault Unit → Program α} :
      (∀ x, Twin a₁ a₂ (n₁ x) (n₂ x)) → Twin a₁ a₂ (.flush n₁) (.flush n₂)
  | call (index : Nat) {n₁ n₂ : Except Fault Value → Program α} :
      (∀ x, Twin a₁ a₂ (n₁ x) (n₂ x)) → Twin a₁ a₂ (.call index n₁) (.call index n₂)

/-- A program that sees of an image what queries tell. -/
def Discreet (p : Program α) : Prop := ∀ a₁ a₂ : Arena, a₁.Alike a₂ → Twin a₁ a₂ p p

/-- Where the image is one, there is nothing to tell apart. -/
theorem Twin.refl (a : Arena) (p : Program α) : Twin a a p p := by
  induction p with
  | done result => exact .done result
  | view next ih => exact .view fun module depth stack heap => ih _
  | push v next ih => exact .push v ih
  | pop next ih => exact .pop ih
  | pushZeros n next ih => exact .pushZeros n ih
  | restore cursor next ih => exact .restore cursor ih
  | set index v next ih => exact .set index v ih
  | allocate roots next ih => exact .allocate roots ih
  | addField r id next ih => exact .addField r id ih
  | setField r slot v next ih => exact .setField r slot v ih
  | collect roots next ih => exact .collect roots ih
  | write bytes next ih => exact .write bytes ih
  | flush next ih => exact .flush ih
  | call index next ih => exact .call index ih

inductive Progress.Twin (a₁ a₂ : Arena) : Progress α → Progress α → Prop
  | finished (result : Except Fault α) : Progress.Twin a₁ a₂ (.finished result) (.finished result)
  | calls (index : Nat) {n₁ n₂ : Except Fault Value → Program α} :
      (∀ x, Program.Twin a₁ a₂ (n₁ x) (n₂ x)) →
      Progress.Twin a₁ a₂ (.calls index n₁) (.calls index n₂)

/-- Up to their next calls, or their ends, both programs go the same way. -/
def Together (a₁ a₂ : Arena) (module : Module) (depth : Nat) (p₁ p₂ : Program α) : Prop :=
  ∀ ⦃s t : Store⦄, s.Like t →
    (p₁.advance module a₁ depth s).1.Twin a₁ a₂ (p₂.advance module a₂ depth t).1 ∧
      (p₁.advance module a₁ depth s).2.Like (p₂.advance module a₂ depth t).2

theorem together_of_blind {module : Module} {depth : Nat} {act : Action β} (hact : act.Blind)
    {n₁ n₂ : Except Fault β → Program α}
    (h : ∀ x, Together a₁ a₂ module depth (n₁ x) (n₂ x)) ⦃s t : Store⦄ (hs : s.Like t) :
    ((n₁ (attempt act s).1).advance module a₁ depth (attempt act s).2).1.Twin a₁ a₂
        ((n₂ (attempt act t).1).advance module a₂ depth (attempt act t).2).1 ∧
      ((n₁ (attempt act s).1).advance module a₁ depth (attempt act s).2).2.Like
        ((n₂ (attempt act t).1).advance module a₂ depth (attempt act t).2).2 := by
  obtain ⟨hx, hs'⟩ := hact.attempt hs
  rw [hx]
  exact h _ hs'

theorem advance_twin {p₁ p₂ : Program α} (h : Twin a₁ a₂ p₁ p₂) (module : Module) (depth : Nat) :
    Together a₁ a₂ module depth p₁ p₂ := by
  induction h with
  | done result => exact fun s t hs => ⟨.finished result, hs⟩
  | call index h => exact fun s t hs => ⟨.calls index h, hs⟩
  | view _ ih =>
    intro s t hs
    simp only [advance, hs.stack, hs.heap]
    exact ih _ _ _ _ hs
  | flush _ ih =>
    intro s t hs
    simp only [advance, hs.output]
    exact ih _ hs
  | push v _ ih => exact together_of_blind (Action.blind_liftStack (Stack.push v)) ih
  | pop _ ih => exact together_of_blind (Action.blind_liftStack Stack.pop) ih
  | pushZeros n _ ih => exact together_of_blind (Action.blind_liftStack (Stack.pushZeros n)) ih
  | restore cursor _ ih =>
    exact together_of_blind (Action.blind_liftStack (Stack.restore cursor)) ih
  | set index v _ ih => exact together_of_blind (Action.blind_liftStack (Stack.set index v)) ih
  | addField r id _ ih => exact together_of_blind (Action.blind_closed.addField r id) ih
  | setField r slot v _ ih => exact together_of_blind (Action.blind_closed.setField r slot v) ih
  | write bytes _ ih => exact together_of_blind (Action.blind_write bytes) ih
  | allocate roots _ ih =>
    intro s t hs
    simp only [advance, hs.heap]
    exact ih _ ⟨hs.stack, rfl, hs.output⟩
  | collect roots _ ih =>
    intro s t hs
    simp only [advance, hs.heap]
    exact ih _ ⟨hs.stack, rfl, hs.output⟩

theorem Twin.bind {p₁ p₂ : Program α} {f₁ f₂ : α → Program β} (h : Twin a₁ a₂ p₁ p₂)
    (hf : ∀ a, Twin a₁ a₂ (f₁ a) (f₂ a)) : Twin a₁ a₂ (p₁ >>= f₁) (p₂ >>= f₂) := by
  change Twin a₁ a₂ (p₁.bind f₁) (p₂.bind f₂)
  induction h with
  | done result =>
    cases result with
    | ok a => exact hf a
    | error f => exact .done _
  | view _ ih => exact .view fun module depth stack heap => ih module depth stack heap
  | push v _ ih => exact .push v ih
  | pop _ ih => exact .pop ih
  | pushZeros n _ ih => exact .pushZeros n ih
  | restore cursor _ ih => exact .restore cursor ih
  | set index v _ ih => exact .set index v ih
  | allocate roots _ ih => exact .allocate roots ih
  | addField r id _ ih => exact .addField r id ih
  | setField r slot v _ ih => exact .setField r slot v ih
  | collect roots _ ih => exact .collect roots ih
  | write bytes _ ih => exact .write bytes ih
  | flush _ ih => exact .flush ih
  | call index _ ih => exact .call index ih

theorem discreet_stringAt (index : Nat) : (stringAt index).Discreet := by
  intro a₁ a₂ ha
  refine Twin.view fun module depth stack heap => ?_
  simp only [Program.bind, ha.string]
  cases a₂.string index <;> exact .done _

theorem discreet_printString : Primitive.printString.Discreet := by
  intro a₁ a₂ ha
  refine (Twin.pop fun x => .done x).bind fun v => ?_
  cases v with
  | uint48 index =>
    refine (discreet_stringAt _ a₁ a₂ ha).bind fun s => ?_
    exact (Twin.write _ fun x => .done x).bind fun _ => .push _ fun x => .done x
  | _ => exact .done _

theorem discreet_printNumber : Primitive.printNumber.Discreet := by
  intro a₁ a₂ ha
  refine (Twin.pop fun x => .done x).bind fun v => ?_
  cases v with
  | int48 n => exact (Twin.write _ fun x => .done x).bind fun _ => .push _ fun x => .done x
  | _ => exact .done _

theorem discreet_printStack : Primitive.printStack.Discreet := fun _ _ _ =>
  Twin.view fun _ _ _ _ => (Twin.write _ fun x => .done x).bind fun _ => .push _ fun x => .done x

theorem discreet_standard : ∀ p ∈ PrimitiveTable.standard, p.program.Discreet := by
  simp only [PrimitiveTable.standard, List.forall_mem_cons, List.not_mem_nil, false_imp_iff,
    implies_true, and_true]
  exact ⟨discreet_printString, discreet_printNumber, discreet_printStack⟩

end Program

def CompiledFunction.Discreet (function : CompiledFunction) : Prop :=
  ∀ params, (function params).Discreet

/-- Settings that differ in the image. What the host has put into them does not tell the images
apart. -/
structure Setting.Twin (m₁ m₂ : Setting) : Prop where
  module : m₁.module = m₂.module
  arena : m₁.arena.Alike m₂.arena
  compiled : m₁.compiled = m₂.compiled
  functions : ∀ i : Nat, ∀ f ∈ m₁.compiled[i]?.join, ∀ params,
    (f params).Twin m₁.arena m₂.arena (f params)
  primitives : m₁.primitives = m₂.primitives
  programs : ∀ p ∈ m₁.primitives, p.program.Twin m₁.arena m₂.arena p.program
  maxDepth : m₁.maxDepth = m₂.maxDepth
  debug : m₁.debug = m₂.debug

theorem Setting.Twin.refl (m : Setting) : m.Twin m where
  module := rfl
  arena := .refl m.arena
  compiled := rfl
  functions _ f _ params := .refl m.arena (f params)
  primitives := rfl
  programs p _ := .refl m.arena p.program
  maxDepth := rfl
  debug := rfl

namespace Activation

structure Alike (a₁ a₂ : Arena) (x y : Activation) : Prop where
  function : x.function.Alike a₁ a₂ y.function
  base : x.base = y.base
  ip : x.ip = y.ip

variable {a₁ a₂ : Arena} {x y : Activation}

theorem Alike.advance (h : Alike a₁ a₂ x y) (offset : Int) :
    Alike a₁ a₂ (x.advance offset) (y.advance offset) :=
  ⟨h.function, h.base, congrArg (· + 1 + offset) h.ip⟩

theorem Alike.fetch (h : Alike a₁ a₂ x y) : x.fetch a₁ = y.fetch a₂ := by
  unfold Activation.fetch
  rw [← h.ip, ← h.function.codeLength, ← h.function.name]
  by_cases hbounds : x.ip < 0 ∨ (x.function.codeLength : Int) ≤ x.ip
  · rw [if_pos hbounds, if_pos hbounds]
  · rw [if_neg hbounds, if_neg hbounds, h.function.code _ (by omega)]

theorem Alike.localSlot (h : Alike a₁ a₂ x y) : x.localSlot = y.localSlot := by
  funext index
  simp only [Activation.localSlot, Activation.locals, h.base, h.function.nlocals,
    h.function.nparams]

theorem Alike.paramSlot (h : Alike a₁ a₂ x y) : x.paramSlot = y.paramSlot := by
  funext index
  simp only [Activation.paramSlot, h.base, h.function.nparams]

end Activation

theorem Arena.Alike.jumpTaken {a₁ a₂ : Arena} (h : a₁.Alike a₂) (op : Opcode) (left right : Value) :
    Arith.jumpTaken op left right a₁ = Arith.jumpTaken op left right a₂ := by
  have hstring : a₁.string = a₂.string := funext h.string
  have hbytes : Arith.stringBytes a₁ = Arith.stringBytes a₂ := by
    funext index
    simp only [Arith.stringBytes, hstring]
  have hcompare : Arith.compareValues op left right a₁ = Arith.compareValues op left right a₂ := by
    unfold Arith.compareValues
    rw [hbytes]
  rw [Arith.jumpTaken, hcompare]
  rfl

namespace Machine

open StackMachine.Action

section Actions

variable {a₁ a₂ : Arena} {x y : Activation}

theorem perform_eq (ha : a₁.Alike a₂) (h : x.Alike a₁ a₂ y) (op : Opcode) (operand : Int) :
    perform a₁ x op operand = perform a₂ y op operand := by
  cases op <;>
    simp only [perform, ha.jumpTaken, h.localSlot, h.paramSlot, h.function.name, h.ip]

theorem closeFrame_eq (h : x.Alike a₁ a₂ y) : closeFrame x = closeFrame y := by
  simp only [closeFrame, h.base, h.function.name]

theorem functionRecord_twin (ha : a₁.Alike a₂) (index : Nat) :
    Action.Twin (FuncRecord.Alike a₁ a₂) (Machine.functionRecord a₁ index)
      (Machine.functionRecord a₂ index) := by
  have hr := ha.functionRecord index
  unfold Machine.functionRecord
  generalize a₁.functionRecord index = r₁ at hr
  generalize a₂.functionRecord index = r₂ at hr
  cases hr with
  | ok h => exact twin_pure h
  | error => exact twin_throw _

theorem openFrame_twin (ha : a₁.Alike a₂) (index depth : Nat) :
    Action.Twin (Activation.Alike a₁ a₂) (openFrame a₁ index depth)
      (openFrame a₂ index depth) := by
  refine (functionRecord_twin ha index).bind fun f g hfg => ?_
  simp only [hfg.nparams, hfg.nlocals, hfg.name]
  refine (blind_closed.rules.argumentBase _).bind fun base base' hbase => ?_
  subst hbase
  refine (blind_liftStack _).bind fun _ _ _ => ?_
  exact (blind_closed.record _).bind fun _ _ _ => twin_pure ⟨hfg, rfl, rfl⟩

theorem openCompiled_twin (ha : a₁.Alike a₂) (index : Nat) :
    Action.Twin Eq (openCompiled a₁ index) (openCompiled a₂ index) := by
  refine (functionRecord_twin ha index).bind fun f g hfg => ?_
  rw [hfg.nparams, hfg.name]
  refine blind_closed.bind (blind_closed.rules.argumentBase _) fun base => ?_
  refine blind_closed.bind (blind_closed.record _) fun _ => ?_
  exact blind_closed.read (f := fun t _ => pure (base, t.values.extract base t.values.size))
    fun _ _ => blind_closed.pure _

end Actions

/-- Frames in which the same comes next, whatever is delivered. -/
inductive TwinFrames (a₁ a₂ : Arena) : Frame → Frame → Prop
  | interpreted {x y : Activation} : x.Alike a₁ a₂ y →
      TwinFrames a₁ a₂ (.interpreted x) (.interpreted y)
  | primitive {x y : Activation} {n₁ n₂ : Except Fault Value → Program Unit} : x.Alike a₁ a₂ y →
      (∀ outcome, (n₁ outcome).Twin a₁ a₂ (n₂ outcome)) →
      TwinFrames a₁ a₂ (.primitive x n₁) (.primitive y n₂)
  | compiled (base : Nat) {n₁ n₂ : Except Fault Value → Program Value} :
      (∀ outcome, (n₁ outcome).Twin a₁ a₂ (n₂ outcome)) →
      TwinFrames a₁ a₂ (.compiled base n₁) (.compiled base n₂)

inductive TwinControls (a₁ a₂ : Arena) : Control → Control → Prop
  | enter (index : Nat) : TwinControls a₁ a₂ (.enter index) (.enter index)
  | execute {x y : Activation} : x.Alike a₁ a₂ y → TwinControls a₁ a₂ (.execute x) (.execute y)
  | deliver (outcome : Except Fault Value) :
      TwinControls a₁ a₂ (.deliver outcome) (.deliver outcome)

structure TwinStates (a₁ a₂ : Arena) (u v : State) : Prop where
  store : u.store.Like v.store
  depth : u.depth = v.depth
  frames : List.Forall₂ (TwinFrames a₁ a₂) u.frames v.frames
  control : TwinControls a₁ a₂ u.control v.control

section Steps

variable {m₁ m₂ : Setting} (hm : m₁.Twin m₂) {s t : Store} {depth : Nat} {fs gs : List Frame}
  {x y : Activation}

theorem leave_twin {a₁ a₂ : Arena} (hs : s.Like t) (hf : List.Forall₂ (TwinFrames a₁ a₂) fs gs)
    (outcome : Except Fault Value) :
    TwinStates a₁ a₂ (leave s depth fs outcome) (leave t depth gs outcome) :=
  ⟨hs, rfl, hf, .deliver outcome⟩

variable (hs : s.Like t) (hf : List.Forall₂ (TwinFrames m₁.arena m₂.arena) fs gs)
include hm hs hf

theorem runPrimitive_twin {p q : Program Unit} (hp : p.Twin m₁.arena m₂.arena q)
    (h : x.Alike m₁.arena m₂.arena y) :
    TwinStates m₁.arena m₂.arena (runPrimitive m₁ x p s depth fs)
      (runPrimitive m₂ y q t depth gs) := by
  have hadvance := Program.advance_twin hp m₁.module depth hs
  unfold runPrimitive
  rw [← hm.module]
  generalize p.advance m₁.module m₁.arena depth s = r₁ at hadvance ⊢
  generalize q.advance m₁.module m₂.arena depth t = r₂ at hadvance ⊢
  obtain ⟨progress₁, s'⟩ := r₁
  obtain ⟨progress₂, t'⟩ := r₂
  obtain ⟨hprogress, hs'⟩ := hadvance
  cases hprogress with
  | finished result =>
    cases result with
    | ok u => exact ⟨hs', rfl, hf, .execute h⟩
    | error f => exact leave_twin hs' hf _
  | calls index hn => exact ⟨hs', rfl, .cons (.primitive h hn) hf, .enter index⟩

theorem runCompiled_twin (base : Nat) {p q : Program Value} (hp : p.Twin m₁.arena m₂.arena q) :
    TwinStates m₁.arena m₂.arena (runCompiled m₁ base p s depth fs)
      (runCompiled m₂ base q t depth gs) := by
  have hadvance := Program.advance_twin hp m₁.module depth hs
  unfold runCompiled
  rw [← hm.module]
  generalize p.advance m₁.module m₁.arena depth s = r₁ at hadvance ⊢
  generalize q.advance m₁.module m₂.arena depth t = r₂ at hadvance ⊢
  obtain ⟨progress₁, s'⟩ := r₁
  obtain ⟨progress₂, t'⟩ := r₂
  obtain ⟨hprogress, hs'⟩ := hadvance
  cases hprogress with
  | calls index hn => exact ⟨hs', rfl, .cons (.compiled base hn) hf, .enter index⟩
  | finished result =>
    cases result with
    | error f => exact leave_twin hs' hf _
    | ok v =>
      have hclose := blind_closed.rules.closeCompiled base v hs'
      dsimp only
      generalize closeCompiled base v s' = r₁ at hclose
      generalize closeCompiled base v t' = r₂ at hclose
      cases hclose with
      | ok hv hs' =>
        subst hv
        exact leave_twin hs' hf _
      | error hs' => exact leave_twin hs' hf _

theorem enter_twin (index : Nat) :
    TwinStates m₁.arena m₂.arena (enter m₁ index s depth fs) (enter m₂ index t depth gs) := by
  unfold enter
  rw [← hm.maxDepth]
  by_cases hdepth : m₁.maxDepth ≤ depth
  · rw [if_pos hdepth, if_pos hdepth]
    exact ⟨hs, rfl, hf, .deliver _⟩
  · rw [if_neg hdepth, if_neg hdepth]
    rw [← hm.compiled]
    cases hfunction : m₁.compiled[index]?.join with
    | none =>
      have hopen := openFrame_twin hm.arena index (depth + 1) hs
      dsimp only
      generalize openFrame m₁.arena index (depth + 1) s = r₁ at hopen
      generalize openFrame m₂.arena index (depth + 1) t = r₂ at hopen
      cases hopen with
      | ok h hs' => exact ⟨hs', rfl, hf, .execute h⟩
      | error hs' => exact leave_twin hs' hf _
    | some function =>
      have hopen := openCompiled_twin hm.arena index hs
      dsimp only
      generalize openCompiled m₁.arena index s = r₁ at hopen
      generalize openCompiled m₂.arena index t = r₂ at hopen
      cases hopen with
      | error hs' => exact leave_twin hs' hf _
      | @ok x _ _ _ hx hs' =>
        subst hx
        have hp := hm.functions index function hfunction x.2
        exact runCompiled_twin hm hs' hf x.1 hp

theorem dispatch_twin (h : x.Alike m₁.arena m₂.arena y) (op : Opcode) (operand : Int) :
    TwinStates m₁.arena m₂.arena (dispatch m₁ x op operand s depth fs)
      (dispatch m₂ y op operand t depth gs) := by
  by_cases hcall : op = .functionCall
  · subst hcall
    exact ⟨hs, rfl, .cons (.interpreted (h.advance 0)) hf, .enter _⟩
  by_cases hreturn : op = .functionReturn
  · subst hreturn
    have hclose := blind_closed.rules.closeFrame y hs
    simp only [dispatch, closeFrame_eq h]
    generalize closeFrame y s = r₁ at hclose
    generalize closeFrame y t = r₂ at hclose
    cases hclose with
    | ok hv hs' =>
      subst hv
      exact leave_twin hs' hf _
    | error hs' => exact leave_twin hs' hf _
  by_cases hprimitive : op = .primitiveCall
  · subst hprimitive
    simp only [dispatch, ← hm.primitives]
    cases hp : m₁.primitives[operand.toNat]? with
    | none => exact leave_twin hs hf _
    | some p =>
      have hp' := hm.programs p (List.mem_of_getElem? hp)
      exact runPrimitive_twin hm hs hf hp' (h.advance 0)
  · rw [dispatch_of_stays ⟨hcall, hreturn, hprimitive⟩,
      dispatch_of_stays ⟨hcall, hreturn, hprimitive⟩, perform_eq hm.arena h]
    have hperform := blind_closed.rules.perform m₂.arena y op operand hs
    generalize perform m₂.arena y op operand s = r₁ at hperform
    generalize perform m₂.arena y op operand t = r₂ at hperform
    cases hperform with
    | ok hoffset hs' =>
      subst hoffset
      exact ⟨hs', rfl, hf, .execute (h.advance _)⟩
    | error hs' => exact leave_twin hs' hf _

theorem execute_twin (h : x.Alike m₁.arena m₂.arena y) :
    TwinStates m₁.arena m₂.arena (execute m₁ x s depth fs) (execute m₂ y t depth gs) := by
  unfold execute
  rw [h.fetch]
  cases y.fetch m₂.arena with
  | error f => exact leave_twin hs hf _
  | ok fetched =>
    obtain ⟨log₁, h₁⟩ := report_eq m₁ x fetched.1 s
    obtain ⟨log₂, h₂⟩ := report_eq m₂ y fetched.1 t
    have hs' : Store.Like { s with log := log₁ } { t with log := log₂ } :=
      ⟨hs.stack, hs.heap, hs.output⟩
    simp only [h₁, h₂]
    exact dispatch_twin hm hs' hf h _ _

theorem deliver_twin (outcome : Except Fault Value) {f g : Frame}
    (hfg : TwinFrames m₁.arena m₂.arena f g) :
    TwinStates m₁.arena m₂.arena (deliver m₁ outcome s depth fs f)
      (deliver m₂ outcome t depth gs g) := by
  cases hfg with
  | primitive h hn => exact runPrimitive_twin hm hs hf (hn outcome) h
  | compiled base hn => exact runCompiled_twin hm hs hf base (hn outcome)
  | interpreted h =>
    cases outcome with
    | error f => exact leave_twin hs hf _
    | ok v =>
      have hpush := blind_liftStack (Stack.push v) hs
      simp only [deliver]
      generalize liftStack (Stack.push v) s = r₁ at hpush
      generalize liftStack (Stack.push v) t = r₂ at hpush
      cases hpush with
      | ok _ hs' => exact ⟨hs', rfl, hf, .execute h⟩
      | error hs' => exact leave_twin hs' hf _

end Steps

theorem step_twin {m₁ m₂ : Setting} (hm : m₁.Twin m₂) {u v : State}
    (h : TwinStates m₁.arena m₂.arena u v) :
    Option.Rel (TwinStates m₁.arena m₂.arena) (step? m₁ u) (step? m₂ v) := by
  obtain ⟨s, depth, fs, control₁⟩ := u
  obtain ⟨t, _, gs, control₂⟩ := v
  obtain ⟨hs, hdepth, hf, hc⟩ := h
  cases hdepth
  cases hc with
  | enter index => exact .some (enter_twin hm hs hf index)
  | execute h => exact .some (execute_twin hm hs hf h)
  | deliver outcome =>
    cases hf with
    | nil => exact .none
    | cons hfg hf => exact .some (deliver_twin hm hs hf outcome hfg)

end Machine

end StackMachine
