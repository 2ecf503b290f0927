import StackMachine.Proofs.Heap.Renaming
import StackMachine.Proofs.Machine.Actions

/-! Two runs side by side. A comparison says what the two runs may differ in and which faults may
end them; `Lawful` lists what has to be known about the code for the runs to keep in step. Stacks
and heaps are the same up to a renaming of handles. Actions are compared by what they make of
stores that agree. -/

namespace StackMachine

/-- Code of any kind can come to such an end. -/
def Fault.isOrdinary : Fault → Bool
  | .typeMismatch .. | .notAnOperator _ | .divisionByZero | .stackUnderflow | .stackOverflow _
  | .invalidRestore .. | .notImplemented _ | .callDepthExceeded _ | .missingField _ | .output _ =>
    true
  | _ => false

/-- The distances that an instruction may jump before the same activation goes on. -/
def Opcode.Lands : Opcode → Int → Int → Prop
  | .jump, operand, offset => offset = operand
  | .branch _, operand, offset => offset = 0 ∨ offset = operand
  | .functionReturn, _, _ | .callIndirect, _, _ | .endSection, _, _ => False
  | _, _, offset => offset = 0

/-- Both fail with one allowed error, or neither does. -/
inductive Agree {ε α β : Type} (R : α → β → Prop) (allowed : ε → Prop) :
    Except ε α → Except ε β → Prop
  | ok {a : α} {b : β} : R a b → Agree R allowed (.ok a) (.ok b)
  | error {e : ε} : allowed e → Agree R allowed (.error e) (.error e)

structure Comparison where
  left : Setting
  right : Setting
  /-- Values other than handles that may occur. -/
  word : Value → Prop
  /-- Activations that can stand opposite each other. -/
  code : Activation → Activation → Prop
  entry : Nat → Prop
  allowed : Fault → Prop
  outputs : Output → Output → Prop
  /-- Both runs have the same heap, and no handle is renamed. -/
  rigid : Prop

namespace Comparison

variable (K : Comparison)

/-- What is asked of the operand of an instruction. -/
def Operand (a₁ a₂ : Activation) (operand : Int) : Opcode → Prop
  | .functionCall => K.entry operand.toNat
  | .primitiveCall => operand.toNat < 3 ∨ K.allowed (.unknownPrimitive operand.toNat 3)
  | .pushLocal | .popLocal =>
    Agree Eq K.allowed (a₁.localSlot operand.toNat) (a₂.localSlot operand.toNat)
  | .pushParam | .popParam =>
    Agree Eq K.allowed (a₁.paramSlot operand.toNat) (a₂.paramSlot operand.toNat)
  | .pushString => K.word (.string (.ofNat operand.toNat))
  | .endSection =>
    a₁.function.name = a₂.function.name ∧ a₁.ip = a₂.ip ∧
      K.allowed (.unknownOpcode a₁.function.name a₁.ip.toNat Opcode.endSection.byte)
  | _ => True

/-- Both activations are at the same instruction, and go on at instructions that correspond. -/
structure Fetched (a₁ a₂ : Activation) (x₁ x₂ : Instruction × Opcode × Int) : Prop where
  decoded : x₁.2 = x₂.2
  base : a₁.base = a₂.base
  operand : K.Operand a₁ a₂ x₁.2.2 x₁.2.1
  lands : ∀ offset, x₁.2.1.Lands x₁.2.2 offset → K.code (a₁.advance offset) (a₂.advance offset)

/-- Both functions make the same frame, and their code corresponds. -/
structure Opened (f₁ f₂ : FuncRecord) : Prop where
  nparams : f₁.nparams = f₂.nparams
  nlocals : f₁.nlocals = f₂.nlocals
  code : ∀ base, K.code ⟨f₁, base, 0⟩ ⟨f₂, base, 0⟩

structure Lawful : Prop where
  ordinary : ∀ {f : Fault}, f.isOrdinary → K.allowed f
  int : ∀ n, K.word (.int n)
  text : ∀ {n : UInt64}, K.word (.uint48 n) → Agree Eq (fun e => K.allowed (.module e))
    (K.left.arena.string n.toNat) (K.right.arena.string n.toNat)
  fetch : ∀ {a₁ a₂ : Activation}, K.code a₁ a₂ →
    Agree (K.Fetched a₁ a₂) K.allowed (a₁.fetch K.left.arena) (a₂.fetch K.right.arena)
  entry : ∀ {i : Nat}, K.entry i → Agree K.Opened (fun e => K.allowed (.module e))
    (K.left.arena.functionRecord i) (K.right.arena.functionRecord i)
  write : ∀ {o₁ o₂ : Output}, K.outputs o₁ o₂ → ∀ bytes,
    (o₁.write bytes).1 = (o₂.write bytes).1 ∧ K.outputs (o₁.write bytes).2 (o₂.write bytes).2
  depth : K.left.maxDepth = K.right.maxDepth
  primitives : K.left.primitives = .standard ∧ K.right.primitives = .standard
  interpreted : ∀ i : Nat, K.left.compiled[i]?.join = none ∧ K.right.compiled[i]?.join = none

abbrev Values (pairs : ObjectRef → ObjectRef → Prop) : Value → Value → Prop :=
  Value.Renamed K.word pairs

structure Stacks (pairs : ObjectRef → ObjectRef → Prop) (t₁ t₂ : Stack) : Prop where
  limit : t₁.limit = t₂.limit
  values : List.Forall₂ (K.Values pairs) t₁.values.toList t₂.values.toList

structure Heaps (pairs : ObjectRef → ObjectRef → Prop) (h₁ h₂ : Heap) : Prop where
  sound₁ : h₁.Sound
  sound₂ : h₂.Sound
  renamed : Heap.Renaming K.word pairs h₁ h₂
  rigid : K.rigid → h₁ = h₂ ∧ ∀ r₁ r₂, pairs r₁ r₂ → r₁ = r₂

/-- The stores agree; `fact` is something more that is known of the left heap. -/
structure Stores (pairs : ObjectRef → ObjectRef → Prop) (fact : Heap → Prop) (s₁ s₂ : Store) :
    Prop where
  stack : K.Stacks pairs s₁.stack s₂.stack
  heap : K.Heaps pairs s₁.heap s₂.heap
  fact : fact s₁.heap
  output : K.outputs s₁.output s₂.output

/-- What is left to say of the stores after a fault. -/
def Kept (s₁ s₂ : Store) : Prop :=
  ∃ pairs, K.Heaps pairs s₁.heap s₂.heap ∧ K.outputs s₁.output s₂.output

inductive Results {α β : Type} (Q : α → β → Store → Store → Prop) :
    EStateM.Result Fault Store α → EStateM.Result Fault Store β → Prop
  | ok {a : α} {b : β} {s₁ s₂ : Store} : Q a b s₁ s₂ → Results Q (.ok a s₁) (.ok b s₂)
  | error {f : Fault} {s₁ s₂ : Store} :
      K.allowed f → K.Kept s₁ s₂ → Results Q (.error f s₁) (.error f s₂)

/-- In stores that `P` relates, the actions have results that correspond. -/
def Alike {α β : Type} (P : Store → Store → Prop) (x₁ : Action α) (x₂ : Action β)
    (Q : α → β → Store → Store → Prop) : Prop :=
  ∀ ⦃s₁ s₂ : Store⦄, P s₁ s₂ → K.Results Q (x₁ s₁) (x₂ s₂)

def Returns {α β : Type} (pairs : ObjectRef → ObjectRef → Prop) (fact : Heap → Prop)
    (R : α → β → Prop) (a : α) (b : β) (s₁ s₂ : Store) : Prop :=
  R a b ∧ K.Stores pairs fact s₁ s₂

variable {K} {pairs : ObjectRef → ObjectRef → Prop} {fact : Heap → Prop}

theorem Stores.kept {s₁ s₂ : Store} (h : K.Stores pairs fact s₁ s₂) : K.Kept s₁ s₂ :=
  ⟨pairs, h.heap, h.output⟩

theorem Stacks.size {t₁ t₂ : Stack} (h : K.Stacks pairs t₁ t₂) :
    t₁.values.size = t₂.values.size := by
  have hlen := h.values.length_eq
  rwa [Array.length_toList, Array.length_toList] at hlen

section Rules

variable {α β γ δ : Type} {P P' : Store → Store → Prop}

theorem Alike.mono {x₁ : Action α} {x₂ : Action β} {Q Q' : α → β → Store → Store → Prop}
    (hx : K.Alike P x₁ x₂ Q) (hP : ∀ s₁ s₂, P' s₁ s₂ → P s₁ s₂)
    (hQ : ∀ a b s₁ s₂, Q a b s₁ s₂ → Q' a b s₁ s₂) : K.Alike P' x₁ x₂ Q' := by
  intro s₁ s₂ hs
  have hr := hx (hP _ _ hs)
  generalize x₁ s₁ = r₁ at hr ⊢
  generalize x₂ s₂ = r₂ at hr ⊢
  cases hr with
  | ok hq => exact .ok (hQ _ _ _ _ hq)
  | error hf hk => exact .error hf hk

theorem Alike.seq {x₁ : Action α} {x₂ : Action β} {f₁ : α → Action γ} {f₂ : β → Action δ}
    {Q : α → β → Store → Store → Prop} {Q' : γ → δ → Store → Store → Prop}
    (hx : K.Alike P x₁ x₂ Q) (hf : ∀ a b, K.Alike (Q a b) (f₁ a) (f₂ b) Q') :
    K.Alike P (x₁ >>= f₁) (x₂ >>= f₂) Q' := by
  intro s₁ s₂ hs
  have hr := hx hs
  simp only [Bind.bind, EStateM.bind]
  generalize x₁ s₁ = r₁ at hr
  generalize x₂ s₂ = r₂ at hr
  cases hr with
  | ok hq => exact hf _ _ hq
  | error hf hk => exact .error hf hk

theorem Alike.bind {x₁ : Action α} {x₂ : Action β} {f₁ : α → Action γ} {f₂ : β → Action δ}
    {R : α → β → Prop} {Q : γ → δ → Store → Store → Prop}
    (hx : K.Alike P x₁ x₂ (K.Returns pairs fact R))
    (hf : ∀ a b, R a b → K.Alike (K.Stores pairs fact) (f₁ a) (f₂ b) Q) :
    K.Alike P (x₁ >>= f₁) (x₂ >>= f₂) Q :=
  hx.seq fun a b _ _ hs => hf a b hs.1 hs.2

theorem Alike.pure {a : α} {b : β} {R : α → β → Prop} (h : R a b) :
    K.Alike (K.Stores pairs fact) (Pure.pure a) (Pure.pure b) (K.Returns pairs fact R) :=
  fun _ _ hs => .ok ⟨h, hs⟩

theorem Alike.throw {f : Fault} {Q : α → β → Store → Store → Prop} (hf : K.allowed f) :
    K.Alike (K.Stores pairs fact) (throw f) (throw f) Q :=
  fun _ _ hs => .error hf hs.kept

theorem Alike.ofExcept {r₁ : Except Fault α} {r₂ : Except Fault β} {R : α → β → Prop}
    (h : Agree R K.allowed r₁ r₂) :
    K.Alike (K.Stores pairs fact) (MonadExcept.ofExcept r₁) (MonadExcept.ofExcept r₂)
      (K.Returns pairs fact R) := by
  cases h with
  | ok h => exact Alike.pure h
  | error h => exact Alike.throw h

end Rules

end Comparison

end StackMachine
