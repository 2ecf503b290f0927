import StackMachine.Proofs.Machine.Instructions

/-! The standard primitives under comparison. None of them calls back, so each does what an action
on the store does. Only the listing of the whole stack shows the names of objects. -/

namespace StackMachine

namespace Program

/-- The program runs to its end at once, with the results of the action. -/
def Does {α : Type} (module : Module) (arena : Arena) (depth : Nat) (p : Program α)
    (act : Action α) : Prop :=
  ∀ s, p.advance module arena depth s = (.finished (attempt act s).1, (attempt act s).2)

variable {α β : Type} {module : Module} {arena : Arena} {depth : Nat}

theorem advance_bind (p : Program α) (f : α → Program β) (s : Store) :
    (p >>= f).advance module arena depth s =
      match p.advance module arena depth s with
      | (.finished (.ok a), s) => (f a).advance module arena depth s
      | (.finished (.error e), s) => (.finished (.error e), s)
      | (.calls index next, s) => (.calls index fun r => (next r).bind f, s) := by
  change (p.bind f).advance module arena depth s = _
  induction p generalizing s with
  | done result => cases result <;> rfl
  | call => rfl
  | view next ih => exact ih _ _
  | push v next ih => exact ih _ _
  | pop next ih => exact ih _ _
  | pushZeros n next ih => exact ih _ _
  | restore cursor next ih => exact ih _ _
  | set index v next ih => exact ih _ _
  | allocate roots next ih => exact ih _ _
  | addField r id next ih => exact ih _ _
  | setField r slot v next ih => exact ih _ _
  | collect roots next ih => exact ih _ _
  | write bytes next ih => exact ih _ _
  | flush next ih => exact ih _ _

theorem Does.bind {p : Program α} {act : Action α} {f : α → Program β} {g : α → Action β}
    (hp : p.Does module arena depth act) (hf : ∀ a, (f a).Does module arena depth (g a)) :
    (p >>= f).Does module arena depth (act >>= g) := by
  intro s
  rw [advance_bind, hp s]
  simp only [attempt, Bind.bind, EStateM.bind]
  cases act s with
  | ok a s' => exact hf a s'
  | error e s' => rfl

theorem does_popValue : popValue.Does module arena depth (Action.liftStack Stack.pop) :=
  fun _ => rfl

theorem does_pushValue (v : Value) :
    (pushValue v).Does module arena depth (Action.liftStack (Stack.push v)) := fun _ => rfl

theorem does_writeText (s : String) :
    (writeText s).Does module arena depth (Action.write (Image.textBytes s)) := fun _ => rfl

theorem does_fault (f : Fault) : (fault f : Program α).Does module arena depth (throw f) :=
  fun _ => rfl

theorem does_getView :
    getView.Does module arena depth fun s => .ok ⟨module, arena, depth, s.stack, s.heap⟩ s :=
  fun _ => rfl

theorem does_stringAt (index : Nat) :
    (stringAt index).Does module arena depth
      (MonadExcept.ofExcept ((arena.string index).mapError Fault.module)) := by
  intro s
  unfold stringAt
  rw [advance_bind, does_getView s]
  simp only [attempt]
  cases arena.string index <;> rfl

end Program

namespace Comparison

open StackMachine.Action Machine Program

variable {K : Comparison} {pairs : ObjectRef → ObjectRef → Prop} {fact : Heap → Prop}

/-- Whatever is written, both outputs take it or both refuse it. -/
def Tolerant (K : Comparison) : Prop :=
  ∀ {o₁ o₂}, K.outputs o₁ o₂ → ∀ bytes₁ bytes₂,
    (o₁.write bytes₁).1 = (o₂.write bytes₂).1 ∧ K.outputs (o₁.write bytes₁).2 (o₂.write bytes₂).2

def printString (arena : Arena) : Action Unit := do
  match ← liftStack Stack.pop with
  | .uint48 index =>
    let s ← ofExcept ((arena.string index.toNat).mapError Fault.module)
    write (Image.textBytes (s ++ "\n"))
    liftStack (Stack.push .zero)
  | v => throw (.typeMismatch .primitiveCall [.uint48] v.kind)

def printNumber : Action Unit := do
  match ← liftStack Stack.pop with
  | .int48 n =>
    write (Image.textBytes (toString n.toInt ++ "\n"))
    liftStack (Stack.push .zero)
  | v => throw (.typeMismatch .primitiveCall [.int48] v.kind)

def stackText (t : Stack) : String :=
  String.join (t.values.toList.zipIdx.map fun (v, position) => Primitive.stackLine position v)

def printStack : Action Unit := fun s =>
  (do write (Image.textBytes (stackText s.stack)); liftStack (Stack.push .zero) : Action Unit) s

theorem does_printString (module : Module) (arena : Arena) (depth : Nat) :
    Primitive.printString.Does module arena depth (printString arena) := by
  refine does_popValue.bind fun v => ?_
  cases v with
  | uint48 index =>
    refine (does_stringAt _).bind fun s => ?_
    exact (does_writeText _).bind fun _ => does_pushValue _
  | _ => exact does_fault _

theorem does_printNumber (module : Module) (arena : Arena) (depth : Nat) :
    Primitive.printNumber.Does module arena depth printNumber := by
  refine does_popValue.bind fun v => ?_
  cases v with
  | int48 n => exact (does_writeText _).bind fun _ => does_pushValue _
  | _ => exact does_fault _

theorem does_printStack (module : Module) (arena : Arena) (depth : Nat) :
    Primitive.printStack.Does module arena depth printStack :=
  fun s => ((does_writeText _).bind fun _ => does_pushValue _) s

section Alike

variable (hK : K.Lawful)
include hK

theorem writeLine_alike (text : String) :
    K.Alike (K.Stores pairs fact)
      (do write (Image.textBytes text); liftStack (Stack.push .zero))
      (do write (Image.textBytes text); liftStack (Stack.push .zero))
      (K.Returns pairs fact fun _ _ => True) :=
  (write_alike_of hK fun ho => hK.write ho _).bind fun _ _ _ => push_alike hK (int_self hK 0)

theorem printString_alike :
    K.Alike (K.Stores pairs fact) (printString K.left.arena) (printString K.right.arena)
      (K.Returns pairs fact fun _ _ => True) := by
  refine (pop_alike hK).bind fun v₁ v₂ hv => ?_
  cases hv with
  | ref => exact Alike.throw (hK.ordinary rfl)
  | word hn hw =>
    cases v₁ with
    | uint48 n =>
      have htext : Agree Eq K.allowed ((K.left.arena.string n.toNat).mapError Fault.module)
          ((K.right.arena.string n.toNat).mapError Fault.module) := by
        have h := hK.text hw
        generalize K.left.arena.string n.toNat = x₁ at h
        generalize K.right.arena.string n.toNat = x₂ at h
        cases h with
        | ok h => exact .ok h
        | error h => exact .error h
      refine (Alike.ofExcept htext).bind fun s₁ s₂ hs => ?_
      subst hs
      exact writeLine_alike hK _
    | ref r => cases hn
    | _ => exact Alike.throw (hK.ordinary rfl)

theorem printNumber_alike :
    K.Alike (K.Stores pairs fact) printNumber printNumber
      (K.Returns pairs fact fun _ _ => True) := by
  refine (pop_alike hK).bind fun v₁ v₂ hv => ?_
  cases hv with
  | ref => exact Alike.throw (hK.ordinary rfl)
  | word hn hw =>
    cases v₁ with
    | int48 n => exact writeLine_alike hK _
    | ref r => cases hn
    | _ => exact Alike.throw (hK.ordinary rfl)

theorem printStack_alike (h : K.rigid ∨ K.Tolerant) :
    K.Alike (K.Stores pairs fact) printStack printStack
      (K.Returns pairs fact fun _ _ => True) := by
  intro s₁ s₂ hs
  rcases h with hrigid | htolerant
  · have hstack := hs.stack.eq (hs.heap.rigid hrigid).2
    simp only [printStack, hstack]
    exact writeLine_alike hK _ hs
  · exact ((write_alike_of hK fun ho => htolerant ho _ _).bind fun _ _ _ =>
      push_alike hK (int_self hK 0)) hs

end Alike

end Comparison

end StackMachine
