import StackMachine.Proofs.Machine.Comparison

/-! The stack and the heap under comparison. Each operation of the store keeps stores in agreement;
an allocation and a collection do so for another renaming. -/

namespace StackMachine

namespace Comparison

open StackMachine.Action

variable {K : Comparison} {pairs : ObjectRef → ObjectRef → Prop} {fact : Heap → Prop}

section Stacks

variable {t₁ t₂ : Stack} {v₁ v₂ : Value}

theorem Stacks.getElem? (h : K.Stacks pairs t₁ t₂) (i : Nat) :
    Option.Rel (K.Values pairs) t₁.values[i]? t₂.values[i]? := by
  have hi := forall₂_getElem? h.values i
  rwa [Array.getElem?_toList, Array.getElem?_toList] at hi

theorem Stacks.back? (h : K.Stacks pairs t₁ t₂) :
    Option.Rel (K.Values pairs) t₁.values.back? t₂.values.back? := by
  rw [Array.back?_eq_getElem?, Array.back?_eq_getElem?, h.size]
  exact h.getElem? _

theorem Stacks.push (h : K.Stacks pairs t₁ t₂) (hv : K.Values pairs v₁ v₂) :
    K.Stacks pairs { t₁ with values := t₁.values.push v₁ }
      { t₂ with values := t₂.values.push v₂ } := by
  refine ⟨h.limit, ?_⟩
  simp only [Array.toList_push]
  exact List.rel_append h.values (.cons hv .nil)

theorem Stacks.take (h : K.Stacks pairs t₁ t₂) {xs₁ xs₂ : Array Value} (n : Nat)
    (h₁ : xs₁.toList = t₁.values.toList.take n) (h₂ : xs₂.toList = t₂.values.toList.take n) :
    K.Stacks pairs { t₁ with values := xs₁ } { t₂ with values := xs₂ } := by
  refine ⟨h.limit, ?_⟩
  rw [h₁, h₂]
  exact List.forall₂_take n h.values

theorem Stacks.pop (h : K.Stacks pairs t₁ t₂) :
    K.Stacks pairs { t₁ with values := t₁.values.pop } { t₂ with values := t₂.values.pop } := by
  refine h.take (t₁.values.size - 1) ?_ ?_
  · rw [Array.toList_pop, List.dropLast_eq_take, Array.length_toList]
  · rw [Array.toList_pop, List.dropLast_eq_take, Array.length_toList, h.size]

theorem Stacks.set (h : K.Stacks pairs t₁ t₂) (hv : K.Values pairs v₁ v₂) (i : Nat) :
    K.Stacks pairs { t₁ with values := t₁.values.setIfInBounds i v₁ }
      { t₂ with values := t₂.values.setIfInBounds i v₂ } := by
  refine ⟨h.limit, ?_⟩
  simp only [Array.toList_setIfInBounds]
  exact forall₂_set h.values hv i

end Stacks

theorem Stores.withStack {s₁ s₂ : Store} {t₁ t₂ : Stack} (h : K.Stores pairs fact s₁ s₂)
    (ht : K.Stacks pairs t₁ t₂) :
    K.Stores pairs fact { s₁ with stack := t₁ } { s₂ with stack := t₂ } :=
  ⟨ht, h.heap, h.fact, h.output⟩

section StackActions

variable (hK : K.Lawful) {v₁ v₂ : Value}
include hK

theorem push_alike (hv : K.Values pairs v₁ v₂) :
    K.Alike (K.Stores pairs fact) (liftStack (Stack.push v₁)) (liftStack (Stack.push v₂))
      (K.Returns pairs fact fun _ _ => True) := by
  intro s₁ s₂ hs
  have hsize : s₁.stack.height = s₂.stack.height := hs.stack.size
  have hlimit := hs.stack.limit
  simp only [liftStack, Stack.push, hsize, hlimit]
  by_cases hroom : s₂.stack.height < s₂.stack.limit
  · simp only [if_pos hroom]
    have hpush := hs.stack.push hv
    rw [hlimit] at hpush
    exact .ok ⟨trivial, hs.withStack hpush⟩
  · simp only [if_neg hroom]
    exact .error (hK.ordinary rfl) hs.kept

theorem pop_alike :
    K.Alike (K.Stores pairs fact) (liftStack Stack.pop) (liftStack Stack.pop)
      (K.Returns pairs fact (K.Values pairs)) := by
  intro s₁ s₂ hs
  have hback := hs.stack.back?
  simp only [liftStack, Stack.pop]
  generalize s₁.stack.values.back? = x₁ at hback
  generalize s₂.stack.values.back? = x₂ at hback
  cases hback with
  | some hv => exact .ok ⟨hv, hs.withStack hs.stack.pop⟩
  | none => exact .error (hK.ordinary rfl) hs.kept

theorem peek_alike :
    K.Alike (K.Stores pairs fact) (liftStack Stack.peek) (liftStack Stack.peek)
      (K.Returns pairs fact (K.Values pairs)) := by
  intro s₁ s₂ hs
  have hback := hs.stack.back?
  simp only [liftStack, Stack.peek]
  generalize s₁.stack.values.back? = x₁ at hback
  generalize s₂.stack.values.back? = x₂ at hback
  cases hback with
  | some hv => exact .ok ⟨hv, hs⟩
  | none => exact .error (hK.ordinary rfl) hs.kept

theorem pushZeros_alike (n : Nat) :
    K.Alike (K.Stores pairs fact) (liftStack (Stack.pushZeros n)) (liftStack (Stack.pushZeros n))
      (K.Returns pairs fact fun _ _ => True) := by
  intro s₁ s₂ hs
  have hsize : s₁.stack.height = s₂.stack.height := hs.stack.size
  have hlimit := hs.stack.limit
  simp only [liftStack, Stack.pushZeros, hsize, hlimit]
  by_cases hroom : n ≤ s₂.stack.limit - s₂.stack.height
  · simp only [if_pos hroom]
    have hzero : K.Values pairs .zero .zero := .word rfl (hK.int 0)
    refine .ok ⟨trivial, hs.withStack ⟨rfl, ?_⟩⟩
    simp only [Array.toList_append, Array.toList_replicate]
    refine List.rel_append hs.stack.values (List.forall₂_same.2 fun v hv => ?_)
    rw [List.eq_of_mem_replicate hv]
    exact hzero
  · simp only [if_neg hroom]
    exact .error (hK.ordinary rfl) hs.kept

theorem restore_alike (cursor : Nat) :
    K.Alike (K.Stores pairs fact) (liftStack (Stack.restore cursor))
      (liftStack (Stack.restore cursor)) (K.Returns pairs fact fun _ _ => True) := by
  intro s₁ s₂ hs
  have hsize : s₁.stack.height = s₂.stack.height := hs.stack.size
  simp only [liftStack, Stack.restore, hsize]
  by_cases hroom : cursor ≤ s₂.stack.height
  · simp only [if_pos hroom]
    exact .ok ⟨trivial, hs.withStack (hs.stack.take cursor (by simp) (by simp))⟩
  · simp only [if_neg hroom]
    exact .error (hK.ordinary rfl) hs.kept

theorem get_alike (i : Nat) :
    K.Alike (K.Stores pairs fact) (liftStack (Stack.get i)) (liftStack (Stack.get i))
      (K.Returns pairs fact (K.Values pairs)) := by
  intro s₁ s₂ hs
  have hi := hs.stack.getElem? i
  simp only [liftStack, Stack.get]
  generalize s₁.stack.values[i]? = x₁ at hi
  generalize s₂.stack.values[i]? = x₂ at hi
  cases hi with
  | some hv => exact .ok ⟨hv, hs⟩
  | none => exact .error (hK.ordinary rfl) hs.kept

theorem set_alike (i : Nat) (hv : K.Values pairs v₁ v₂) :
    K.Alike (K.Stores pairs fact) (liftStack (Stack.set i v₁)) (liftStack (Stack.set i v₂))
      (K.Returns pairs fact fun _ _ => True) := by
  intro s₁ s₂ hs
  have hsize : s₁.stack.height = s₂.stack.height := hs.stack.size
  simp only [liftStack, Stack.set, hsize]
  by_cases hroom : i < s₂.stack.height
  · simp only [if_pos hroom]
    exact .ok ⟨trivial, hs.withStack (hs.stack.set hv i)⟩
  · simp only [if_neg hroom]
    exact .error (hK.ordinary rfl) hs.kept

end StackActions

end Comparison

end StackMachine
