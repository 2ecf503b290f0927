import StackMachine.Proofs.Heap.History
import StackMachine.Proofs.Machine.Invariants

/-! What a run does to the heap is a sequence of heap operations, whatever the code, the primitives
and the compiled functions are. So a run leaves a heap that can be reached, with no fewer slots
than before. -/

namespace StackMachine

namespace Heap

def Evolves (h h' : Heap) : Prop := ∃ operations, h' = List.foldl Operation.apply h operations

variable {h h' h'' : Heap}

theorem Evolves.refl (h : Heap) : h.Evolves h := ⟨[], rfl⟩

theorem Evolves.trans (h₁ : h.Evolves h') (h₂ : h'.Evolves h'') : h.Evolves h'' := by
  obtain ⟨ops₁, rfl⟩ := h₁
  obtain ⟨ops₂, rfl⟩ := h₂
  exact ⟨ops₁ ++ ops₂, List.foldl_append.symm⟩

theorem Evolves.apply (h : Heap) (op : Operation) : h.Evolves (op.apply h) := ⟨[op], rfl⟩

theorem Reachable.evolves (hh : h.Reachable) (he : h.Evolves h') : h'.Reachable := by
  obtain ⟨threshold, ops₁, rfl⟩ := hh
  obtain ⟨ops₂, rfl⟩ := he
  exact ⟨threshold, ops₁ ++ ops₂, List.foldl_append.symm⟩

theorem Evolves.size_le (he : h.Evolves h') (hr : h.Regular) : h.slots.size ≤ h'.slots.size := by
  obtain ⟨ops, rfl⟩ := he
  exact size_le_foldl hr ops

end Heap

namespace Action

def Evolves {α : Type} (act : Action α) : Prop :=
  ∀ s : Store, s.heap.Evolves (Program.attempt act s).2.heap

variable {α : Type}

theorem evolves_liftStack (act : StackOp α) : Evolves (liftStack act) := by
  intro s
  simp only [Program.attempt, liftStack]
  cases act s.stack <;> exact .refl _

theorem evolves_write (bytes : List UInt8) : Evolves (write bytes) := by
  intro s
  simp only [Program.attempt, write]
  rcases s.output.write bytes with ⟨_ | _, _⟩ <;> exact .refl _

theorem evolves_liftHeap {act : HeapOp α} {op : Heap.Operation}
    (h : ∀ heap, op.apply heap = Heap.left (act heap)) : Evolves (liftHeap act) := by
  intro s
  have hs := Heap.Evolves.apply s.heap op
  rw [h] at hs
  simp only [Program.attempt, liftHeap]
  cases hact : act s.heap <;> simpa only [hact, Heap.left] using hs

theorem evolves_addField (r : ObjectRef) (id : FieldId) : Evolves (addField r id) :=
  evolves_liftHeap fun _ => (rfl : Heap.Operation.apply _ (.addField r id) = _)

theorem evolves_setField (r : ObjectRef) (slot : Nat) (v : Value) :
    Evolves (setField r slot v) :=
  evolves_liftHeap fun _ => (rfl : Heap.Operation.apply _ (.setField r slot v) = _)

theorem Evolves.preserves {act : Action α} (h : Evolves act) (heap : Heap) :
    Preserves (fun s => heap.Evolves s.heap) act := fun s hs => hs.trans (h s)

theorem Evolves.of_ok {act : Action α} (h : Evolves act) {s t : Store} {a : α}
    (ha : act s = .ok a t) : s.heap.Evolves t.heap := by
  have hs := h s
  rwa [Program.attempt, ha] at hs

theorem Evolves.of_error {act : Action α} (h : Evolves act) {s t : Store} {f : Fault}
    (hf : act s = .error f t) : s.heap.Evolves t.heap := by
  have hs := h s
  rwa [Program.attempt, hf] at hs

theorem invariant_evolves (heap : Heap) : Store.Invariant fun s => heap.Evolves s.heap where
  push _ := (evolves_liftStack _).preserves heap
  pop := (evolves_liftStack _).preserves heap
  pushZeros _ := (evolves_liftStack _).preserves heap
  restore _ := (evolves_liftStack _).preserves heap
  set _ _ := (evolves_liftStack _).preserves heap
  allocate roots _ s hs := hs.trans (.apply s.heap (.allocate roots))
  addField r id := (evolves_addField r id).preserves heap
  setField r slot v := (evolves_setField r slot v).preserves heap
  collect roots _ s hs := hs.trans (.apply s.heap (.collect roots))
  write bytes := (evolves_write bytes).preserves heap
  log _ _ hs := hs

end Action

namespace Machine

variable {m : Setting} {t u : State}

theorem evolves_after {n : Nat} (h : after m n t = some u) :
    t.store.heap.Evolves u.store.heap :=
  (Action.invariant_evolves t.store.heap).after h (.refl _)

end Machine

end StackMachine
