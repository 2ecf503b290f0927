import StackMachine.Proofs.Heap.Marking

/-! Values in the fields of objects. What all of them have in common is kept by every operation that
puts no other value into a field; nothing else needs to be known of the heap, which may be a broken
one. -/

namespace StackMachine

def Slot.Holds (P : Value → Prop) (s : Slot) : Prop := ∀ o, s.object = some o → ∀ v ∈ o.fields, P v

namespace Heap

/-- Every value in a field of an object has the property. -/
def Holds (P : Value → Prop) (h : Heap) : Prop := ∀ s ∈ h.slots, s.Holds P

variable {P : Value → Prop} {h : Heap}

theorem Holds.resolve? (hh : h.Holds P) {r : ObjectRef} {o : HeapObject}
    (ho : h.resolve? r = some o) : ∀ v ∈ o.fields, P v :=
  hh _ (Array.mem_of_getElem? (resolve?_eq_some_iff.1 ho)) o rfl

theorem Holds.of_slots (hh : h.Holds P) {h' : Heap} (hslots : h'.slots = h.slots) : h'.Holds P := by
  rwa [Holds, hslots]

theorem Holds.setObject (hh : h.Holds P) (i : UInt32) {o : HeapObject} (ho : ∀ v ∈ o.fields, P v) :
    (h.setObject i o).Holds P := by
  intro s hs
  obtain ⟨j, hj⟩ := Array.mem_iff_getElem?.1 hs
  rw [getElem?_setObject] at hj
  split at hj
  · obtain ⟨t, -, rfl⟩ := Option.map_eq_some_iff.1 hj
    rintro _ ⟨⟩
    exact ho
  · exact hh s (Array.mem_of_getElem? hj)

/-- Marks do not count. -/
theorem holds_clear : h.clear.Holds P ↔ h.Holds P := by
  have hslot : ∀ s : Slot, s.clear.Holds P ↔ s.Holds P := by
    rintro ⟨g, _ | o⟩
    · exact Iff.rfl
    · simp [Slot.Holds, Slot.clear, HeapObject.clear]
  simp only [Holds, clear, Array.forall_mem_map, hslot]

theorem clear_foldl_markGray (rs : List ObjectRef) (h : Heap) :
    (rs.foldl markGray h).clear = h.clear := by
  induction rs generalizing h with
  | nil => rfl
  | cons r rs ih => rw [List.foldl_cons, ih, clear_markGray]

theorem clear_propagate (h : Heap) : h.propagate.clear = h.clear := by
  induction h using propagate.induct with
  | case1 h hg => rw [propagate_of_nil hg]
  | case2 h r rest hg h' o ho ih => rw [propagate_of_some hg ho, ih, clear_foldl_markGray]; rfl
  | case3 h r rest hg h' hn ih => rw [propagate_of_none hg hn, ih]; rfl

theorem Holds.mark (hh : h.Holds P) (roots : Array Value) : (h.mark roots).Holds P := by
  rw [← holds_clear, Heap.mark, clear_propagate, clear_foldl_markGray, holds_clear]
  exact hh

theorem Holds.sweep (hh : h.Holds P) : h.sweep.Holds P := by
  have hslot : ∀ s : Slot, s.Holds P → s.sweep.Holds P := by
    rintro ⟨g, _ | o⟩ hs
    · exact hs
    · unfold Slot.sweep
      dsimp only
      split
      · rintro _ ⟨⟩
        exact hs o rfl
      · exact nofun
  simp only [Holds, Heap.sweep, Array.forall_mem_map]
  exact fun s hs => hslot s (hh s hs)

theorem Holds.collect (hh : h.Holds P) (roots : Array Value) : (h.collect roots).2.Holds P :=
  (hh.mark roots).sweep

theorem Holds.place (hh : h.Holds P) : h.place.2.Holds P := by
  unfold Heap.place
  split
  · exact (hh.setObject _ (by simp)).of_slots rfl
  · intro s hs
    rcases Array.mem_push.1 hs with hs | rfl
    · exact hh s hs
    · rintro _ ⟨⟩
      simp

theorem Holds.allocate (hh : h.Holds P) (roots : Array Value) :
    (h.allocate roots).2.1.Holds P := by
  have hroom : (h.makeRoom roots).1.Holds P := by
    unfold Heap.makeRoom
    split
    · exact hh.collect roots
    · exact hh
  exact hroom.place

theorem Holds.setField (hh : h.Holds P) {r : ObjectRef} {slot : Nat} {v : Value} {u : Unit}
    {h' : Heap} (hv : P v) (hset : Heap.setField r slot v h = .ok u h') : h'.Holds P := by
  unfold Heap.setField at hset
  split at hset
  · cases hset
  next o ho =>
    split at hset
    · cases hset
      refine hh.setObject _ fun w hw => ?_
      rcases Array.mem_or_eq_of_mem_setIfInBounds hw with hw | rfl
      · exact hh.resolve? ho w hw
      · exact hv
    · cases hset

theorem setField_error {r : ObjectRef} {slot : Nat} {v : Value} {e : MemoryError} {h' : Heap}
    (hset : Heap.setField r slot v h = .error e h') : h' = h := by
  unfold Heap.setField at hset
  split at hset
  · cases hset
    rfl
  · split at hset <;> cases hset
    rfl

theorem Holds.addField (hh : h.Holds P) {r : ObjectRef} {id : FieldId} {slot : Nat} {h' : Heap}
    (hzero : P .zero) (hadd : Heap.addField r id h = .ok slot h') : h'.Holds P := by
  unfold Heap.addField at hadd
  split at hadd
  · cases hadd
  next o ho =>
    split at hadd
    · cases hadd
      exact hh
    · cases hadd
      have hslots : (h.extendLayout o.layout id).2.slots = h.slots := by
        unfold extendLayout
        dsimp only
        split <;> rfl
      refine (hh.of_slots hslots).setObject _ fun v hv => ?_
      rcases Array.mem_push.1 hv with hv | rfl
      · exact hh.resolve? ho v hv
      · exact hzero

theorem addField_error {r : ObjectRef} {id : FieldId} {e : MemoryError} {h' : Heap}
    (hadd : Heap.addField r id h = .error e h') : h' = h := by
  unfold Heap.addField at hadd
  split at hadd
  · cases hadd
    rfl
  · split at hadd <;> cases hadd

theorem Holds.getField (hh : h.Holds P) {r : ObjectRef} {slot : Nat} {v : Value}
    (hv : h.getField r slot = .ok v) : P v := by
  unfold Heap.getField object at hv
  cases ho : h.resolve? r with
  | none =>
    rw [ho] at hv
    cases hv
  | some o =>
    simp only [ho, bind, Except.bind] at hv
    split at hv
    next w hw =>
      cases hv
      exact hh.resolve? ho _ (Array.mem_of_getElem? hw)
    · cases hv

end Heap

end StackMachine
