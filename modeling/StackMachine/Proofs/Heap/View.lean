import StackMachine.Heap.Collect

/-! The heap as its handles see it. Two heaps with the same answers of `resolve?` and the same
layouts cannot be told apart by field access, so the effect of every operation is stated on
these. Marks are not part of that view: `clear` takes them off. -/

namespace StackMachine

theorem HeapObject.mem_refs {o : HeapObject} {r : ObjectRef} :
    r ∈ o.refs ↔ Value.ref r ∈ o.fields := by
  simp only [HeapObject.refs, List.mem_filterMap, Array.mem_toList_iff]
  constructor
  · rintro ⟨v, hv, hr⟩
    cases v <;> simp_all [Value.asRef?]
  · intro hr
    exact ⟨_, hr, rfl⟩

def HeapObject.clear (o : HeapObject) : HeapObject := { o with marked := false }

def Slot.clear (s : Slot) : Slot := { s with object := s.object.map HeapObject.clear }

namespace Heap

theorem resolve?_eq_some_iff {h : Heap} {r : ObjectRef} {o : HeapObject} :
    h.resolve? r = some o ↔ h.slots[r.index.toNat]? = some ⟨r.generation, some o⟩ := by
  unfold resolve?
  cases hs : h.slots[r.index.toNat]? with
  | none => simp
  | some s =>
    obtain ⟨g, x⟩ := s
    by_cases hg : g = r.generation <;> simp [hg]

@[simp] theorem layouts_setObject (h : Heap) (i : UInt32) (o : HeapObject) :
    (h.setObject i o).layouts = h.layouts := by
  unfold setObject; split <;> rfl

@[simp] theorem gray_setObject (h : Heap) (i : UInt32) (o : HeapObject) :
    (h.setObject i o).gray = h.gray := by
  unfold setObject; split <;> rfl

@[simp] theorem free_setObject (h : Heap) (i : UInt32) (o : HeapObject) :
    (h.setObject i o).free = h.free := by
  unfold setObject; split <;> rfl

@[simp] theorem live_setObject (h : Heap) (i : UInt32) (o : HeapObject) :
    (h.setObject i o).live = h.live := by
  unfold setObject; split <;> rfl

@[simp] theorem size_setObject (h : Heap) (i : UInt32) (o : HeapObject) :
    (h.setObject i o).slots.size = h.slots.size := by
  unfold setObject; split <;> simp

theorem getElem?_setObject (h : Heap) (i : UInt32) (o : HeapObject) (j : Nat) :
    (h.setObject i o).slots[j]? =
      if i.toNat = j then h.slots[j]?.map fun s => ⟨s.generation, some o⟩ else h.slots[j]? := by
  unfold setObject
  split
  next hi =>
    simp only [Array.getElem?_set]
    by_cases hj : i.toNat = j
    · subst hj; simp [hi]
    · simp [hj]
  next hi =>
    by_cases hj : i.toNat = j
    · subst hj; simp [Array.getElem?_eq_none (Nat.le_of_not_lt hi)]
    · simp [hj]

theorem resolve?_setObject {h : Heap} {r : ObjectRef} {o : HeapObject}
    (hr : h.resolve? r = some o) (o' : HeapObject) (q : ObjectRef) :
    (h.setObject r.index o').resolve? q = if q = r then some o' else h.resolve? q := by
  have hs := resolve?_eq_some_iff.1 hr
  by_cases hi : q.index = r.index
  · have hslot : (h.setObject r.index o').slots[r.index.toNat]? = some ⟨r.generation, some o'⟩ := by
      simp [getElem?_setObject, hs]
    by_cases hq : q = r
    · subst hq
      simpa using resolve?_eq_some_iff.2 hslot
    · have hg : r.generation ≠ q.generation := by
        intro hg
        apply hq
        cases q; cases r; simp_all
      simp [resolve?, hslot, hi, hs, hq, hg]
  · have hq : q ≠ r := fun he => hi (he ▸ rfl)
    have hj : r.index.toNat ≠ q.index.toNat := fun he => hi (UInt32.toNat_inj.1 he).symm
    simp [resolve?, getElem?_setObject, hj, hq]

/-- The heap as it is outside a collection. -/
def clear (h : Heap) : Heap := { h with slots := h.slots.map Slot.clear, gray := [] }

theorem clear_eq_self_iff {h : Heap} :
    h.clear = h ↔ h.slots.map Slot.clear = h.slots ∧ h.gray = [] := by
  constructor
  · intro hc
    exact ⟨congrArg slots hc, (congrArg gray hc).symm⟩
  · rintro ⟨hs, hg⟩
    rw [clear, hs, ← hg]

theorem resolve?_clear (h : Heap) (r : ObjectRef) :
    h.clear.resolve? r = (h.resolve? r).map HeapObject.clear := by
  unfold resolve?
  simp only [clear, Array.getElem?_map]
  cases h.slots[r.index.toNat]? with
  | none => rfl
  | some s =>
    by_cases hg : s.generation = r.generation <;> simp [Slot.clear, hg]

theorem clear_setObject_marked {h : Heap} {r : ObjectRef} {o : HeapObject}
    (hr : h.resolve? r = some o) :
    (h.setObject r.index { o with marked := true }).clear = h.clear := by
  obtain ⟨hi, hg, ho⟩ := exists_slot_of_resolve? hr
  have hi' : r.index.toNat < (h.slots.map Slot.clear).size := by simpa using hi
  have hs : Slot.clear ⟨h.slots[r.index.toNat].generation, some { o with marked := true }⟩ =
      (h.slots.map Slot.clear)[r.index.toNat] := by
    simp [Slot.clear, HeapObject.clear, ho]
  simp only [setObject, hi, dif_pos, clear, Array.map_set]
  rw [hs, Array.set_getElem_self]

@[simp] theorem clear_markGray (h : Heap) (r : ObjectRef) : (h.markGray r).clear = h.clear := by
  unfold markGray
  split
  next o ho =>
    split
    next => rfl
    next => exact clear_setObject_marked ho
  next => rfl

end Heap

end StackMachine
