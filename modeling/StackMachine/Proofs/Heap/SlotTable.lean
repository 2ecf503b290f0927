import StackMachine.Proofs.Heap.Contents

/-! The slot table. Free list, live counter, marks and layouts each say something of the slots that
another part of the heap says too. They agree after any operations, so the counter never falls
below what a collection takes off it, and a slot that a field is found in can be read and set. -/

namespace StackMachine

namespace Heap

/-- A slot that is there and holds no object. -/
def vacant (h : Heap) (n : Nat) : Bool := h.slots[n]?.any fun s => s.object.isNone

section Accounts

variable {h : Heap}

theorem lt_of_vacant {n : Nat} (hn : h.vacant n) : n < h.slots.size := by
  by_contra hge
  rw [vacant, Array.getElem?_eq_none (Nat.le_of_not_lt hge)] at hn
  cases hn

theorem vacant_iff {n : Nat} : h.vacant n ↔ ∃ g, h.slots[n]? = some ⟨g, none⟩ := by
  unfold vacant
  cases h.slots[n]? with
  | none => simp
  | some s =>
    obtain ⟨g, x⟩ := s
    cases x <;> simp

/-- Every number on the free list names a vacant slot, and every vacant slot has a number. -/
theorem Accounted.mem_free (ha : h.Accounted) {n : Nat} :
    n ∈ h.free.map UInt32.toNat ↔ h.vacant n := by
  rw [List.mem_map, vacant_iff]
  constructor
  · rintro ⟨i, hi, rfl⟩
    exact (ha.free i).1 hi
  · intro hn
    have hlt := Nat.lt_of_lt_of_le (lt_of_vacant (vacant_iff.2 hn)) ha.addressable
    have hi : (UInt32.ofNat n).toNat = n := UInt32.toNat_ofNat_of_lt' hlt
    exact ⟨UInt32.ofNat n, (ha.free _).2 (hi.symm ▸ hn), hi⟩

theorem Accounted.count_free (ha : h.Accounted) (n : Nat) :
    (h.free.map UInt32.toNat).count n = if h.vacant n then 1 else 0 := by
  have hnodup : (h.free.map UInt32.toNat).Nodup :=
    ha.nodup.map fun _ _ => UInt32.toNat_inj.1
  split
  next hn => exact List.count_eq_one_of_mem hnodup (ha.mem_free.2 hn)
  next hn => exact List.count_eq_zero.2 (mt ha.mem_free.1 hn)

/-- What a collection takes off the live counter is no more than the counter has. -/
theorem Accounted.collect_le (ha : h.Accounted) (hc : h.clear = h) (roots : Array Value) :
    (h.collect roots).1 ≤ h.live := by
  rw [ha.live, ← collect_add_ncard hc]
  exact Nat.le_add_right _ _

theorem Accounted.live_collect (ha : h.Accounted) (hc : h.clear = h) (roots : Array Value) :
    (h.collect roots).2.live + (h.collect roots).1 = h.live := by
  rw [(ha.collect hc roots).live, occupied_collect hc, Nat.add_comm, collect_add_ncard hc, ha.live]

end Accounts

section Objects

variable {h : Heap} {r : ObjectRef} {slot : Nat}

theorem Regular.marked_eq_false (hr : h.Regular) {n : Nat} {g : UInt32} {o : HeapObject}
    (ho : h.slots[n]? = some ⟨g, some o⟩) : o.marked = false := by
  have hclear := congrArg (·[n]?) (clear_eq_self_iff.1 hr.clear).1
  simp only [Array.getElem?_map, ho, Option.map_some, Option.some.injEq] at hclear
  have hobject : some o.clear = some o := congrArg Slot.object hclear
  exact (congrArg HeapObject.marked (Option.some.inj hobject)).symm

theorem contents_of_lookupField {id : FieldId} {answer : Option Nat}
    (hl : h.lookupField r id = .ok answer) :
    ∃ c, h.contents? r = some c ∧ c.names.idxOf? id = answer := by
  cases hc : h.contents? r with
  | some c =>
    rw [lookupField_of_contents hc] at hl
    exact ⟨c, rfl, Except.ok.inj hl⟩
  | none =>
    have hr : h.resolve? r = none := Option.map_eq_none_iff.1 hc
    simp only [lookupField, object, hr] at hl
    cases hl

/-- The slot that a field is found in can be read and set. -/
theorem Regular.usable (hr : h.Regular) {id : FieldId}
    (hl : h.lookupField r id = .ok (some slot)) :
    (∃ v, h.getField r slot = .ok v) ∧ ∀ v, ∃ h', setField r slot v h = .ok () h' := by
  obtain ⟨c, hc, hslot⟩ := contents_of_lookupField hl
  obtain ⟨hlt, -⟩ := List.idxOf?_eq_some_iff.1 hslot
  rw [length_names hr hc] at hlt
  refine ⟨⟨_, getField_of_contents hc (List.getElem?_eq_getElem hlt)⟩, fun v => ?_⟩
  obtain ⟨o, ho, rfl⟩ := exists_object_of_contents hc
  rw [Array.length_toList] at hlt
  refine ⟨h.setObject r.index { o with fields := o.fields.setIfInBounds slot v }, ?_⟩
  simp only [setField, ho, if_pos hlt]

end Objects

/-- The parts of the heap agree, whatever was done to it: the live counter counts the objects, the
free list has each vacant slot once and no other, no collection is left half done, every object has
as many values as its layout has fields. -/
theorem slotTable_of_reachable {h : Heap} (hh : h.Reachable)
    (hsize : h.slots.size ≤ 0x100000000) :
    h.live = h.occupied ∧
      (∀ n, (h.free.map UInt32.toNat).count n = if h.vacant n then 1 else 0) ∧
      h.gray = [] ∧
      (∀ (n : Nat) (g : UInt32) (o : HeapObject), h.slots[n]? = some ⟨g, some o⟩ →
        o.marked = false ∧ o.layout < h.layouts.size ∧
          o.fields.size = (h.layout o.layout).fields.length) ∧
      (∀ roots, (h.collect roots).1 ≤ h.live ∧
        (h.collect roots).2.live + (h.collect roots).1 = h.live) ∧
      ∀ r id slot, h.lookupField r id = .ok (some slot) →
        (∃ v, h.getField r slot = .ok v) ∧ ∀ v, ∃ h', setField r slot v h = .ok () h' := by
  have hr := hh.regular
  have ha := hh.accounted hsize
  refine ⟨ha.live, ha.count_free, (clear_eq_self_iff.1 hr.clear).2, ?_, ?_, ?_⟩
  · intro n g o ho
    exact ⟨hr.marked_eq_false ho, hr.fits n g o ho⟩
  · intro roots
    exact ⟨ha.collect_le hr.clear roots, ha.live_collect hr.clear roots⟩
  · intro r id slot hl
    exact hr.usable hl

/-- The second object is freed for the third one, which a collection frees in turn. One operation
fails, on a handle that names nothing. -/
def patchy : Heap :=
  List.foldl Operation.apply (.new 2)
    [.allocate #[], .addField ⟨0, 0⟩ 7, .allocate #[.ref ⟨0, 0⟩], .setField ⟨3, 0⟩ 0 (.int 1),
      .allocate #[.ref ⟨0, 0⟩], .addField ⟨1, 1⟩ 7, .collect #[.ref ⟨1, 0⟩, .ref ⟨0, 0⟩]]

theorem slotTable_of_reachable_patchy :
    patchy.Reachable ∧ patchy.slots.size ≤ 0x100000000 ∧ patchy.slots.size = 2 ∧
      patchy.occupied = 1 ∧ patchy.live = 1 ∧
      (patchy.free.map UInt32.toNat).count 0 = 0 ∧ (patchy.free.map UInt32.toNat).count 1 = 1 ∧
      patchy.lookupField ⟨0, 0⟩ 7 = .ok (some 0) ∧ ∃ v, patchy.getField ⟨0, 0⟩ 0 = .ok v := by
  have hh : patchy.Reachable := ⟨2, _, rfl⟩
  have hsize : patchy.slots.size ≤ 0x100000000 := by decide +kernel
  have hoccupied : patchy.occupied = 1 := by decide +kernel
  have hlookup : patchy.lookupField ⟨0, 0⟩ 7 = .ok (some 0) := by decide +kernel
  obtain ⟨hlive, hfree, -, -, -, husable⟩ := slotTable_of_reachable hh hsize
  have hfull : patchy.vacant 0 = false := by decide +kernel
  have hempty : patchy.vacant 1 = true := by decide +kernel
  refine ⟨hh, hsize, by decide +kernel, hoccupied, hlive.trans hoccupied, ?_, ?_, hlookup,
    (husable _ _ _ hlookup).1⟩
  · rw [hfree, hfull, if_neg Bool.false_ne_true]
  · rw [hfree, hempty, if_pos rfl]

end Heap

end StackMachine
