import StackMachine.Heap.Basic

/-! Mark and sweep. Marking starts at the roots and works off a list of marked objects whose fields
were not looked at yet; it ends because every step either shortens the list or marks one more
object. Sweeping empties the slots of unmarked objects, in ascending order, and clears the marks. -/

namespace StackMachine

def HeapObject.refs (o : HeapObject) : List ObjectRef := o.fields.toList.filterMap Value.asRef?

namespace Slot

def unmarked (s : Slot) : Bool := s.object.any fun o => !o.marked

def sweep (s : Slot) : Slot :=
  match s.object with
  | some o =>
    if o.marked then { s with object := some { o with marked := false } }
    else { generation := s.generation + 1, object := none }
  | none => s

end Slot

namespace Heap

def markGray (h : Heap) (r : ObjectRef) : Heap :=
  match h.resolve? r with
  | some o =>
    if o.marked then h
    else
      let h := h.setObject r.index { o with marked := true }
      { h with gray := r :: h.gray }
  | none => h

/-- An unmarked object counts twice: marking it adds one entry to the work list. -/
def work (h : Heap) : Nat := 2 * h.slots.countP Slot.unmarked + h.gray.length

theorem exists_slot_of_resolve? {h : Heap} {r : ObjectRef} {o : HeapObject}
    (ho : h.resolve? r = some o) : ∃ hi : r.index.toNat < h.slots.size,
      h.slots[r.index.toNat].generation = r.generation ∧
      h.slots[r.index.toNat].object = some o := by
  unfold resolve? at ho
  split at ho
  next slot hs =>
    obtain ⟨hi, rfl⟩ := Array.getElem?_eq_some_iff.1 hs
    split at ho
    next hg => exact ⟨hi, hg, ho⟩
    next => cases ho
  next => cases ho

theorem work_markGray_le (h : Heap) (r : ObjectRef) : (h.markGray r).work ≤ h.work := by
  unfold markGray
  split
  next o ho =>
    split
    next => exact Nat.le_refl _
    next hm =>
      obtain ⟨hi, -, hobj⟩ := exists_slot_of_resolve? ho
      have hu : h.slots[r.index.toNat].unmarked = true := by simp [Slot.unmarked, hobj, hm]
      have hpos : 0 < h.slots.countP Slot.unmarked :=
        Array.countP_pos_iff.2 ⟨_, Array.getElem_mem hi, hu⟩
      simp only [work, setObject, hi, dif_pos, Array.countP_set, hu, if_true, List.length_cons]
      simp only [Slot.unmarked, Option.any_some, Bool.not_true, Bool.false_eq_true, if_false]
      omega
  next => exact Nat.le_refl _

theorem work_foldl_markGray_le (rs : List ObjectRef) (h : Heap) :
    (rs.foldl markGray h).work ≤ h.work := by
  induction rs generalizing h with
  | nil => exact Nat.le_refl _
  | cons r rs ih => exact Nat.le_trans (ih _) (work_markGray_le h r)

/-- Works the list off, last entry in, first out. -/
def propagate (h : Heap) : Heap :=
  match _hg : h.gray with
  | [] => h
  | r :: rest =>
    let h' := { h with gray := rest }
    match h'.resolve? r with
    | some o => propagate (o.refs.foldl markGray h')
    | none => propagate h'
termination_by h.work
decreasing_by
  · refine Nat.lt_of_le_of_lt (work_foldl_markGray_le _ _) ?_
    simp [work, _hg]
  · simp [work, _hg]

def mark (h : Heap) (roots : Array Value) : Heap :=
  ((roots.toList.filterMap Value.asRef?).foldl markGray h).propagate

def unmarkedSlots (h : Heap) : List Nat :=
  (h.slots.toList.zipIdx.filter fun (s, _) => s.unmarked).map (·.2)

/-- Frees the unmarked objects; the slot freed last is filled first. -/
def sweep (h : Heap) : Heap :=
  let freed := h.unmarkedSlots
  { h with
    slots := h.slots.map Slot.sweep
    free := freed.reverse.map UInt32.ofNat ++ h.free
    live := h.live - freed.length }

def collect (h : Heap) (roots : Array Value) : Nat × Heap :=
  let marked := h.mark roots
  (marked.unmarkedSlots.length, marked.sweep)

def place (h : Heap) : ObjectRef × Heap :=
  let o : HeapObject := { layout := rootLayout, fields := #[] }
  match h.free with
  | index :: free =>
    let generation := (h.slots[index.toNat]?.map Slot.generation).getD 0
    let h := h.setObject index o
    (⟨index, generation⟩, { h with free, live := h.live + 1 })
  | [] =>
    (⟨UInt32.ofNat h.slots.size, 0⟩,
      { h with slots := h.slots.push ⟨0, some o⟩, live := h.live + 1 })

def makeRoom (h : Heap) (roots : Array Value) : Heap × List Event :=
  if h.threshold ≤ h.live then
    let (freed, h) := h.collect roots
    (h, [.collected freed h.live])
  else (h, [])

def allocate (h : Heap) (roots : Array Value) : ObjectRef × Heap × List Event :=
  let (h, events) := h.makeRoom roots
  let (r, h) := h.place
  (r, h, events)

end Heap

end StackMachine
