import StackMachine.Proofs.Heap.History

/-! Handles are not reused. A slot takes a new generation each time it is emptied, so the handle of
an object that was freed differs from every handle that the slot gives out later, until generations
come round again. `Used` counts how often a slot was emptied since a handle named what is in it. -/

namespace StackMachine

namespace Heap

/-- The generation of a slot. A slot that is not there yet begins with the first one. -/
def generationAt (h : Heap) (i : Nat) : UInt32 := (h.slots[i]?.map Slot.generation).getD 0

def holds (h : Heap) (i : Nat) : Bool := h.slots[i]?.any fun s => s.object.isSome

/-- No field of an object is had by the handle, and trying to leaves the heap as it is. -/
structure Dangles (h : Heap) (r : ObjectRef) : Prop where
  fieldCount : h.fieldCount r = .error (.danglingReference r)
  lookupField : ∀ id, h.lookupField r id = .error (.danglingReference r)
  getField : ∀ slot, h.getField r slot = .error (.danglingReference r)
  setField : ∀ slot v, setField r slot v h = .error (.danglingReference r) h
  addField : ∀ id, addField r id h = .error (.danglingReference r) h

/-- The heap when the operation has collected, and has not placed an object yet. -/
def Operation.collected (h : Heap) : Operation → Heap
  | .allocate roots => (h.makeRoom roots).1
  | .collect roots => (h.collect roots).2
  | .setField .. | .addField .. => h

def Operation.frees (h : Heap) (op : Operation) (i : Nat) : Bool :=
  h.holds i && !(op.collected h).holds i

/-- How often the slot is emptied in the course of the operations. -/
def timesFreed (i : Nat) : Heap → List Operation → Nat
  | _, [] => 0
  | h, op :: ops => (op.frees h i).toNat + timesFreed i (op.apply h) ops

/-- The handles that the operations give out, in order. -/
def issued : Heap → List Operation → List ObjectRef
  | _, [] => []
  | h, .allocate roots :: ops =>
    (h.allocate roots).1 :: issued (Operation.apply h (.allocate roots)) ops
  | h, op :: ops => issued (op.apply h) ops

section Slots

variable {h : Heap} {i : Nat} {r : ObjectRef}

theorem resolves_iff :
    h.Resolves r ↔ h.generationAt r.index.toNat = r.generation ∧ h.holds r.index.toNat := by
  simp only [Resolves, resolve?_eq_some_iff, generationAt, holds]
  cases h.slots[r.index.toNat]? with
  | none => simp
  | some s =>
    obtain ⟨g, x⟩ := s
    cases x <;> simp

theorem dangles_of_not_resolves (hr : ¬ h.Resolves r) : h.Dangles r := by
  have hnone : h.resolve? r = none := Option.eq_none_iff_forall_ne_some.2 fun o ho => hr ⟨o, ho⟩
  have hobject : h.object r = .error (.danglingReference r) := by simp only [object, hnone]
  constructor
  · simp only [fieldCount, hobject]
    rfl
  · intro id
    simp only [Heap.lookupField, hobject]
    rfl
  · intro slot
    simp only [Heap.getField, hobject]
    rfl
  · intro slot v
    simp only [Heap.setField, hnone]
  · intro id
    simp only [Heap.addField, hnone]

theorem generationAt_setObject (j : UInt32) (o : HeapObject) :
    (h.setObject j o).generationAt i = h.generationAt i := by
  simp only [generationAt, getElem?_setObject]
  by_cases hj : j.toNat = i
  · rw [if_pos hj, Option.map_map]
    rfl
  · rw [if_neg hj]

theorem holds_setObject (j : UInt32) (o : HeapObject) :
    (h.setObject j o).holds i = if j.toNat = i then decide (i < h.slots.size) else h.holds i := by
  simp only [holds, getElem?_setObject]
  by_cases hj : j.toNat = i
  · rw [if_pos hj, if_pos hj]
    by_cases hi : i < h.slots.size <;> simp [hi]
  · rw [if_neg hj, if_neg hj]

theorem lt_of_holds (hi : h.holds i) : i < h.slots.size := by
  by_contra hge
  rw [holds, Array.getElem?_eq_none (Nat.le_of_not_lt hge)] at hi
  cases hi

theorem holds_setObject_of_holds (j : UInt32) (o : HeapObject) (hi : h.holds i) :
    (h.setObject j o).holds i := by
  rw [holds_setObject]
  split
  · exact decide_eq_true (lt_of_holds hi)
  · exact hi

end Slots

section Operations

variable {h : Heap} {i : Nat}

theorem generationAt_collect (hc : h.clear = h) (roots : Array Value) :
    (h.collect roots).2.generationAt i =
      h.generationAt i + UInt32.ofNat (h.holds i && !(h.collect roots).2.holds i).toNat := by
  obtain ⟨s, hs, -, hs'⟩ | ⟨hs, -, hs'⟩ := @getElem?_collect h roots hc i
  · simp only [generationAt, holds, hs, hs']
    rcases s with ⟨g, _ | ⟨l, f, _ | _⟩⟩ <;>
      simp [Slot.sweep, Slot.clear, HeapObject.clear]
  · simp [generationAt, holds, hs, hs']

theorem generationAt_collected (hc : h.clear = h) (op : Operation) :
    (op.collected h).generationAt i = h.generationAt i + UInt32.ofNat (op.frees h i).toNat := by
  cases op with
  | collect roots => exact generationAt_collect hc roots
  | setField | addField => simp [Operation.frees, Operation.collected]
  | allocate roots =>
    simp only [Operation.frees, Operation.collected, makeRoom_eq]
    split
    · exact generationAt_collect hc roots
    · simp

theorem generationAt_place : h.place.2.generationAt i = h.generationAt i := by
  cases hf : h.free with
  | cons j rest =>
    simp only [place, hf]
    exact generationAt_setObject j _
  | nil =>
    rw [place_of_nil hf]
    simp only [generationAt, Array.getElem?_push]
    by_cases hi : i = h.slots.size
    · rw [if_pos hi, hi, Array.getElem?_eq_none (Nat.le_refl _)]
      rfl
    · rw [if_neg hi]

theorem holds_place (hi : h.holds i) : h.place.2.holds i := by
  cases hf : h.free with
  | cons j rest =>
    simp only [place, hf]
    exact holds_setObject_of_holds j _ hi
  | nil =>
    have hne : i ≠ h.slots.size := Nat.ne_of_lt (lt_of_holds hi)
    rw [place_of_nil hf]
    simp only [holds, Array.getElem?_push, if_neg hne]
    exact hi

/-- Setting and adding fields changes objects in their places. -/
theorem left_setField_cases (r : ObjectRef) (slot : Nat) (v : Value) :
    left (setField r slot v h) = h ∨ ∃ o, left (setField r slot v h) = h.setObject r.index o := by
  unfold setField
  split
  next => exact .inl rfl
  next =>
    split
    · exact .inr ⟨_, rfl⟩
    · exact .inl rfl

theorem left_addField_cases (hr : h.Regular) (r : ObjectRef) (id : FieldId) :
    left (addField r id h) = h ∨ ∃ (h' : Heap) (o : HeapObject), h'.slots = h.slots ∧
      left (addField r id h) = h'.setObject r.index o := by
  cases ho : h.resolve? r with
  | none => exact .inl (by simp [addField, ho, left])
  | some o =>
    cases hs : (h.layout o.layout).slot? id with
    | some slot => exact .inl (by simp [addField_of_some ho hs, left])
    | none =>
      obtain ⟨target, h', -, hh, -, -, he⟩ := addField_of_none hr ho hs
      refine .inr ⟨h', _, ?_, by rw [he]; rfl⟩
      rcases hh with rfl | rfl <;> rfl

/-- What an operation does beyond its collection empties no slot. -/
theorem apply_of_collected (hr : h.Regular) (op : Operation) :
    (op.apply h).generationAt i = (op.collected h).generationAt i ∧
      ((op.collected h).holds i → (op.apply h).holds i) := by
  cases op with
  | collect roots => exact ⟨rfl, id⟩
  | allocate roots => exact ⟨generationAt_place, holds_place⟩
  | setField r slot v =>
    change (left (setField r slot v h)).generationAt i = h.generationAt i ∧
      (h.holds i → (left (setField r slot v h)).holds i)
    obtain he | ⟨o, he⟩ := @left_setField_cases h r slot v
    · rw [he]
      exact ⟨rfl, id⟩
    · rw [he]
      exact ⟨generationAt_setObject _ _, holds_setObject_of_holds _ _⟩
  | addField r field =>
    change (left (addField r field h)).generationAt i = h.generationAt i ∧
      (h.holds i → (left (addField r field h)).holds i)
    obtain he | ⟨h', o, hslots, he⟩ := left_addField_cases hr r field
    · rw [he]
      exact ⟨rfl, id⟩
    · have hgeneration : h'.generationAt i = h.generationAt i := by
        simp only [generationAt, hslots]
      have hholds : h'.holds i = h.holds i := by simp only [holds, hslots]
      rw [he, ← hgeneration, ← hholds]
      exact ⟨generationAt_setObject _ _, holds_setObject_of_holds _ _⟩

/-- The handle of a new object names a slot that is empty, with the generation it has. -/
theorem place_issues (ha : h.Accounted) (hroom : h.place.2.slots.size ≤ 0x100000000) :
    h.generationAt h.place.1.index.toNat = h.place.1.generation ∧
      h.holds h.place.1.index.toNat = false := by
  have hgeneration : h.generationAt h.place.1.index.toNat = h.place.1.generation := by
    cases hf : h.free with
    | cons j rest => simp only [place, hf, generationAt]
    | nil =>
      rw [place_of_nil hf, Array.size_push] at hroom
      have hi : (UInt32.ofNat h.slots.size).toNat = h.slots.size :=
        UInt32.toNat_ofNat_of_lt' hroom
      rw [place_of_nil hf]
      simp [generationAt, hi]
  refine ⟨hgeneration, Bool.eq_false_iff.2 fun hholds => ?_⟩
  obtain ⟨o, ho⟩ := resolves_iff.2 ⟨hgeneration, hholds⟩
  rw [(place_spec ha hroom).1] at ho
  cases ho

end Operations

/-- The slot of the handle was emptied `n` times since the handle named what it held. -/
structure Used (r : ObjectRef) (n : Nat) (h : Heap) : Prop where
  generation : h.generationAt r.index.toNat = r.generation + UInt32.ofNat n
  holds : n = 0 → h.holds r.index.toNat

section Used

variable {h : Heap} {r : ObjectRef} {n : Nat}

theorem used_zero_iff : Used r 0 h ↔ h.Resolves r := by
  rw [resolves_iff]
  constructor
  · intro hu
    exact ⟨by simpa using hu.generation, hu.holds rfl⟩
  · rintro ⟨hgeneration, hholds⟩
    exact ⟨by simpa using hgeneration, fun _ => hholds⟩

theorem Used.eq_zero (hu : Used r n h) (hn : n < 0x100000000)
    (hr : h.generationAt r.index.toNat = r.generation) : n = 0 := by
  have hzero : UInt32.ofNat n = 0 := by
    have hsum := hu.generation
    rw [hr] at hsum
    exact UInt32.left_eq_add.1 hsum
  have hnat := congrArg UInt32.toNat hzero
  rwa [UInt32.toNat_ofNat_of_lt' (by simpa using hn)] at hnat

/-- Once its slot was emptied, a handle does not resolve. -/
theorem Used.not_resolves (hu : Used r n h) (hpos : 0 < n) (hn : n < 0x100000000) :
    ¬ h.Resolves r := fun hr =>
  absurd (hu.eq_zero hn (resolves_iff.1 hr).1) (Nat.ne_of_gt hpos)

theorem Used.collected (hu : Used r n h) (hc : h.clear = h) (op : Operation) :
    Used r (n + (op.frees h r.index.toNat).toNat) (op.collected h) where
  generation := by
    rw [generationAt_collected hc, hu.generation, UInt32.ofNat_add, UInt32.add_assoc]
  holds hn := by
    obtain ⟨hzero, hkept⟩ := Nat.add_eq_zero_iff.1 hn
    have hheld := hu.holds hzero
    simpa [Operation.frees, hheld] using hkept

theorem Used.apply (hu : Used r n h) (hr : h.Regular) (op : Operation) :
    Used r (n + (op.frees h r.index.toNat).toNat) (op.apply h) := by
  have hcollected := hu.collected hr.clear op
  obtain ⟨hgeneration, hholds⟩ := @apply_of_collected h r.index.toNat hr op
  exact ⟨hgeneration.trans hcollected.generation, fun hn => hholds (hcollected.holds hn)⟩

theorem Used.foldl (hu : Used r n h) (hr : h.Regular) (ops : List Operation) :
    Used r (n + timesFreed r.index.toNat h ops) (ops.foldl Operation.apply h) := by
  induction ops generalizing h n with
  | nil => exact hu
  | cons op ops ih =>
    rw [timesFreed, ← Nat.add_assoc]
    exact ih (hu.apply hr op) (hr.apply op)

/-- A handle that was given out is not given out again. -/
theorem Used.ne_issued (hu : Used r n h) (hr : h.Regular) (ha : h.Accounted)
    (roots : Array Value)
    (hsize : (Operation.apply h (.allocate roots)).slots.size ≤ 0x100000000)
    (hn : n + ((Operation.allocate roots).frees h r.index.toNat).toNat < 0x100000000) :
    r ≠ (h.allocate roots).1 := by
  intro he
  have hcollected := hu.collected hr.clear (.allocate roots)
  obtain ⟨hgeneration, hempty⟩ := place_issues (ha.makeRoom hr roots) hsize
  change r = (h.makeRoom roots).1.place.1 at he
  rw [← he] at hgeneration hempty
  have hzero := hcollected.eq_zero hn hgeneration
  exact absurd (hcollected.holds hzero) (Bool.eq_false_iff.1 hempty)

theorem Used.not_mem_issued (hu : Used r n h) (hr : h.Regular) (ha : h.Accounted)
    {ops : List Operation} (hsize : (ops.foldl Operation.apply h).slots.size ≤ 0x100000000)
    (hn : n + timesFreed r.index.toNat h ops < 0x100000000) : r ∉ issued h ops := by
  induction ops generalizing h n with
  | nil => exact List.not_mem_nil
  | cons op ops ih =>
    have hop := Nat.le_trans (size_le_foldl (hr.apply op) ops) hsize
    rw [timesFreed, ← Nat.add_assoc] at hn
    have hlater := ih (hu.apply hr op) (hr.apply op) (ha.apply hr op hop) hsize hn
    cases op with
    | allocate roots =>
      have hnew := hu.ne_issued hr ha roots hop (Nat.lt_of_le_of_lt (Nat.le_add_right _ _) hn)
      exact fun hmem => (List.mem_cons.1 hmem).elim hnew hlater
    | setField | addField | collect => exact hlater

end Used

section Histories

variable {h : Heap} {ops : List Operation}

theorem timesFreed_append (i : Nat) (h : Heap) (before after : List Operation) :
    timesFreed i h (before ++ after) =
      timesFreed i h before + timesFreed i (before.foldl Operation.apply h) after := by
  induction before generalizing h with
  | nil => exact (Nat.zero_add _).symm
  | cons op before ih =>
    simp only [List.cons_append, timesFreed, ih, List.foldl_cons, Nat.add_assoc]

theorem timesFreed_le_length (i : Nat) (h : Heap) (ops : List Operation) :
    timesFreed i h ops ≤ ops.length := by
  induction ops generalizing h with
  | nil => exact Nat.le_refl _
  | cons op ops ih =>
    rw [timesFreed, List.length_cons, Nat.add_comm]
    exact Nat.add_le_add (ih _) (Bool.toNat_le _)

theorem resolves_allocate (hr : h.Regular) (ha : h.Accounted) (roots : Array Value)
    (hsize : (Operation.apply h (.allocate roots)).slots.size ≤ 0x100000000) :
    (Operation.apply h (.allocate roots)).Resolves (h.allocate roots).1 := by
  obtain ⟨-, hview, -⟩ := place_spec (ha.makeRoom hr roots) hsize
  exact ⟨blank, (hview _).trans (if_pos rfl)⟩

theorem nodup_issued (hr : h.Regular) (ha : h.Accounted)
    (hsize : (ops.foldl Operation.apply h).slots.size ≤ 0x100000000)
    (hfreed : ∀ i, timesFreed i h ops < 0x100000000) : (issued h ops).Nodup := by
  induction ops generalizing h with
  | nil => exact List.nodup_nil
  | cons op ops ih =>
    have hop := Nat.le_trans (size_le_foldl (hr.apply op) ops) hsize
    have hr' := hr.apply op
    have ha' := ha.apply hr op hop
    have hfreed' : ∀ i, timesFreed i (op.apply h) ops < 0x100000000 := fun i =>
      Nat.lt_of_le_of_lt (Nat.le_add_left _ _) (hfreed i)
    have hrest := ih hr' ha' hsize hfreed'
    cases op with
    | allocate roots =>
      have hnew := used_zero_iff.2 (resolves_allocate hr ha roots hop)
      refine List.nodup_cons.2 ⟨hnew.not_mem_issued hr' ha' hsize ?_, hrest⟩
      rw [Nat.zero_add]
      exact hfreed' _
    | setField | addField | collect => exact hrest

end Histories

/-- No handle is given out twice, and one whose object was freed dangles for good, whatever its slot
holds later: as long as handles can number the slots, and no slot runs through all generations. -/
theorem handles_distinct {threshold : Nat} {ops : List Operation}
    (hsize : (ops.foldl Operation.apply (.new threshold)).slots.size ≤ 0x100000000)
    (hfreed : ∀ i, timesFreed i (.new threshold) ops < 0x100000000) :
    (issued (.new threshold) ops).Nodup ∧
      ∀ before op after r, ops = before ++ op :: after →
        (before.foldl Operation.apply (.new threshold)).Resolves r →
        op.frees (before.foldl Operation.apply (.new threshold)) r.index.toNat →
        (ops.foldl Operation.apply (.new threshold)).Dangles r := by
  have hregular := regular_new threshold
  refine ⟨nodup_issued hregular (accounted_new threshold) hsize hfreed, ?_⟩
  rintro before op after r rfl hresolves hfrees
  have hr := hregular.foldl before
  have hused := (used_zero_iff.2 hresolves).foldl hr (op :: after)
  have hbound := hfreed r.index.toNat
  rw [timesFreed_append] at hbound
  rw [← List.foldl_append] at hused
  refine dangles_of_not_resolves (hused.not_resolves ?_ (by omega))
  simp only [timesFreed, hfrees, Bool.toNat_true]
  omega

/-- The second object takes the slot of the first one, which its allocation frees. -/
def reused : List Operation := [.allocate #[], .allocate #[], .addField ⟨0, 1⟩ 5]

theorem handles_distinct_reused :
    (reused.foldl Operation.apply (.new 1)).slots.size ≤ 0x100000000 ∧
    (∀ i, timesFreed i (.new 1) reused < 0x100000000) ∧
    (Operation.apply (.new 1) (.allocate #[])).Resolves ⟨0, 0⟩ ∧
    issued (.new 1) reused = [⟨0, 0⟩, ⟨0, 1⟩] ∧ (issued (.new 1) reused).Nodup ∧
    (reused.foldl Operation.apply (.new 1)).Resolves ⟨0, 1⟩ ∧
    (reused.foldl Operation.apply (.new 1)).Dangles ⟨0, 0⟩ := by
  have hsize : (reused.foldl Operation.apply (.new 1)).slots.size ≤ 0x100000000 := by
    decide +kernel
  have hfreed : ∀ i, timesFreed i (.new 1) reused < 0x100000000 := fun i =>
    Nat.lt_of_le_of_lt (timesFreed_le_length i _ reused) (by decide)
  have hfirst : (Operation.apply (.new 1) (.allocate #[])).Resolves ⟨0, 0⟩ := ⟨blank, rfl⟩
  have hsecond : (reused.foldl Operation.apply (.new 1)).Resolves ⟨0, 1⟩ :=
    resolves_iff.2 (by decide +kernel)
  obtain ⟨hnodup, hdangles⟩ := handles_distinct hsize hfreed
  refine ⟨hsize, hfreed, hfirst, by decide +kernel, hnodup, hsecond, ?_⟩
  exact hdangles [.allocate #[]] (.allocate #[]) [.addField ⟨0, 1⟩ 5] _ rfl hfirst
    (by decide +kernel)

end Heap

end StackMachine
