import StackMachine.Proofs.Heap.Handles
import StackMachine.Proofs.Heap.SlotTable

/-! Allocation. Room is made first, by a collection if as many objects live as the threshold says;
then the new object takes a vacant slot, which may be one that this collection has emptied. What is
said of one allocation bounds the number of live objects over a whole history. -/

namespace StackMachine

namespace Heap

section Frame

variable {h : Heap} {roots : Array Value}

@[simp] theorem threshold_setObject (h : Heap) (i : UInt32) (o : HeapObject) :
    (h.setObject i o).threshold = h.threshold := by
  unfold setObject
  split <;> rfl

theorem threshold_place (h : Heap) : h.place.2.threshold = h.threshold := by
  unfold place
  split
  · exact threshold_setObject _ _ _
  · rfl

theorem live_place (h : Heap) : h.place.2.live = h.live + 1 := by
  unfold place
  split
  · exact congrArg (· + 1) (live_setObject _ _ _)
  · rfl

theorem threshold_collect (hc : h.clear = h) (roots : Array Value) :
    (h.collect roots).2.threshold = h.threshold := by
  calc (h.collect roots).2.threshold = (h.mark roots).clear.threshold := rfl
    _ = h.threshold := by rw [(marking_mark hc roots).1.clear]

theorem threshold_makeRoom (hc : h.clear = h) (roots : Array Value) :
    (h.makeRoom roots).1.threshold = h.threshold := by
  rw [makeRoom_eq]
  split
  · exact threshold_collect hc roots
  · rfl

/-- Setting and adding fields leaves the threshold and the live counter alone. -/
theorem counters_setField (r : ObjectRef) (slot : Nat) (v : Value) :
    (left (setField r slot v h)).threshold = h.threshold ∧
      (left (setField r slot v h)).live = h.live := by
  obtain he | ⟨o, he⟩ := @left_setField_cases h r slot v
  · rw [he]
    exact ⟨rfl, rfl⟩
  · rw [he]
    exact ⟨threshold_setObject h _ o, live_setObject h _ o⟩

theorem counters_addField (hr : h.Regular) (r : ObjectRef) (id : FieldId) :
    (left (addField r id h)).threshold = h.threshold ∧
      (left (addField r id h)).live = h.live := by
  cases ho : h.resolve? r with
  | none => simp [addField, ho, left]
  | some o =>
    cases hs : (h.layout o.layout).slot? id with
    | some slot => simp [addField_of_some ho hs, left]
    | none =>
      obtain ⟨target, h', -, hh, -, -, he⟩ := addField_of_none hr ho hs
      rcases hh with rfl | rfl <;> simp [he, left, grown]

theorem threshold_apply (hr : h.Regular) (op : Operation) :
    (op.apply h).threshold = h.threshold := by
  cases op with
  | allocate roots => exact (threshold_place _).trans (threshold_makeRoom hr.clear roots)
  | setField r slot v => exact (counters_setField r slot v).1
  | addField r id => exact (counters_addField hr r id).1
  | collect roots => exact threshold_collect hr.clear roots

theorem threshold_foldl (hr : h.Regular) (ops : List Operation) :
    (ops.foldl Operation.apply h).threshold = h.threshold := by
  induction ops generalizing h with
  | nil => rfl
  | cons op ops ih => exact (ih (hr.apply op)).trans (threshold_apply hr op)

/-- A threshold of zero counts as one, and no operation changes it. -/
theorem Reachable.one_le_threshold (hh : h.Reachable) : 1 ≤ h.threshold := by
  obtain ⟨threshold, ops, rfl⟩ := hh
  rw [threshold_foldl (regular_new threshold)]
  exact Nat.le_max_right threshold 1

end Frame

section MakeRoom

variable {h : Heap} {roots : Array Value} {q : ObjectRef}

theorem live_makeRoom (hr : h.Regular) (ha : h.Accounted) (roots : Array Value) :
    (h.makeRoom roots).1.live =
      if h.threshold ≤ h.live then {r | h.Reaches roots r}.ncard else h.live := by
  rw [makeRoom_eq]
  split
  · rw [(ha.collect hr.clear roots).live, occupied_collect hr.clear]
  · rfl

theorem layouts_makeRoom (hc : h.clear = h) (roots : Array Value) :
    (h.makeRoom roots).1.layouts = h.layouts := by
  rw [makeRoom_eq]
  split
  · exact layouts_collect hc
  · rfl

theorem resolve?_makeRoom_of_reaches (hc : h.clear = h) (hq : h.Reaches roots q) :
    (h.makeRoom roots).1.resolve? q = h.resolve? q := by
  rw [makeRoom_eq]
  split
  · obtain ⟨o, ho⟩ := hq.resolves
    rw [ho, (resolve?_collect hc).2 ⟨ho, hq⟩]
  · rfl

theorem makeRoom_of_lt (hlt : h.live < h.threshold) : (h.makeRoom roots).1 = h := by
  rw [makeRoom_eq, if_neg (Nat.not_le_of_lt hlt)]

theorem resolves_makeRoom_of_le (hc : h.clear = h) (hle : h.threshold ≤ h.live)
    (hq : h.Resolves q) : (h.makeRoom roots).1.Resolves q ↔ h.Reaches roots q := by
  rw [makeRoom_eq, if_pos hle]
  constructor
  · rintro ⟨o, ho⟩
    exact ((resolve?_collect hc).1 ho).2
  · intro hreach
    obtain ⟨o, ho⟩ := hq
    exact ⟨o, (resolve?_collect hc).2 ⟨ho, hreach⟩⟩

end MakeRoom

section Allocate

variable {h : Heap} {roots : Array Value} {q : ObjectRef}

theorem size_allocate_le (hc : h.clear = h) (roots : Array Value) :
    (h.allocate roots).2.1.slots.size ≤ h.slots.size + 1 := by
  have hsize := size_place (h.makeRoom roots).1
  rw [size_makeRoom hc] at hsize
  change (h.makeRoom roots).1.place.2.slots.size ≤ h.slots.size + 1
  rw [hsize]
  split <;> omega

theorem live_allocate (hr : h.Regular) (ha : h.Accounted) (roots : Array Value) :
    (h.allocate roots).2.1.live =
      (if h.threshold ≤ h.live then {r | h.Reaches roots r}.ncard else h.live) + 1 := by
  rw [← live_makeRoom hr ha roots]
  exact live_place _

theorem live_allocate_le (hr : h.Regular) (ha : h.Accounted) (roots : Array Value) :
    (h.allocate roots).2.1.live ≤ max h.threshold ({r | h.Reaches roots r}.ncard + 1) := by
  rw [live_allocate hr ha]
  split <;> omega

/-- The slot of the new object may have held another one until now, but in an earlier generation. -/
theorem not_resolves_allocate (hr : h.Regular) (ha : h.Accounted)
    (hroom : (h.allocate roots).2.1.slots.size ≤ 0x100000000) :
    ¬ h.Resolves (h.allocate roots).1 := by
  intro hres
  have hfreed := Bool.toNat_le
    ((Operation.allocate roots).frees h (h.allocate roots).1.index.toNat)
  exact (used_zero_iff.2 hres).ne_issued hr ha roots hroom (by omega) rfl

/-- Placing the new object touches no handle that resolved before. -/
theorem resolve?_allocate (hr : h.Regular) (ha : h.Accounted)
    (hroom : (h.allocate roots).2.1.slots.size ≤ 0x100000000) (hq : h.Resolves q) :
    (h.allocate roots).2.1.resolve? q = (h.makeRoom roots).1.resolve? q := by
  obtain ⟨-, hview, -⟩ := place_spec (ha.makeRoom hr roots) hroom
  have hne : q ≠ (h.allocate roots).1 := by
    rintro rfl
    exact not_resolves_allocate hr ha hroom hq
  exact (hview q).trans (if_neg hne)

end Allocate

/-- An allocation gives a new handle to an object without fields. It collects exactly if the live
objects are as many as the threshold, and then frees all that the roots do not reach; otherwise it
frees nothing. So the live objects never outnumber both the threshold and what is reached, with the
new object added. -/
theorem allocate_exact {h : Heap} (hh : h.Reachable) (hsize : h.slots.size < 0x100000000)
    (roots : Array Value) :
    1 ≤ h.threshold ∧ (h.allocate roots).2.1.threshold = h.threshold ∧
      ¬ h.Resolves (h.allocate roots).1 ∧
      (h.allocate roots).2.1.contents? (h.allocate roots).1 = some ⟨[], []⟩ ∧
      (h.allocate roots).2.2 = (if h.threshold ≤ h.live then
        [.collected (h.collect roots).1 (h.collect roots).2.live] else []) ∧
      (∀ q, h.Reaches roots q → (h.allocate roots).2.1.resolve? q = h.resolve? q) ∧
      (h.allocate roots).2.1.layouts = h.layouts ∧
      (h.threshold ≤ h.live → ∀ q, h.Resolves q →
        ((h.allocate roots).2.1.Resolves q ↔ h.Reaches roots q)) ∧
      (h.live < h.threshold → ∀ q, h.Resolves q →
        (h.allocate roots).2.1.resolve? q = h.resolve? q) ∧
      {r | h.Reaches roots r}.Finite ∧
      (h.allocate roots).2.1.live =
        (if h.threshold ≤ h.live then {r | h.Reaches roots r}.ncard else h.live) + 1 ∧
      (h.allocate roots).2.1.live ≤ max h.threshold ({r | h.Reaches roots r}.ncard + 1) := by
  have hr := hh.regular
  have ha := hh.accounted (Nat.le_of_lt hsize)
  have hroom : (h.allocate roots).2.1.slots.size ≤ 0x100000000 :=
    Nat.le_trans (size_allocate_le hr.clear roots) hsize
  obtain ⟨-, hnew, -⟩ := allocate_of_room ⟨hr, ha⟩ roots hroom
  have hold := fun q => @resolve?_allocate h roots q hr ha hroom
  refine ⟨hh.one_le_threshold, threshold_apply hr (.allocate roots),
    not_resolves_allocate hr ha hroom, hnew, ?_, ?_, ?_, ?_, ?_, (reaches_ncard hr.clear).1,
    live_allocate hr ha roots, live_allocate_le hr ha roots⟩
  · change (h.makeRoom roots).2 = _
    unfold makeRoom
    split <;> rfl
  · intro q hq
    rw [hold q hq.resolves, resolve?_makeRoom_of_reaches hr.clear hq]
  · exact layouts_place.trans (layouts_makeRoom hr.clear roots)
  · intro hle q hq
    rw [← resolves_makeRoom_of_le hr.clear hle hq]
    simp only [Resolves, hold q hq]
  · intro hlt q hq
    rw [hold q hq, makeRoom_of_lt hlt]

/-- The third object is reached by none of the roots, the second one through a field. -/
def crowded : Heap :=
  List.foldl Operation.apply (.new 3)
    [.allocate #[], .allocate #[], .allocate #[], .addField ⟨0, 0⟩ 7,
      .setField ⟨0, 0⟩ 0 (.ref ⟨1, 0⟩)]

/-- The new object takes the slot that it has emptied. -/
theorem allocate_exact_crowded :
    crowded.Reachable ∧ crowded.slots.size < 0x100000000 ∧ crowded.threshold ≤ crowded.live ∧
      (crowded.allocate #[.ref ⟨0, 0⟩]).1 = ⟨2, 1⟩ ∧ ¬ crowded.Resolves ⟨2, 1⟩ ∧
      (crowded.allocate #[.ref ⟨0, 0⟩]).2.1.contents? ⟨2, 1⟩ = some ⟨[], []⟩ ∧
      (crowded.allocate #[.ref ⟨0, 0⟩]).2.1.resolve? ⟨1, 0⟩ = crowded.resolve? ⟨1, 0⟩ ∧
      crowded.Resolves ⟨2, 0⟩ ∧ ¬ crowded.Reaches #[.ref ⟨0, 0⟩] ⟨2, 0⟩ ∧
      {r | crowded.Reaches #[.ref ⟨0, 0⟩] r}.ncard + 1 = 3 := by
  have hh : crowded.Reachable := ⟨3, _, rfl⟩
  have hsize : crowded.slots.size < 0x100000000 := by decide +kernel
  have hfull : crowded.threshold ≤ crowded.live := by decide +kernel
  have hfirst : crowded.Reaches #[.ref ⟨0, 0⟩] ⟨0, 0⟩ := .root (by simp) rfl
  have hsecond : crowded.Reaches #[.ref ⟨0, 0⟩] ⟨1, 0⟩ := .field hfirst rfl (by simp) rfl
  have hthird : crowded.Resolves ⟨2, 0⟩ := ⟨blank, rfl⟩
  have hhandle : (crowded.allocate #[.ref ⟨0, 0⟩]).1 = ⟨2, 1⟩ := by decide +kernel
  have hgone : ¬ (crowded.allocate #[.ref ⟨0, 0⟩]).2.1.Resolves ⟨2, 0⟩ :=
    mt resolves_iff.1 (by decide +kernel)
  have hlive : (crowded.allocate #[.ref ⟨0, 0⟩]).2.1.live = 3 := by decide +kernel
  obtain ⟨-, -, hfresh, hnew, -, hkept, -, hfreed, -, -, hcount, -⟩ :=
    allocate_exact hh hsize #[.ref ⟨0, 0⟩]
  rw [hhandle] at hfresh hnew
  rw [if_pos hfull, hlive] at hcount
  exact ⟨hh, hsize, hfull, hhandle, hfresh, hnew, hkept _ hsecond, hthird,
    mt (hfreed hfull _ hthird).2 hgone, hcount.symm⟩

section History

variable {h : Heap} {n : Nat}

/-- No allocation is made with more than `n` objects in reach of its roots. -/
def Sparing (n : Nat) : Heap → List Operation → Prop
  | _, [] => True
  | h, op :: ops =>
    (∀ roots, op = .allocate roots → {r | h.Reaches roots r}.ncard ≤ n) ∧
      Sparing n (op.apply h) ops

theorem live_apply_le (hr : h.Regular) (ha : h.Accounted) {op : Operation}
    (hop : ∀ roots, op = .allocate roots → {r | h.Reaches roots r}.ncard ≤ n)
    (hlive : h.live ≤ max h.threshold (n + 1)) :
    (op.apply h).live ≤ max h.threshold (n + 1) := by
  cases op with
  | allocate roots =>
    have hle := live_allocate_le hr ha roots
    have hreach := hop roots rfl
    change (h.allocate roots).2.1.live ≤ _
    omega
  | setField r slot v => exact Nat.le_trans (Nat.le_of_eq (counters_setField r slot v).2) hlive
  | addField r id => exact Nat.le_trans (Nat.le_of_eq (counters_addField hr r id).2) hlive
  | collect roots =>
    have hsum := ha.live_collect hr.clear roots
    change (h.collect roots).2.live ≤ _
    omega

theorem live_foldl_le (hr : h.Regular) (ha : h.Accounted) {ops : List Operation}
    (hsize : (ops.foldl Operation.apply h).slots.size ≤ 0x100000000) (hops : Sparing n h ops)
    (hlive : h.live ≤ max h.threshold (n + 1)) :
    (ops.foldl Operation.apply h).live ≤ max h.threshold (n + 1) := by
  induction ops generalizing h with
  | nil => exact hlive
  | cons op ops ih =>
    have hop := Nat.le_trans (size_le_foldl (hr.apply op) ops) hsize
    have hstep := live_apply_le hr ha hops.1 hlive
    have hthreshold := threshold_apply hr op
    rw [← hthreshold] at hstep ⊢
    exact ih (hr.apply op) (ha.apply hr op hop) hsize hops.2 hstep

/-- Over a whole history the live objects number at most the threshold, or one more than were ever
in reach when an allocation was made. -/
theorem live_le_of_sparing {threshold : Nat} {ops : List Operation}
    (hsize : (ops.foldl Operation.apply (.new threshold)).slots.size ≤ 0x100000000)
    (hops : Sparing n (.new threshold) ops) :
    (ops.foldl Operation.apply (.new threshold)).live ≤ max (max threshold 1) (n + 1) :=
  live_foldl_le (regular_new threshold) (accounted_new threshold) hsize hops (Nat.zero_le _)

end History

end Heap

end StackMachine
