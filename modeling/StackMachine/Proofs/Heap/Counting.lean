import StackMachine.Proofs.Heap.Allocation

/-! What a collection counts. It frees exactly what the roots do not reach, and says how many objects
these are. The live counter keeps up with the objects as long as slots have 32-bit numbers. With more
slots, a collection can put one number on the free list twice; of two objects that get this slot the
first is lost, and the counter is one too high from then on. -/

namespace StackMachine

namespace Heap

section Drift

variable {h : Heap} {n : Nat}

theorem not_reaches_empty (r : ObjectRef) : ¬ h.Reaches #[] r := by
  intro hr
  induction hr with
  | root hmem _ => exact Array.not_mem_empty _ hmem
  | field _ _ _ _ ih => exact ih

theorem ncard_reaches_empty (h : Heap) : {r | h.Reaches #[] r}.ncard = 0 := by
  simp only [not_reaches_empty, Set.ofPred_false, Set.ncard_empty]

theorem occupied_lt_of_vacant (hn : h.vacant n) : h.occupied < h.slots.size := by
  refine Nat.lt_of_le_of_ne Array.countP_le_size fun hall => ?_
  obtain ⟨g, hs⟩ := vacant_iff.1 hn
  exact absurd (Array.countP_eq_size.1 hall _ (Array.mem_of_getElem? hs)) Bool.false_ne_true

theorem vacant_of_occupied_eq_zero (hzero : h.occupied = 0) (hn : n < h.slots.size) :
    h.vacant n := by
  have hs := Array.countP_eq_zero.1 hzero _ (Array.getElem_mem hn)
  rw [vacant, Array.getElem?_eq_getElem hn, Option.any_some]
  exact Option.isNone_iff_eq_none.2 (Option.not_isSome_iff_eq_none.1 hs)

theorem allocate_of_lt (hlt : h.live < h.threshold) (roots : Array Value) :
    Operation.apply h (.allocate roots) = h.place.2 := by
  change (h.makeRoom roots).1.place.2 = h.place.2
  rw [makeRoom_of_lt hlt]

theorem free_place (h : Heap) : h.place.2.free = h.free.tail := by
  cases hf : h.free <;> simp [place, hf]

/-- No number leads to a slot past the 32-bit ones, so what is vacant there stays vacant while the
free list has any numbers. -/
theorem vacant_place (hfree : h.free ≠ []) (hn : 0x100000000 ≤ n) :
    h.place.2.vacant n = h.vacant n := by
  cases hf : h.free with
  | nil => exact absurd hf hfree
  | cons i rest =>
    have hi : i.toNat ≠ n := Nat.ne_of_lt (Nat.lt_of_lt_of_le i.toNat_lt hn)
    simp only [vacant, place, hf, getElem?_setObject, if_neg hi]

def allocations (n : Nat) : List Operation := List.replicate n (.allocate #[])

theorem allocations_succ (n : Nat) : allocations (n + 1) = .allocate #[] :: allocations n :=
  List.replicate_succ

/-- So many objects, each in a slot of its own, and no slot is vacant. -/
structure Full (h : Heap) (n : Nat) : Prop where
  free : h.free = []
  size : h.slots.size = n
  occupied : h.occupied = n
  live : h.live = n

theorem full_new (threshold : Nat) : (Heap.new threshold).Full 0 := ⟨rfl, rfl, rfl, rfl⟩

theorem Full.place (hf : h.Full n) : h.place.2.Full (n + 1) := by
  rw [place_of_nil hf.free]
  refine ⟨hf.free, ?_, ?_, congrArg (· + 1) hf.live⟩
  · rw [Array.size_push, hf.size]
  · have hocc := hf.occupied
    simpa [Heap.occupied] using hocc

theorem Full.allocations (hf : h.Full n) (k : Nat) (hk : n + k ≤ h.threshold) :
    ((allocations k).foldl Operation.apply h).Full (n + k) := by
  induction k generalizing h n with
  | zero => exact hf
  | succ k ih =>
    have hlt : h.live < h.threshold := by
      rw [hf.live]
      omega
    rw [allocations_succ, List.foldl_cons, allocate_of_lt hlt, ← Nat.add_assoc,
      Nat.add_right_comm n k 1]
    refine ih hf.place ?_
    rw [threshold_place]
    omega

theorem Full.collect_empty (hf : h.Full n) (hc : h.clear = h) :
    (h.collect #[]).2.slots.size = n ∧ (h.collect #[]).2.occupied = 0 ∧
      (h.collect #[]).2.live = 0 ∧ (h.collect #[]).2.free.length = n := by
  have hfreed : (h.collect #[]).1 = n := by
    have hsum := @collect_add_ncard h #[] hc
    rwa [ncard_reaches_empty, hf.occupied] at hsum
  refine ⟨(size_collect hc).trans hf.size, ?_, ?_, ?_⟩
  · rw [occupied_collect hc, ncard_reaches_empty]
  · rw [live_collect hc, hfreed, hf.live, Nat.sub_self]
  · rw [free_collect hc, hf.free, List.append_nil, List.length_map, List.length_reverse]
    exact hfreed

/-- Allocations for which there are numbers on the free list. -/
theorem refill (k : Nat) (hfree : k ≤ h.free.length) (hk : h.live + k ≤ h.threshold) :
    let filled := (allocations k).foldl Operation.apply h
    filled.slots.size = h.slots.size ∧ filled.live = h.live + k ∧
      ∀ n, 0x100000000 ≤ n → filled.vacant n = h.vacant n := by
  induction k generalizing h with
  | zero => exact ⟨rfl, rfl, fun _ _ => rfl⟩
  | succ k ih =>
    have hne : h.free ≠ [] := List.ne_nil_of_length_pos (by omega)
    have hlt : h.live < h.threshold := by omega
    have hsize : h.place.2.slots.size = h.slots.size := by
      rw [size_place, if_neg (by simpa using hne)]
    obtain ⟨hsizes, hlive, hvacant⟩ := @ih h.place.2
      (by rw [free_place, List.length_tail]; omega)
      (by rw [live_place, threshold_place]; omega)
    simp only [allocations_succ, List.foldl_cons, allocate_of_lt hlt]
    refine ⟨hsizes.trans hsize, hlive.trans ?_, fun n hn => ?_⟩
    · rw [live_place]
      omega
    · exact (hvacant n hn).trans (vacant_place hne hn)

/-- The objects of a heap are all freed, and as many are made again. -/
def refilled (n : Nat) : Heap :=
  (allocations n ++ .collect #[] :: allocations n).foldl Operation.apply (.new (n + 1))

theorem refilled_reachable (n : Nat) : (refilled n).Reachable := ⟨_, _, rfl⟩

/-- With more slots than numbers, two of the objects get the same slot, and the last slot none. -/
theorem occupied_lt_live_of_refilled (hn : 0x100000000 < n) :
    (refilled n).occupied < (refilled n).live := by
  have hr := (regular_new (n + 1)).foldl (allocations n)
  have hthreshold : ((allocations n).foldl Operation.apply (.new (n + 1))).threshold = n + 1 := by
    rw [threshold_foldl (regular_new (n + 1))]
    exact Nat.max_eq_left (Nat.le_add_left 1 n)
  have hfull := (full_new (n + 1)).allocations n (by simp [new])
  rw [Nat.zero_add] at hfull
  rw [refilled, List.foldl_append, List.foldl_cons]
  generalize (allocations n).foldl Operation.apply (.new (n + 1)) = full at hr hthreshold hfull ⊢
  obtain ⟨hsize, hempty, hlive, hfree⟩ := hfull.collect_empty hr.clear
  rw [← threshold_collect hr.clear #[]] at hthreshold
  obtain ⟨hsizes, hlives, hvacant⟩ := @refill (full.collect #[]).2 n (by omega) (by omega)
  -- the last slot is vacant now, and has no number of its own by which it could be filled again
  have hlast : (full.collect #[]).2.vacant (n - 1) :=
    vacant_of_occupied_eq_zero hempty (by omega)
  rw [← hvacant (n - 1) (by omega)] at hlast
  have hlt := occupied_lt_of_vacant hlast
  rw [hsizes, hsize] at hlt
  rw [hlive, Nat.zero_add] at hlives
  exact hlt.trans_eq hlives.symm

/-- A counter that is too high stays so: collections count the objects. -/
theorem collect_lt_of_occupied_lt (hc : h.clear = h) (hlt : h.occupied < h.live)
    (roots : Array Value) :
    (h.collect roots).1 + {r | h.Reaches roots r}.ncard < h.live ∧
      {r | h.Reaches roots r}.ncard < (h.collect roots).2.live := by
  have hsum := @collect_add_ncard h roots hc
  rw [live_collect hc]
  omega

end Drift

/-- A collection frees exactly what the roots do not reach: it ends and returns how many objects
these are, the objects left are as many as are reached, and what is reached keeps its handle, its
layout and its fields. As long as slots have 32-bit numbers, the live counter says how many objects
there are. -/
theorem collect_exact {h : Heap} (hh : h.Reachable) (roots : Array Value) :
    {r | h.Reaches roots r}.Finite ∧
      (h.collect roots).1 + {r | h.Reaches roots r}.ncard = h.occupied ∧
      (h.collect roots).2.occupied = {r | h.Reaches roots r}.ncard ∧
      (h.slots.size ≤ 0x100000000 →
        (h.collect roots).1 + {r | h.Reaches roots r}.ncard = h.live ∧
        (h.collect roots).2.live = {r | h.Reaches roots r}.ncard) ∧
      (∀ r, h.Resolves r → ((h.collect roots).2.Resolves r ↔ h.Reaches roots r)) ∧
      (∀ r, h.Reaches roots r → (h.collect roots).2.resolve? r = h.resolve? r) ∧
      (h.collect roots).2.layouts = h.layouts := by
  have hc := hh.regular.clear
  have hkept : ∀ r, h.Reaches roots r → (h.collect roots).2.resolve? r = h.resolve? r := by
    intro r hr
    obtain ⟨o, ho⟩ := hr.resolves
    rw [ho, (resolve?_collect hc).2 ⟨ho, hr⟩]
  refine ⟨(reaches_ncard hc).1, collect_add_ncard hc, occupied_collect hc, ?_, ?_, hkept,
    layouts_collect hc⟩
  · intro hs
    have ha := hh.accounted hs
    rw [ha.live, (ha.collect hc roots).live]
    exact ⟨collect_add_ncard hc, occupied_collect hc⟩
  · intro r ⟨o, ho⟩
    constructor
    · rintro ⟨p, hp⟩
      exact ((resolve?_collect hc).1 hp).2
    · intro hr
      exact ⟨o, (hkept r hr).trans ho⟩

/-- Two objects that hold each other, and a third one. -/
def ring : Heap :=
  List.foldl Operation.apply (.new 8)
    [.allocate #[], .allocate #[], .allocate #[], .addField ⟨0, 0⟩ 5, .addField ⟨1, 0⟩ 5,
      .setField ⟨0, 0⟩ 0 (.ref ⟨1, 0⟩), .setField ⟨1, 0⟩ 0 (.ref ⟨0, 0⟩)]

theorem collect_exact_ring :
    ring.Reachable ∧ ring.slots.size ≤ 0x100000000 ∧ ring.Reaches #[.ref ⟨1, 0⟩] ⟨0, 0⟩ ∧
      (ring.collect #[.ref ⟨1, 0⟩]).1 + {r | ring.Reaches #[.ref ⟨1, 0⟩] r}.ncard = 3 ∧
      (ring.collect #[.ref ⟨1, 0⟩]).2.resolve? ⟨0, 0⟩ = ring.resolve? ⟨0, 0⟩ := by
  have hh : ring.Reachable := ⟨8, _, rfl⟩
  have hs : ring.slots.size ≤ 0x100000000 := by decide
  have h1 : ring.Reaches #[.ref ⟨1, 0⟩] ⟨1, 0⟩ := .root (by simp) rfl
  have h0 : ring.Reaches #[.ref ⟨1, 0⟩] ⟨0, 0⟩ := .field h1 rfl (by simp) rfl
  obtain ⟨-, -, -, hlive, -, hkept, -⟩ := collect_exact hh #[.ref ⟨1, 0⟩]
  exact ⟨hh, hs, h0, (hlive hs).1, hkept _ h0⟩

/-- One object more than there are 32-bit numbers, all freed and made again: the collection does not
return what the counter says, and the counter says that something is left. -/
theorem not_live_collect :
    (refilled 0x100000001).Reachable ∧
      ((refilled 0x100000001).collect #[]).1 +
        {r | (refilled 0x100000001).Reaches #[] r}.ncard ≠ (refilled 0x100000001).live ∧
      ((refilled 0x100000001).collect #[]).2.live ≠
        {r | (refilled 0x100000001).Reaches #[] r}.ncard := by
  have hh := refilled_reachable 0x100000001
  have hlt : (refilled 0x100000001).occupied < (refilled 0x100000001).live :=
    occupied_lt_live_of_refilled (by decide)
  obtain ⟨hfreed, hleft⟩ := collect_lt_of_occupied_lt hh.regular.clear hlt #[]
  exact ⟨hh, Nat.ne_of_lt hfreed, Nat.ne_of_gt hleft⟩

end Heap

end StackMachine
