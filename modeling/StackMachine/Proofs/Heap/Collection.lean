import StackMachine.Proofs.Heap.Marking
import Mathlib.Data.Set.Card

/-! What a collection leaves. A handle resolves afterwards exactly if the roots reached it, to the
object it named before; the slots that held objects are counted on both sides. -/

namespace StackMachine

def Slot.isMarked (s : Slot) : Bool := s.object.any HeapObject.marked

namespace Heap

def occupied (h : Heap) : Nat := h.slots.countP fun s => s.object.isSome

theorem occupied_clear (h : Heap) : h.clear.occupied = h.occupied := by
  simp only [occupied, clear, Array.countP_map]
  congr 1
  funext s
  simp [Slot.clear]

theorem occupied_eq_marked_add_unmarked (h : Heap) :
    h.occupied = h.slots.countP Slot.isMarked + h.slots.countP Slot.unmarked := by
  rcases h with ⟨⟨slots⟩, _, _, _, _, _⟩
  simp only [occupied, List.countP_toArray]
  induction slots with
  | nil => rfl
  | cons s slots ih =>
    simp only [List.countP_cons, ih]
    rcases s with ⟨g, _ | ⟨l, f, _ | _⟩⟩ <;> simp [Slot.isMarked, Slot.unmarked] <;> omega

theorem occupied_sweep (h : Heap) : h.sweep.occupied = h.slots.countP Slot.isMarked := by
  simp only [occupied, sweep, Array.countP_map]
  congr 1
  funext s
  rcases s with ⟨g, _ | ⟨l, f, _ | _⟩⟩ <;> rfl

theorem countP_zipIdx {α : Type} (p : α → Bool) (xs : List α) :
    xs.zipIdx.countP (fun x => p x.1) = xs.countP p := by
  calc xs.zipIdx.countP (fun x => p x.1) = (xs.zipIdx.map Prod.fst).countP p :=
        List.countP_map.symm
    _ = xs.countP p := by rw [List.zipIdx_map_fst]

theorem length_unmarkedSlots (h : Heap) :
    h.unmarkedSlots.length = h.slots.countP Slot.unmarked := by
  rcases h with ⟨⟨slots⟩, _, _, _, _, _⟩
  simp only [unmarkedSlots, List.length_map, List.countP_toArray, ← List.countP_eq_length_filter]
  exact countP_zipIdx Slot.unmarked slots

theorem resolve?_sweep (h : Heap) (r : ObjectRef) :
    h.sweep.resolve? r =
      (h.resolve? r).bind fun o => if o.marked then some o.clear else none := by
  unfold resolve?
  simp only [sweep, Array.getElem?_map]
  cases h.slots[r.index.toNat]? with
  | none => rfl
  | some s =>
    rcases s with ⟨g, _ | ⟨l, f, _ | _⟩⟩
    · by_cases hg : g = r.generation <;> simp [Slot.sweep, hg]
    · by_cases hg : g = r.generation <;> simp [Slot.sweep, hg]
    · by_cases hg : g = r.generation <;> simp [Slot.sweep, HeapObject.clear, hg]

@[simp] theorem layouts_clear (h : Heap) : h.clear.layouts = h.layouts := rfl

@[simp] theorem layouts_sweep (h : Heap) : h.sweep.layouts = h.layouts := rfl

theorem clear_sweep (h : Heap) (hg : h.gray = []) : h.sweep.clear = h.sweep := by
  have hs : Slot.clear ∘ Slot.sweep = Slot.sweep := by
    funext s
    rcases s with ⟨g, _ | ⟨l, f, _ | _⟩⟩ <;> rfl
  simp [clear, sweep, hs, hg]

def markedRefs (h : Heap) : List ObjectRef :=
  (h.slots.toList.zipIdx.filter fun (s, _) => s.isMarked).map
    fun (s, i) => ⟨UInt32.ofNat i, s.generation⟩

theorem length_markedRefs (h : Heap) : h.markedRefs.length = h.slots.countP Slot.isMarked := by
  rcases h with ⟨⟨slots⟩, _, _, _, _, _⟩
  simp only [markedRefs, List.length_map, List.countP_toArray, ← List.countP_eq_length_filter]
  exact countP_zipIdx Slot.isMarked slots

section Marked

variable {h₀ h : Heap} {roots : Array Value}

theorem Marking.index_lt (hm : Marking h₀ roots [] h) {s : Slot} {i : Nat}
    (hs : h.slots[i]? = some s) (hmark : s.isMarked) : i < 0x100000000 := by
  rcases s with ⟨g, _ | o⟩
  · simp [Slot.isMarked] at hmark
  · obtain ⟨r, rfl, -, -⟩ := hm.sound i g o hs hmark
    exact r.index.toNat_lt

theorem Marking.mem_markedRefs (hm : Marking h₀ roots [] h) {r : ObjectRef} :
    r ∈ h.markedRefs ↔ h.Marked r := by
  simp only [markedRefs, List.mem_map, List.mem_filter, Prod.exists, List.mem_zipIdx_iff_getElem?,
    Array.getElem?_toList]
  constructor
  · rintro ⟨s, i, ⟨hs, hmark⟩, rfl⟩
    have hi := hm.index_lt hs hmark
    rcases s with ⟨g, _ | o⟩
    · simp [Slot.isMarked] at hmark
    · refine ⟨o, resolve?_eq_some_iff.2 ?_, hmark⟩
      rwa [UInt32.toNat_ofNat_of_lt' (by simpa using hi)]
  · rintro ⟨o, ho, hmark⟩
    refine ⟨_, _, ⟨resolve?_eq_some_iff.1 ho, hmark⟩, ?_⟩
    simp

theorem Marking.nodup_markedRefs (hm : Marking h₀ roots [] h) : h.markedRefs.Nodup := by
  refine List.Nodup.map_on ?_ (List.Nodup.filter _ ?_)
  · rintro ⟨s, i⟩ hs ⟨t, j⟩ ht he
    simp only [List.mem_filter, List.mem_zipIdx_iff_getElem?, Array.getElem?_toList] at hs ht
    simp only [ObjectRef.mk.injEq] at he
    have hij : i = j := by
      have := congrArg UInt32.toNat he.1
      rwa [UInt32.toNat_ofNat_of_lt' (by simpa using hm.index_lt hs.1 hs.2),
        UInt32.toNat_ofNat_of_lt' (by simpa using hm.index_lt ht.1 ht.2)] at this
    subst hij
    rw [hs.1] at ht
    simp_all
  · exact List.Nodup.of_map Prod.snd (by simpa [List.zipIdx_map_snd] using List.nodup_range' ..)

end Marked

variable {h : Heap} {roots : Array Value}

/-- The reachable handles are as many as the slots that marking marks. -/
theorem reaches_ncard (hc : h.clear = h) :
    {r | h.Reaches roots r}.Finite ∧
      {r | h.Reaches roots r}.ncard = (h.mark roots).slots.countP Slot.isMarked := by
  have hm := (marking_mark hc roots).1
  have hset : {r | h.Reaches roots r} = ((h.mark roots).markedRefs.toFinset : Set ObjectRef) := by
    ext r
    simp only [Set.mem_ofPred_eq, List.coe_toFinset, hm.mem_markedRefs]
    exact (marked_mark hc).symm
  rw [hset, Set.ncard_coe_finset, List.toFinset_card_of_nodup hm.nodup_markedRefs,
    length_markedRefs]
  exact ⟨Finset.finite_toSet _, rfl⟩

theorem resolve?_collect (hc : h.clear = h) {r : ObjectRef} {o : HeapObject} :
    (h.collect roots).2.resolve? r = some o ↔ h.resolve? r = some o ∧ h.Reaches roots r := by
  have hclear := (marking_mark hc roots).1.clear
  have hr : h.resolve? r = ((h.mark roots).resolve? r).map HeapObject.clear := by
    rw [← resolve?_clear, hclear]
  rw [← marked_mark hc, hr]
  simp only [collect, resolve?_sweep, Marked]
  cases (h.mark roots).resolve? r with
  | none => simp
  | some x => by_cases hx : x.marked <;> simp [hx]

@[simp] theorem layouts_collect (hc : h.clear = h) : (h.collect roots).2.layouts = h.layouts := by
  have hclear := (marking_mark hc roots).1.clear
  calc (h.mark roots).layouts = (h.mark roots).clear.layouts := rfl
    _ = h.layouts := by rw [hclear]

theorem clear_collect (hc : h.clear = h) : (h.collect roots).2.clear = (h.collect roots).2 :=
  clear_sweep _ (marking_mark hc roots).2

/-- What is freed and what is kept make up all that was there. -/
theorem collect_add_ncard (hc : h.clear = h) :
    (h.collect roots).1 + {r | h.Reaches roots r}.ncard = h.occupied := by
  have hclear := (marking_mark hc roots).1.clear
  have hocc : h.occupied = (h.mark roots).occupied := by
    rw [← occupied_clear (h.mark roots), hclear]
  rw [hocc, occupied_eq_marked_add_unmarked, (reaches_ncard hc).2, Nat.add_comm]
  simp [collect, length_unmarkedSlots]

theorem occupied_collect (hc : h.clear = h) :
    (h.collect roots).2.occupied = {r | h.Reaches roots r}.ncard := by
  rw [(reaches_ncard hc).2]
  exact occupied_sweep _

end Heap

end StackMachine
