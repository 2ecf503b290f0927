import StackMachine.Proofs.Heap.Collection

/-! What every heap keeps, whatever is done to it. `Regular` is about objects and layouts and holds
without any bound. `Accounted` is about the free list and the live counter; it needs that every
slot has a number that a handle can carry. -/

namespace StackMachine

namespace Heap

/-- One operation, with any arguments. -/
inductive Operation where
  | allocate (roots : Array Value)
  | setField (r : ObjectRef) (slot : Nat) (v : Value)
  | addField (r : ObjectRef) (id : FieldId)
  | collect (roots : Array Value)

def left {α : Type} : EStateM.Result MemoryError Heap α → Heap
  | .ok _ h => h
  | .error _ h => h

def Operation.apply (h : Heap) : Operation → Heap
  | .allocate roots => (h.allocate roots).2.1
  | .setField r slot v => left (Heap.setField r slot v h)
  | .addField r id => left (Heap.addField r id h)
  | .collect roots => (h.collect roots).2

/-- What any sequence of operations makes of a new heap. -/
def Reachable (h : Heap) : Prop :=
  ∃ threshold operations, h = List.foldl Operation.apply (.new threshold) operations

def Fits (h : Heap) (o : HeapObject) : Prop :=
  o.layout < h.layouts.size ∧ o.fields.size = (h.layout o.layout).fields.length

structure Regular (h : Heap) : Prop where
  clear : h.clear = h
  root : 0 < h.layouts.size ∧ (h.layout rootLayout).fields = []
  /-- A recorded transition leads to a layout that is longer by the one field. -/
  edge : ∀ p id t, p < h.layouts.size → (h.layout p).transitions.lookup id = some t →
    t < h.layouts.size ∧ (h.layout t).fields = (h.layout p).fields ++ [id]
  fits : ∀ (i : Nat) (g : UInt32) (o : HeapObject), h.slots[i]? = some ⟨g, some o⟩ → h.Fits o

structure Accounted (h : Heap) : Prop where
  addressable : h.slots.size ≤ 0x100000000
  nodup : h.free.Nodup
  free : ∀ i : UInt32, i ∈ h.free ↔ ∃ g, h.slots[i.toNat]? = some ⟨g, none⟩
  live : h.live = h.occupied

theorem regular_new (threshold : Nat) : (Heap.new threshold).Regular where
  clear := by simp [new, Heap.clear]
  root := by simp [new, layout, rootLayout]
  edge p id t hp ht := by
    have hp : p = 0 := by simpa [new] using hp
    subst hp
    simp [new, layout] at ht
  fits i g o ho := by simp [new] at ho

theorem accounted_new (threshold : Nat) : (Heap.new threshold).Accounted where
  addressable := by simp [new]
  nodup := by simp [new]
  free := by simp [new]
  live := by simp [new, occupied]

theorem Regular.fits_of_resolve? {h : Heap} (hr : h.Regular) {r : ObjectRef} {o : HeapObject}
    (ho : h.resolve? r = some o) : h.Fits o :=
  hr.fits _ _ _ (resolve?_eq_some_iff.1 ho)

theorem Regular.unmarked {h : Heap} (hr : h.Regular) {r : ObjectRef} {o : HeapObject}
    (ho : h.resolve? r = some o) : o.marked = false := by
  rw [← hr.clear, resolve?_clear] at ho
  obtain ⟨x, -, rfl⟩ := Option.map_eq_some_iff.1 ho
  rfl

theorem clear_setObject {h : Heap} (hc : h.clear = h) (i : UInt32) {o : HeapObject}
    (ho : o.marked = false) : (h.setObject i o).clear = h.setObject i o := by
  have hso : ∀ g, Slot.clear ⟨g, some o⟩ = ⟨g, some o⟩ := by
    intro g
    cases o
    simp_all [Slot.clear, HeapObject.clear]
  obtain ⟨hslots, hgray⟩ := clear_eq_self_iff.1 hc
  refine clear_eq_self_iff.2 ⟨?_, by simpa using hgray⟩
  unfold setObject
  split
  next hi => simp [Array.map_set, hso, hslots]
  next => exact hslots

section SetObject

variable {h : Heap} {r : ObjectRef} {o : HeapObject}

theorem occupied_setObject {i : UInt32} {g : UInt32} {x : Option HeapObject}
    (hs : h.slots[i.toNat]? = some ⟨g, x⟩) (o : HeapObject) :
    (h.setObject i o).occupied = if x.isSome then h.occupied else h.occupied + 1 := by
  obtain ⟨hi, hs⟩ := Array.getElem?_eq_some_iff.1 hs
  simp only [occupied, setObject, hi, dif_pos, Array.countP_set, hs, Option.isSome_some, if_true]
  cases x with
  | none => simp
  | some x =>
    have hpos : 0 < h.slots.countP fun s => s.object.isSome :=
      Array.countP_pos_iff.2 ⟨_, Array.getElem_mem hi, by simp [hs]⟩
    simp only [Option.isSome_some, if_true]
    omega

theorem Regular.setObject (hr : h.Regular) (i : UInt32) (hf : h.Fits o) (ho : o.marked = false) :
    (h.setObject i o).Regular where
  clear := clear_setObject hr.clear i ho
  root := by simpa [layout] using hr.root
  edge := by simpa [layout] using hr.edge
  fits j g x hx := by
    have hfits : (h.setObject i o).Fits x ↔ h.Fits x := by simp [Fits, layout]
    rw [getElem?_setObject] at hx
    split at hx
    · obtain ⟨s, -, hs⟩ := Option.map_eq_some_iff.1 hx
      obtain ⟨-, rfl⟩ : s.generation = g ∧ o = x := by simpa using hs
      exact hfits.2 hf
    · exact hfits.2 (hr.fits j g x hx)

theorem Accounted.setObject (ha : h.Accounted) (ho : h.resolve? r = some o) (o' : HeapObject) :
    (h.setObject r.index o').Accounted where
  addressable := by simpa using ha.addressable
  nodup := by simpa using ha.nodup
  free i := by
    rw [free_setObject, ha.free, getElem?_setObject]
    split
    next hi => rw [← hi, resolve?_eq_some_iff.1 ho]; simp
    next => rfl
  live := by
    rw [occupied_setObject (resolve?_eq_some_iff.1 ho), live_setObject, ha.live]
    rfl

end SetObject

theorem regular_setField {h : Heap} (hr : h.Regular) (r : ObjectRef) (slot : Nat) (v : Value) :
    (left (setField r slot v h)).Regular := by
  unfold setField
  split
  next => exact hr
  next o ho =>
    split
    next =>
      have hf := hr.fits_of_resolve? ho
      have hunmarked := hr.unmarked ho
      exact hr.setObject _ ⟨hf.1, by simpa using hf.2⟩ hunmarked
    next => exact hr

theorem accounted_setField {h : Heap} (ha : h.Accounted) (r : ObjectRef) (slot : Nat)
    (v : Value) : (left (setField r slot v h)).Accounted := by
  unfold setField
  split
  next => exact ha
  next o ho =>
    split
    next => exact ha.setObject ho _
    next => exact ha

section Layouts

variable {h : Heap} {source : Nat} {id : FieldId}

def grown (h : Heap) (source : Nat) (id : FieldId) : Heap :=
  let layouts := h.layouts.push { fields := (h.layout source).fields ++ [id] }
  { h with layouts := layouts.modify source fun l =>
      { l with transitions := (id, h.layouts.size) :: l.transitions } }

theorem extendLayout_of_some {target : Nat}
    (ht : (h.layout source).transitions.lookup id = some target) :
    h.extendLayout source id = (target, h) := by
  simp [extendLayout, ht]

theorem extendLayout_of_none (hn : (h.layout source).transitions.lookup id = none) :
    h.extendLayout source id = (h.layouts.size, h.grown source id) := by
  simp [extendLayout, hn, grown]

@[simp] theorem size_layouts_grown : (h.grown source id).layouts.size = h.layouts.size + 1 := by
  simp [grown]

theorem layout_grown (hs : source < h.layouts.size) (n : Nat) :
    (h.grown source id).layout n =
      if n = source then
        { h.layout source with
          transitions := (id, h.layouts.size) :: (h.layout source).transitions }
      else if n = h.layouts.size then { fields := (h.layout source).fields ++ [id] }
      else h.layout n := by
  by_cases hn : n = source
  · subst hn
    simp [grown, layout, Array.getElem?_modify, Array.getElem?_push, Nat.ne_of_lt hs, hs]
  · simp only [grown, layout, Array.getElem?_modify, Array.getElem?_push, hn, Ne.symm hn, if_false]
    split <;> rfl

theorem fields_layout_grown (hs : source < h.layouts.size) {n : Nat} (hn : n < h.layouts.size) :
    ((h.grown source id).layout n).fields = (h.layout n).fields := by
  rw [layout_grown hs]
  by_cases hns : n = source
  · rw [if_pos hns, hns]
  · rw [if_neg hns, if_neg (Nat.ne_of_lt hn)]

theorem Fits.grown {o : HeapObject} (hf : h.Fits o) (hs : source < h.layouts.size) :
    (h.grown source id).Fits o := by
  refine ⟨?_, ?_⟩
  · rw [size_layouts_grown]
    exact Nat.lt_succ_of_lt hf.1
  · rw [fields_layout_grown hs hf.1]
    exact hf.2

theorem Regular.grown (hr : h.Regular) (hs : source < h.layouts.size) :
    (h.grown source id).Regular where
  clear := by
    obtain ⟨hslots, hgray⟩ := clear_eq_self_iff.1 hr.clear
    exact clear_eq_self_iff.2 ⟨hslots, hgray⟩
  root := by
    refine ⟨by simp, ?_⟩
    have hroot := @fields_layout_grown h source id hs 0 hr.root.1
    exact hroot.trans hr.root.2
  edge p i t hp ht := by
    rw [layout_grown hs] at ht
    have hold : ∀ q, q < h.layouts.size → (h.layout q).transitions.lookup i = some t →
        t < (h.grown source id).layouts.size ∧
          ((h.grown source id).layout t).fields = ((h.grown source id).layout q).fields ++ [i] := by
      intro q hq hqt
      obtain ⟨hlt, hf⟩ := hr.edge q i t hq hqt
      rw [size_layouts_grown, fields_layout_grown hs hlt, fields_layout_grown hs hq]
      exact ⟨Nat.lt_succ_of_lt hlt, hf⟩
    by_cases hps : p = source
    · rw [if_pos hps, List.lookup_cons] at ht
      by_cases hi : i = id
      · obtain rfl : h.layouts.size = t := by simpa [hi] using ht
        rw [hps, fields_layout_grown hs hs, layout_grown hs, if_neg (Nat.ne_of_gt hs)]
        simp [hi]
      · exact hps ▸ hold source hs (by simpa [beq_eq_false_iff_ne.2 hi] using ht)
    · by_cases hpn : p = h.layouts.size
      · simp [hpn, Nat.ne_of_gt hs] at ht
      · rw [if_neg hps, if_neg hpn] at ht
        rw [size_layouts_grown] at hp
        exact hold p (by omega) ht
  fits i g o ho := (hr.fits i g o ho).grown hs

theorem Accounted.grown (ha : h.Accounted) : (h.grown source id).Accounted :=
  ⟨ha.addressable, ha.nodup, ha.free, ha.live⟩

/-- Both branches of `extendLayout`: the answer is a layout with the one field more, and the
layouts that were there keep their fields. -/
theorem extendLayout_spec (hr : h.Regular) (hs : source < h.layouts.size) (id : FieldId) :
    ∃ target h', h.extendLayout source id = (target, h') ∧ h'.Regular ∧
      (h' = h ∨ h' = h.grown source id) ∧ target < h'.layouts.size ∧
      (h'.layout target).fields = (h.layout source).fields ++ [id] := by
  cases ht : (h.layout source).transitions.lookup id with
  | some target =>
    obtain ⟨hlt, hf⟩ := hr.edge _ _ _ hs ht
    exact ⟨target, h, extendLayout_of_some ht, hr, .inl rfl, hlt, hf⟩
  | none =>
    refine ⟨_, _, extendLayout_of_none ht, hr.grown hs, .inr rfl, by simp, ?_⟩
    rw [layout_grown hs, if_neg (Nat.ne_of_gt hs), if_pos rfl]

end Layouts

end Heap

end StackMachine
