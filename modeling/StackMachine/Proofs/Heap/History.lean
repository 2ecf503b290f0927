import StackMachine.Proofs.Heap.Regular

/-! Every operation keeps a heap regular, and accounted for as long as slots have 32-bit numbers;
so both hold of every heap that can be reached. -/

namespace StackMachine

namespace Heap

section AddField

variable {h : Heap} {r : ObjectRef} {o : HeapObject} {id : FieldId}

theorem addField_of_some {slot : Nat} (ho : h.resolve? r = some o)
    (hs : (h.layout o.layout).slot? id = some slot) : addField r id h = .ok slot h := by
  simp [addField, ho, hs]

theorem addField_of_none (hr : h.Regular) (ho : h.resolve? r = some o)
    (hn : (h.layout o.layout).slot? id = none) :
    ∃ target h', h'.Regular ∧ (h' = h ∨ h' = h.grown o.layout id) ∧
      target < h'.layouts.size ∧
      (h'.layout target).fields = (h.layout o.layout).fields ++ [id] ∧
      addField r id h = .ok o.fields.size
        (h'.setObject r.index { o with layout := target, fields := o.fields.push .zero }) := by
  obtain ⟨target, h', he, hr', hh, hlt, hf⟩ :=
    extendLayout_spec hr (hr.fits_of_resolve? ho).1 id
  exact ⟨target, h', hr', hh, hlt, hf, by simp [addField, ho, hn, he]⟩

theorem regular_addField (hr : h.Regular) (r : ObjectRef) (id : FieldId) :
    (left (addField r id h)).Regular := by
  cases ho : h.resolve? r with
  | none => simpa [addField, ho, left] using hr
  | some o =>
    cases hs : (h.layout o.layout).slot? id with
    | some slot => simpa [addField_of_some ho hs, left] using hr
    | none =>
      obtain ⟨target, h', hr', -, hlt, hf, he⟩ := addField_of_none hr ho hs
      have hunmarked := hr.unmarked ho
      rw [he]
      refine hr'.setObject _ ⟨hlt, ?_⟩ hunmarked
      simp [hf, (hr.fits_of_resolve? ho).2]

theorem accounted_addField (hr : h.Regular) (ha : h.Accounted) (r : ObjectRef) (id : FieldId) :
    (left (addField r id h)).Accounted := by
  cases ho : h.resolve? r with
  | none => simpa [addField, ho, left] using ha
  | some o =>
    cases hs : (h.layout o.layout).slot? id with
    | some slot => simpa [addField_of_some ho hs, left] using ha
    | none =>
      obtain ⟨target, h', -, hh, -, -, he⟩ := addField_of_none hr ho hs
      rw [he]
      rcases hh with rfl | rfl
      · exact ha.setObject ho _
      · exact ha.grown.setObject (r := r) (o := o) ho _

end AddField

section Collect

variable {h : Heap} {roots : Array Value}

theorem mem_unmarkedSlots {n : Nat} :
    n ∈ h.unmarkedSlots ↔ ∃ s, h.slots[n]? = some s ∧ s.unmarked = true := by
  simp [unmarkedSlots, List.mem_zipIdx_iff_getElem?]

theorem nodup_unmarkedSlots (h : Heap) : h.unmarkedSlots.Nodup := by
  refine List.Nodup.sublist (List.filter_sublist.map _) ?_
  rw [List.zipIdx_map_snd]
  exact List.nodup_range'

theorem slots_mark (hc : h.clear = h) (roots : Array Value) :
    h.slots = (h.mark roots).slots.map Slot.clear :=
  congrArg Heap.slots (marking_mark hc roots).1.clear.symm

theorem getElem?_collect (hc : h.clear = h) (i : Nat) :
    (∃ s, h.slots[i]? = some s.clear ∧ (h.mark roots).slots[i]? = some s ∧
        (h.collect roots).2.slots[i]? = some s.sweep) ∨
      h.slots[i]? = none ∧ (h.mark roots).slots[i]? = none ∧
        (h.collect roots).2.slots[i]? = none := by
  rw [slots_mark hc roots]
  simp only [collect, sweep, Array.getElem?_map]
  cases (h.mark roots).slots[i]? with
  | none => exact .inr ⟨rfl, rfl, rfl⟩
  | some s => exact .inl ⟨s, rfl, rfl, rfl⟩

@[simp] theorem size_collect (hc : h.clear = h) :
    (h.collect roots).2.slots.size = h.slots.size := by
  rw [slots_mark hc roots]
  simp [collect, sweep]

theorem free_collect (hc : h.clear = h) : (h.collect roots).2.free =
    (h.mark roots).unmarkedSlots.reverse.map UInt32.ofNat ++ h.free := by
  rw [← congrArg Heap.free (marking_mark hc roots).1.clear]
  rfl

theorem live_collect (hc : h.clear = h) :
    (h.collect roots).2.live = h.live - (h.collect roots).1 := by
  rw [← congrArg Heap.live (marking_mark hc roots).1.clear]
  rfl

theorem Regular.collect (hr : h.Regular) (roots : Array Value) :
    (h.collect roots).2.Regular := by
  have hl : (h.collect roots).2.layouts = h.layouts := layouts_collect hr.clear
  have hlayout : ∀ n, (h.collect roots).2.layout n = h.layout n := by simp [layout, hl]
  refine ⟨clear_collect hr.clear, ?_, ?_, ?_⟩
  · simpa [hl, hlayout] using hr.root
  · simpa [hl, hlayout] using hr.edge
  · intro i g o ho
    have hfits : (h.collect roots).2.Fits o ↔ h.Fits o := by simp [Fits, hl, hlayout]
    obtain ⟨s, hs, -, hs'⟩ | ⟨-, -, hn⟩ := @getElem?_collect h roots hr.clear i
    · rw [ho] at hs'
      refine hfits.2 (hr.fits i g o ?_)
      rw [hs]
      rcases s with ⟨_, _ | ⟨l, f, _ | _⟩⟩ <;> simp_all [Slot.sweep, Slot.clear, HeapObject.clear]
    · simp [hn] at ho

theorem Accounted.collect (ha : h.Accounted) (hc : h.clear = h) (roots : Array Value) :
    (h.collect roots).2.Accounted := by
  -- slots have 32-bit numbers, so freed slots stay distinct as entries of the free list
  have hbound : ∀ n ∈ (h.mark roots).unmarkedSlots, (UInt32.ofNat n).toNat = n := by
    intro n hn
    obtain ⟨s, hs, -⟩ := mem_unmarkedSlots.1 hn
    obtain ⟨hi, -⟩ := Array.getElem?_eq_some_iff.1 hs
    have hsize := ha.addressable
    rw [slots_mark hc roots, Array.size_map] at hsize
    exact UInt32.toNat_ofNat_of_lt' (by simpa using Nat.lt_of_lt_of_le hi hsize)
  have hmem : ∀ i : UInt32, i ∈ (h.mark roots).unmarkedSlots.map UInt32.ofNat ↔
      i.toNat ∈ (h.mark roots).unmarkedSlots := by
    intro i
    simp only [List.mem_map]
    constructor
    · rintro ⟨n, hn, rfl⟩
      rwa [hbound n hn]
    · intro hi
      exact ⟨_, hi, by simp⟩
  refine ⟨by simpa [hc] using ha.addressable, ?_, ?_, ?_⟩
  · rw [free_collect hc, List.map_reverse, List.nodup_append]
    refine ⟨List.nodup_reverse.2 ?_, ha.nodup, ?_⟩
    · refine List.Nodup.map_on ?_ (nodup_unmarkedSlots _)
      intro m hm n hn he
      rw [← hbound m hm, ← hbound n hn, he]
    · rintro i hi j hj rfl
      obtain ⟨s, hs, hu⟩ := mem_unmarkedSlots.1 ((hmem i).1 (by simpa using hi))
      obtain ⟨g, hg⟩ := (ha.free i).1 hj
      rw [slots_mark hc roots, Array.getElem?_map, hs] at hg
      rcases s with ⟨_, _ | o⟩ <;> simp_all [Slot.unmarked, Slot.clear]
  · intro i
    rw [free_collect hc, List.mem_append, List.map_reverse, List.mem_reverse, hmem,
      mem_unmarkedSlots, ha.free]
    obtain ⟨s, hs, hm, hs'⟩ | ⟨hs, hm, hs'⟩ := @getElem?_collect h roots hc i.toNat
    · rw [hs, hm, hs']
      rcases s with ⟨g, _ | ⟨l, f, _ | _⟩⟩ <;> simp [Slot.sweep, Slot.clear, Slot.unmarked]
    · simp [hs, hm, hs']
  · have hsum := @collect_add_ncard h roots hc
    rw [live_collect hc, occupied_collect hc, ha.live]
    omega

end Collect

section Place

variable {h : Heap}

def blank : HeapObject := { layout := rootLayout, fields := #[] }

theorem place_of_cons {i : UInt32} {rest : List UInt32} {g : UInt32} {x : Option HeapObject}
    (hf : h.free = i :: rest) (hs : h.slots[i.toNat]? = some ⟨g, x⟩) :
    h.place = (⟨i, g⟩, { h.setObject i blank with free := rest, live := h.live + 1 }) := by
  simp [place, hf, hs, blank]

theorem place_of_nil (hf : h.free = []) :
    h.place = (⟨UInt32.ofNat h.slots.size, 0⟩,
      { h with slots := h.slots.push ⟨0, some blank⟩, live := h.live + 1 }) := by
  simp [place, hf, blank]

theorem Regular.fits_blank (hr : h.Regular) : h.Fits blank :=
  ⟨hr.root.1, by simp [blank, hr.root.2]⟩

theorem Regular.place (hr : h.Regular) : h.place.2.Regular := by
  have hfits := hr.fits_blank
  cases hf : h.free with
  | cons i rest =>
    have hset := hr.setObject i hfits rfl
    obtain ⟨hslots, hgray⟩ := clear_eq_self_iff.1 hset.clear
    simp only [Heap.place, hf]
    exact ⟨clear_eq_self_iff.2 ⟨hslots, hgray⟩, hset.root, hset.edge, hset.fits⟩
  | nil =>
    obtain ⟨hslots, hgray⟩ := clear_eq_self_iff.1 hr.clear
    rw [place_of_nil hf]
    refine ⟨clear_eq_self_iff.2 ⟨?_, hgray⟩, hr.root, hr.edge, ?_⟩
    · simp only [Array.map_push, hslots]
      rfl
    · intro i g o ho
      simp only [Array.getElem?_push] at ho
      split at ho
      · obtain ⟨-, rfl⟩ : (0 : UInt32) = g ∧ blank = o := by simpa using ho
        exact hfits
      · exact hr.fits i g o ho

section Reuse

variable {i : UInt32} {rest : List UInt32} {g : UInt32}
  (hf : h.free = i :: rest) (hs : h.slots[i.toNat]? = some ⟨g, none⟩)
include hf hs

theorem resolve?_place_of_cons (q : ObjectRef) :
    h.place.2.resolve? q = if q = h.place.1 then some blank else h.resolve? q := by
  rw [place_of_cons hf hs]
  simp only [resolve?, getElem?_setObject h i blank]
  by_cases hi : i.toNat = q.index.toNat
  · rw [if_pos hi, ← hi, hs]
    have hiq : i = q.index := UInt32.toNat_inj.1 hi
    by_cases hg : g = q.generation
    · simp [hiq, hg]
    · have hq : q ≠ ⟨i, g⟩ := fun he => hg (by rw [he])
      simp [hq, hg]
  · have hq : q ≠ ⟨i, g⟩ := fun he => hi (by rw [he])
    rw [if_neg hi, if_neg hq]

theorem Accounted.place_of_cons (ha : h.Accounted) : h.place.2.Accounted := by
  have hnodup := ha.nodup
  rw [hf, List.nodup_cons] at hnodup
  rw [Heap.place_of_cons hf hs]
  have hget := getElem?_setObject h i blank
  refine ⟨by simpa using ha.addressable, hnodup.2, ?_, ?_⟩
  · intro j
    simp only [hget]
    by_cases hj : i.toNat = j.toNat
    · obtain rfl : i = j := UInt32.toNat_inj.1 hj
      simp [hs, hnodup.1]
    · have hij : j ≠ i := fun he => hj (by rw [he])
      rw [if_neg hj, ← ha.free, hf, List.mem_cons]
      simp [hij]
  · have hocc := occupied_setObject hs blank
    change h.live + 1 = (h.setObject i blank).occupied
    rw [hocc, ha.live]
    rfl

end Reuse

section Growth

variable (hf : h.free = [])
include hf

theorem resolve?_place_of_nil (hroom : h.slots.size < 0x100000000) (q : ObjectRef) :
    h.place.2.resolve? q = if q = h.place.1 then some blank else h.resolve? q := by
  have hi : (UInt32.ofNat h.slots.size).toNat = h.slots.size := UInt32.toNat_ofNat_of_lt' hroom
  rw [place_of_nil hf]
  simp only [resolve?, Array.getElem?_push]
  by_cases hq : q.index.toNat = h.slots.size
  · rw [if_pos hq]
    have hqi : q.index = UInt32.ofNat h.slots.size := by rw [← UInt32.toNat_inj, hi, hq]
    by_cases hg : 0 = q.generation
    · have hqr : q = ⟨UInt32.ofNat h.slots.size, 0⟩ := by cases q; simp_all
      rw [if_pos hqr]
      simp [hg]
    · have hqr : q ≠ ⟨UInt32.ofNat h.slots.size, 0⟩ := fun he => hg (by rw [he])
      rw [if_neg hqr]
      simp [hq, hg]
  · have hqr : q ≠ ⟨UInt32.ofNat h.slots.size, 0⟩ := fun he => hq (by rw [he]; exact hi)
    rw [if_neg hq, if_neg hqr]

theorem Accounted.place_of_nil (ha : h.Accounted) (hroom : h.slots.size < 0x100000000) :
    h.place.2.Accounted := by
  rw [Heap.place_of_nil hf]
  refine ⟨by simpa using hroom, by simp [hf], ?_, ?_⟩
  · intro j
    have hj := ha.free j
    rw [hf] at hj
    simp only [hf, List.not_mem_nil, false_iff, Array.getElem?_push] at hj ⊢
    split
    · simp [blank]
    · exact hj
  · simp [occupied, ha.live]

end Growth

/-- The new object has a handle that named nothing; every other handle names what it named. -/
theorem place_spec (ha : h.Accounted) (hroom : h.place.2.slots.size ≤ 0x100000000) :
    h.resolve? h.place.1 = none ∧
      (∀ q, h.place.2.resolve? q = if q = h.place.1 then some blank else h.resolve? q) ∧
      h.place.2.Accounted := by
  cases hf : h.free with
  | cons i rest =>
    obtain ⟨g, hs⟩ := (ha.free i).1 (hf ▸ List.mem_cons_self)
    refine ⟨?_, resolve?_place_of_cons hf hs, ha.place_of_cons hf hs⟩
    rw [place_of_cons hf hs]
    simp [resolve?, hs]
  | nil =>
    rw [place_of_nil hf, Array.size_push] at hroom
    -- the slot past the end has a number of its own only while numbers do not wrap around
    have hi : (UInt32.ofNat h.slots.size).toNat = h.slots.size :=
      UInt32.toNat_ofNat_of_lt' hroom
    refine ⟨?_, resolve?_place_of_nil hf hroom, ha.place_of_nil hf hroom⟩
    rw [place_of_nil hf]
    simp [resolve?, hi]

@[simp] theorem layouts_place : h.place.2.layouts = h.layouts := by
  unfold place
  split <;> simp

end Place

section Allocate

variable {h : Heap} {roots : Array Value}

theorem makeRoom_eq (h : Heap) (roots : Array Value) :
    (h.makeRoom roots).1 = if h.threshold ≤ h.live then (h.collect roots).2 else h := by
  unfold makeRoom
  split <;> rfl

theorem Regular.makeRoom (hr : h.Regular) (roots : Array Value) :
    (h.makeRoom roots).1.Regular := by
  rw [makeRoom_eq]
  split
  · exact hr.collect roots
  · exact hr

theorem Accounted.makeRoom (ha : h.Accounted) (hr : h.Regular) (roots : Array Value) :
    (h.makeRoom roots).1.Accounted := by
  rw [makeRoom_eq]
  split
  · exact ha.collect hr.clear roots
  · exact ha

@[simp] theorem size_makeRoom (hc : h.clear = h) :
    (h.makeRoom roots).1.slots.size = h.slots.size := by
  rw [makeRoom_eq]
  split
  · exact size_collect hc
  · rfl

end Allocate

section History

variable {h : Heap}

theorem size_place (h : Heap) :
    h.place.2.slots.size = if h.free.isEmpty then h.slots.size + 1 else h.slots.size := by
  unfold place
  split
  next hf => simp [hf]
  next hf => simp [hf]

theorem size_left_setField (r : ObjectRef) (slot : Nat) (v : Value) :
    (left (setField r slot v h)).slots.size = h.slots.size := by
  unfold setField
  split
  next => rfl
  next => split <;> simp [left]

theorem size_left_addField (hr : h.Regular) (r : ObjectRef) (id : FieldId) :
    (left (addField r id h)).slots.size = h.slots.size := by
  cases ho : h.resolve? r with
  | none => simp [addField, ho, left]
  | some o =>
    cases hs : (h.layout o.layout).slot? id with
    | some slot => simp [addField_of_some ho hs, left]
    | none =>
      obtain ⟨target, h', -, hh, -, -, he⟩ := addField_of_none hr ho hs
      rcases hh with rfl | rfl <;> simp [he, left, grown]

theorem Regular.apply (hr : h.Regular) (op : Operation) : (op.apply h).Regular := by
  cases op with
  | allocate roots => exact (hr.makeRoom roots).place
  | setField r slot v => exact regular_setField hr r slot v
  | addField r id => exact regular_addField hr r id
  | collect roots => exact hr.collect roots

theorem size_le_apply (hr : h.Regular) (op : Operation) :
    h.slots.size ≤ (op.apply h).slots.size := by
  cases op with
  | allocate roots =>
    have hsize := size_place (h.makeRoom roots).1
    rw [size_makeRoom hr.clear] at hsize
    change h.slots.size ≤ (h.makeRoom roots).1.place.2.slots.size
    rw [hsize]
    split <;> omega
  | setField r slot v => exact Nat.le_of_eq (size_left_setField r slot v).symm
  | addField r id => exact Nat.le_of_eq (size_left_addField hr r id).symm
  | collect roots => exact Nat.le_of_eq (size_collect hr.clear).symm

theorem Accounted.apply (ha : h.Accounted) (hr : h.Regular) (op : Operation)
    (hs : (op.apply h).slots.size ≤ 0x100000000) : (op.apply h).Accounted := by
  cases op with
  | allocate roots => exact (place_spec (ha.makeRoom hr roots) hs).2.2
  | setField r slot v => exact accounted_setField ha r slot v
  | addField r id => exact accounted_addField hr ha r id
  | collect roots => exact ha.collect hr.clear roots

theorem Regular.foldl (hr : h.Regular) (ops : List Operation) :
    (ops.foldl Operation.apply h).Regular := by
  induction ops generalizing h with
  | nil => exact hr
  | cons op ops ih => exact ih (hr.apply op)

theorem size_le_foldl (hr : h.Regular) (ops : List Operation) :
    h.slots.size ≤ (ops.foldl Operation.apply h).slots.size := by
  induction ops generalizing h with
  | nil => exact Nat.le_refl _
  | cons op ops ih => exact Nat.le_trans (size_le_apply hr op) (ih (hr.apply op))

theorem Accounted.foldl (ha : h.Accounted) (hr : h.Regular) (ops : List Operation)
    (hs : (ops.foldl Operation.apply h).slots.size ≤ 0x100000000) :
    (ops.foldl Operation.apply h).Accounted := by
  induction ops generalizing h with
  | nil => exact ha
  | cons op ops ih =>
    have hop := Nat.le_trans (size_le_foldl (hr.apply op) ops) hs
    exact ih (ha.apply hr op hop) (hr.apply op) hs

theorem Reachable.regular (hh : h.Reachable) : h.Regular := by
  obtain ⟨threshold, ops, rfl⟩ := hh
  exact (regular_new threshold).foldl ops

theorem Reachable.accounted (hh : h.Reachable) (hs : h.slots.size ≤ 0x100000000) :
    h.Accounted := by
  obtain ⟨threshold, ops, rfl⟩ := hh
  exact (accounted_new threshold).foldl (regular_new threshold) ops hs

theorem Reachable.apply (hh : h.Reachable) (op : Operation) : (op.apply h).Reachable := by
  obtain ⟨threshold, ops, rfl⟩ := hh
  exact ⟨threshold, ops ++ [op], by simp⟩

end History

end Heap

end StackMachine
