import StackMachine.Proofs.Heap.History

/-! What a program can see of the heap: behind each handle the names and values of the object's
fields, in the order in which the fields were added. Slots, layouts, free list and marks do not
show; every operation is said here by what it does to this view. -/

namespace StackMachine

structure Contents where
  names : List FieldId
  values : List Value
  deriving DecidableEq, Repr

namespace Heap

structure Sound (h : Heap) : Prop where
  regular : h.Regular
  accounted : h.Accounted

theorem Reachable.sound {h : Heap} (hh : h.Reachable) (hs : h.slots.size ≤ 0x100000000) :
    h.Sound :=
  ⟨hh.regular, hh.accounted hs⟩

def contents? (h : Heap) (r : ObjectRef) : Option Contents :=
  (h.resolve? r).map fun o => ⟨(h.layout o.layout).fields, o.fields.toList⟩

/-- `h'` is `h` with other contents behind one handle. -/
structure Updated (h h' : Heap) (r : ObjectRef) (c : Contents) : Prop where
  sound : h'.Sound
  size : h'.slots.size = h.slots.size
  contents : ∀ q, h'.contents? q = if q = r then some c else h.contents? q

section Fields

variable {h : Heap} {r : ObjectRef} {c : Contents}

theorem exists_object_of_contents (hc : h.contents? r = some c) :
    ∃ o, h.resolve? r = some o ∧ c = ⟨(h.layout o.layout).fields, o.fields.toList⟩ := by
  obtain ⟨o, ho, rfl⟩ := Option.map_eq_some_iff.1 hc
  exact ⟨o, ho, rfl⟩

theorem length_names (hr : h.Regular) (hc : h.contents? r = some c) :
    c.names.length = c.values.length := by
  obtain ⟨o, ho, rfl⟩ := exists_object_of_contents hc
  have hfits := (hr.fits_of_resolve? ho).2
  simp only [Array.length_toList, hfits]

theorem lookupField_of_contents (hc : h.contents? r = some c) (id : FieldId) :
    h.lookupField r id = .ok (c.names.idxOf? id) := by
  obtain ⟨o, ho, rfl⟩ := exists_object_of_contents hc
  simp only [lookupField, object, ho]
  rfl

theorem getField_of_contents (hc : h.contents? r = some c) {slot : Nat} {v : Value}
    (hv : c.values[slot]? = some v) : h.getField r slot = .ok v := by
  obtain ⟨o, ho, rfl⟩ := exists_object_of_contents hc
  rw [Array.getElem?_toList] at hv
  simp only [getField, object, ho, bind, Except.bind, hv]
  rfl

theorem contents?_setObject {h' : Heap} {o o' : HeapObject} (hr : h.Regular)
    (ho : h.resolve? r = some o) (hslots : h'.slots = h.slots)
    (hlayout : ∀ n, n < h.layouts.size → (h'.layout n).fields = (h.layout n).fields)
    (q : ObjectRef) : (h'.setObject r.index o').contents? q =
      if q = r then some ⟨(h'.layout o'.layout).fields, o'.fields.toList⟩ else h.contents? q := by
  have hsame : ∀ p, h'.resolve? p = h.resolve? p := by
    intro p
    rw [resolve?, hslots]
    rfl
  have hl : ∀ n, (h'.setObject r.index o').layout n = h'.layout n := by simp [layout]
  unfold contents?
  rw [resolve?_setObject ((hsame r).trans ho), hsame]
  split
  · simp [hl]
  · cases hq : h.resolve? q with
    | none => rfl
    | some p => simp [hl, hlayout _ (hr.fits_of_resolve? hq).1]

theorem setField_of_contents (hs : h.Sound) (hc : h.contents? r = some c) {slot : Nat}
    (hslot : slot < c.values.length) (v : Value) :
    ∃ h', setField r slot v h = .ok () h' ∧
      Updated h h' r { c with values := c.values.set slot v } := by
  obtain ⟨o, ho, rfl⟩ := exists_object_of_contents hc
  rw [Array.length_toList] at hslot
  have heq : setField r slot v h =
      .ok () (h.setObject r.index { o with fields := o.fields.setIfInBounds slot v }) := by
    simp [setField, ho, hslot]
  refine ⟨_, heq, ⟨?_, ?_⟩, by simp, fun q => ?_⟩
  · have hregular := regular_setField hs.regular r slot v
    rwa [heq] at hregular
  · have haccounted := accounted_setField hs.accounted r slot v
    rwa [heq] at haccounted
  · rw [contents?_setObject hs.regular ho rfl fun n _ => rfl]
    simp

theorem addField_of_missing (hr : h.Regular) (hc : h.contents? r = some c) {id : FieldId}
    (hn : c.names.idxOf? id = none) :
    ∃ h', addField r id h = .ok c.values.length h' ∧ h'.slots.size = h.slots.size ∧
      ∀ q, h'.contents? q =
        if q = r then some ⟨c.names ++ [id], c.values ++ [.zero]⟩ else h.contents? q := by
  obtain ⟨o, ho, rfl⟩ := exists_object_of_contents hc
  obtain ⟨target, h', -, hh, -, hfields, heq⟩ := addField_of_none hr ho hn
  have hsize := size_left_addField hr r id
  rw [heq] at hsize
  have hlt := (hr.fits_of_resolve? ho).1
  have hslots : h'.slots = h.slots := by rcases hh with rfl | rfl <;> rfl
  have hlayout : ∀ n, n < h.layouts.size → (h'.layout n).fields = (h.layout n).fields := by
    intro n hn
    rcases hh with rfl | rfl
    · rfl
    · exact fields_layout_grown hlt hn
  refine ⟨_, heq, hsize, fun q => ?_⟩
  rw [contents?_setObject hr ho hslots hlayout, hfields]
  simp

theorem addField_of_contents (hs : h.Sound) (hc : h.contents? r = some c) {id : FieldId}
    (hn : c.names.idxOf? id = none) :
    ∃ h', addField r id h = .ok c.values.length h' ∧
      Updated h h' r ⟨c.names ++ [id], c.values ++ [.zero]⟩ := by
  obtain ⟨h', heq, hsize, hcontents⟩ := addField_of_missing hs.regular hc hn
  have hregular := regular_addField hs.regular r id
  have haccounted := accounted_addField hs.regular hs.accounted r id
  rw [heq] at hregular haccounted
  exact ⟨h', heq, ⟨hregular, haccounted⟩, hsize, hcontents⟩

end Fields

section Collect

variable {h : Heap} {roots : Array Value} {r : ObjectRef} {c : Contents}

theorem Reaches.of_root (hr : Value.ref r ∈ roots) (hc : h.contents? r = some c) :
    h.Reaches roots r := by
  obtain ⟨o, ho, -⟩ := exists_object_of_contents hc
  exact .root hr ho

theorem Reaches.of_values {p : ObjectRef} {d : Contents} (hp : h.Reaches roots p)
    (hd : h.contents? p = some d) (hr : Value.ref r ∈ d.values) (hc : h.contents? r = some c) :
    h.Reaches roots r := by
  obtain ⟨o, ho, rfl⟩ := exists_object_of_contents hd
  obtain ⟨o', ho', -⟩ := exists_object_of_contents hc
  exact .field hp ho (Array.mem_toList_iff.1 hr) ho'

theorem Sound.collect (hs : h.Sound) (roots : Array Value) : (h.collect roots).2.Sound :=
  ⟨hs.regular.collect roots, hs.accounted.collect hs.regular.clear roots⟩

theorem contents?_collect (hs : h.Sound) (hr : h.Reaches roots r) :
    (h.collect roots).2.contents? r = h.contents? r := by
  obtain ⟨o, ho⟩ := hr.resolves
  have hl : (h.collect roots).2.layouts = h.layouts := layouts_collect hs.regular.clear
  unfold contents?
  rw [(resolve?_collect hs.regular.clear).2 ⟨ho, hr⟩, ho]
  simp [layout, hl]

theorem contents?_place (hr : h.Regular) (ha : h.Accounted)
    (hroom : h.place.2.slots.size ≤ 0x100000000) (q : ObjectRef) :
    h.place.2.contents? q = if q = h.place.1 then some ⟨[], []⟩ else h.contents? q := by
  obtain ⟨-, hview, -⟩ := place_spec ha hroom
  have hl : ∀ n, h.place.2.layout n = h.layout n := by simp [layout]
  unfold contents?
  rw [hview]
  split
  · simp [hl, blank, hr.root.2]
  · simp [hl]

/-- Allocation keeps what the roots reach and gives a handle of its own to a new object. -/
theorem allocate_of_room (hs : h.Sound) (roots : Array Value)
    (hroom : (h.allocate roots).2.1.slots.size ≤ 0x100000000) :
    (h.allocate roots).2.1.Sound ∧
      (h.allocate roots).2.1.contents? (h.allocate roots).1 = some ⟨[], []⟩ ∧
      ∀ q, h.Reaches roots q → q ≠ (h.allocate roots).1 ∧
        (h.allocate roots).2.1.contents? q = h.contents? q := by
  have hregular := hs.regular.makeRoom roots
  have haccounted := hs.accounted.makeRoom hs.regular roots
  have hkept : ∀ q, h.Reaches roots q → (h.makeRoom roots).1.contents? q = h.contents? q := by
    intro q hq
    rw [makeRoom_eq]
    split
    · exact contents?_collect hs hq
    · rfl
  obtain ⟨hnew, -, hplaced⟩ := place_spec haccounted hroom
  have hcontents := contents?_place hregular haccounted hroom
  refine ⟨⟨hregular.place, hplaced⟩, ?_, fun q hq => ?_⟩
  · exact (hcontents _).trans (if_pos rfl)
  · -- what is reached resolves before the new object is placed, and the new handle does not
    have hne : q ≠ (h.allocate roots).1 := by
      rintro rfl
      obtain ⟨o, ho⟩ := hq.resolves
      have hsome := hkept _ hq
      unfold contents? at hsome
      rw [ho] at hsome
      rw [show (h.allocate roots).1 = (h.makeRoom roots).1.place.1 from rfl, hnew] at hsome
      cases hsome
    exact ⟨hne, ((hcontents q).trans (if_neg hne)).trans (hkept q hq)⟩

end Collect

end Heap

end StackMachine
