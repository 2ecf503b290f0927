import StackMachine.Proofs.Heap.Contents

/-! An object is a finite map from field names to values. The map is what the operations on its own
handle make of it: as long as whatever may collect is given roots that reach the object, no other
operation shows in it, whichever slots are emptied and whichever layouts are shared. -/

namespace StackMachine

namespace Heap

/-- An operation that may collect is given roots that reach the object. -/
def Operation.Keeps (o : ObjectRef) (h : Heap) : Operation → Prop
  | .allocate roots | .collect roots => h.Reaches roots o
  | .setField .. | .addField .. => True

/-- Every operation keeps the object, in the heap that the ones before have left. -/
def Kept (o : ObjectRef) : Heap → List Operation → Prop
  | _, [] => True
  | h, op :: ops => op.Keeps o h ∧ Kept o (op.apply h) ops

/-- The value that the operation sets in a slot of the object. -/
def Operation.sets? (o : ObjectRef) (slot : Nat) : Operation → Option Value
  | .setField r s v => if r = o ∧ s = slot then some v else none
  | _ => none

/-- The value set last in a slot of the object. -/
def lastSet? (o : ObjectRef) (slot : Nat) (ops : List Operation) : Option Value :=
  (ops.filterMap (Operation.sets? o slot)).getLast?

end Heap

open Heap

/-- What an operation makes of the contents of the object `o`. -/
def Contents.apply (o : ObjectRef) (c : Contents) : Operation → Contents
  | .addField r id =>
    if r = o ∧ id ∉ c.names then ⟨c.names ++ [id], c.values ++ [.zero]⟩ else c
  | .setField r slot v => if r = o then { c with values := c.values.set slot v } else c
  | .allocate _ | .collect _ => c

namespace Heap

section Steps

variable {h : Heap} {o r : ObjectRef} {c : Contents}

theorem Sound.apply (hs : h.Sound) (op : Operation)
    (hsize : (op.apply h).slots.size ≤ 0x100000000) : (op.apply h).Sound :=
  ⟨hs.regular.apply op, hs.accounted.apply hs.regular op hsize⟩

theorem Sound.foldl (hs : h.Sound) (ops : List Operation)
    (hsize : (ops.foldl Operation.apply h).slots.size ≤ 0x100000000) :
    (ops.foldl Operation.apply h).Sound :=
  ⟨hs.regular.foldl ops, hs.accounted.foldl hs.regular ops hsize⟩

theorem resolve?_of_contents_none (hn : h.contents? r = none) : h.resolve? r = none :=
  Option.map_eq_none_iff.1 hn

theorem contents?_setField (hs : h.Sound) (hc : h.contents? o = some c) (r : ObjectRef)
    (slot : Nat) (v : Value) :
    (left (setField r slot v h)).contents? o = some (c.apply o (.setField r slot v)) := by
  cases hr : h.contents? r with
  | none =>
    have hne : r ≠ o := by
      rintro rfl
      cases hr.symm.trans hc
    simp only [setField, resolve?_of_contents_none hr, left, hc, Contents.apply, if_neg hne]
  | some d =>
    by_cases hslot : slot < d.values.length
    · obtain ⟨h', heq, hupdated⟩ := setField_of_contents hs hr hslot v
      rw [heq, left, hupdated.contents, Contents.apply]
      by_cases hro : r = o
      · subst hro
        obtain rfl : d = c := Option.some.inj (hr.symm.trans hc)
        rw [if_pos rfl, if_pos rfl]
      · rw [if_neg (Ne.symm hro), if_neg hro, hc]
    · -- the object has no such slot, so nothing is set
      obtain ⟨x, hx, rfl⟩ := exists_object_of_contents hr
      have hsame : left (setField r slot v h) = h := by
        simp only [setField, hx, ← Array.length_toList, if_neg hslot, left]
      rw [hsame, hc, Contents.apply]
      by_cases hro : r = o
      · subst hro
        obtain rfl := Option.some.inj (hr.symm.trans hc)
        rw [if_pos rfl, List.set_eq_of_length_le (Nat.le_of_not_lt hslot)]
      · rw [if_neg hro]

theorem addField_of_mem (hc : h.contents? r = some c) {id : FieldId} {slot : Nat}
    (hslot : c.names.idxOf? id = some slot) : addField r id h = .ok slot h := by
  obtain ⟨x, hx, rfl⟩ := exists_object_of_contents hc
  exact addField_of_some hx hslot

theorem contents?_addField (hs : h.Sound) (hc : h.contents? o = some c) (r : ObjectRef)
    (id : FieldId) :
    (left (addField r id h)).contents? o = some (c.apply o (.addField r id)) := by
  cases hr : h.contents? r with
  | none =>
    have hne : ¬ (r = o ∧ id ∉ c.names) := by
      rintro ⟨rfl, -⟩
      cases hr.symm.trans hc
    simp only [addField, resolve?_of_contents_none hr, left, hc, Contents.apply, if_neg hne]
  | some d =>
    cases hslot : d.names.idxOf? id with
    | some slot =>
      rw [addField_of_mem hr hslot, left, hc, Contents.apply, if_neg]
      rintro ⟨rfl, hid⟩
      obtain rfl := Option.some.inj (hr.symm.trans hc)
      rw [List.idxOf?_eq_none_iff.2 hid] at hslot
      cases hslot
    | none =>
      obtain ⟨h', heq, hupdated⟩ := addField_of_contents hs hr hslot
      rw [heq, left, hupdated.contents, Contents.apply]
      by_cases hro : r = o
      · subst hro
        obtain rfl := Option.some.inj (hr.symm.trans hc)
        rw [if_pos rfl, if_pos ⟨rfl, List.idxOf?_eq_none_iff.1 hslot⟩]
      · rw [if_neg (Ne.symm hro), if_neg fun hand => hro hand.1, hc]

/-- An operation does to an object what it says, if it says something of its handle. -/
theorem contents?_apply (hs : h.Sound) (hc : h.contents? o = some c) {op : Operation}
    (hkeeps : op.Keeps o h) (hsize : (op.apply h).slots.size ≤ 0x100000000) :
    (op.apply h).contents? o = some (c.apply o op) := by
  cases op with
  | setField r slot v => exact contents?_setField hs hc r slot v
  | addField r id => exact contents?_addField hs hc r id
  | collect roots => exact (contents?_collect hs hkeeps).trans hc
  | allocate roots =>
    obtain ⟨-, -, hkept⟩ := allocate_of_room hs roots hsize
    exact (hkept o hkeeps).2.trans hc

theorem contents?_foldl (hs : h.Sound) (hc : h.contents? o = some c) {ops : List Operation}
    (hkept : Kept o h ops) (hsize : (ops.foldl Operation.apply h).slots.size ≤ 0x100000000) :
    (ops.foldl Operation.apply h).contents? o = some (ops.foldl (Contents.apply o) c) := by
  induction ops generalizing h c with
  | nil => exact hc
  | cons op ops ih =>
    have hop := Nat.le_trans (size_le_foldl (hs.regular.apply op) ops) hsize
    exact ih (hs.apply op hop) (contents?_apply hs hc hkept.1 hop) hkept.2 hsize

theorem kept_append {before after : List Operation} :
    Kept o h (before ++ after) ↔
      Kept o h before ∧ Kept o (before.foldl Operation.apply h) after := by
  induction before generalizing h with
  | nil => exact (iff_of_eq (true_and _)).symm
  | cons op before ih => exact (and_congr_right fun _ => ih).trans and_assoc.symm

end Steps

end Heap

namespace Contents

variable {o : ObjectRef} {c : Contents} {id : FieldId} {slot : Nat}

theorem mem_names_apply (op : Operation) :
    id ∈ (c.apply o op).names ↔ id ∈ c.names ∨ op = .addField o id := by
  cases op with
  | setField r s v =>
    simp only [Contents.apply, reduceCtorEq, or_false]
    split <;> rfl
  | allocate | collect => simp [Contents.apply]
  | addField r field =>
    simp only [Contents.apply, Operation.addField.injEq]
    split
    next hnew =>
      obtain ⟨rfl, -⟩ := hnew
      simp [eq_comm]
    next hold =>
      constructor
      · exact .inl
      · rintro (hmem | ⟨rfl, rfl⟩)
        · exact hmem
        · exact not_not.1 fun hid => hold ⟨rfl, hid⟩

theorem mem_names_foldl (ops : List Operation) :
    id ∈ (ops.foldl (Contents.apply o) c).names ↔ id ∈ c.names ∨ .addField o id ∈ ops := by
  induction ops generalizing c with
  | nil => simp
  | cons op ops ih =>
    rw [List.foldl_cons, ih, mem_names_apply, or_assoc, List.mem_cons, eq_comm (a := op)]

/-- Fields stay where they are. -/
theorem idxOf?_foldl (h : c.names.idxOf? id = some slot) (ops : List Operation) :
    (ops.foldl (Contents.apply o) c).names.idxOf? id = some slot := by
  induction ops generalizing c with
  | nil => exact h
  | cons op ops ih =>
    apply ih
    cases op with
    | setField r s v =>
      simp only [Contents.apply]
      split <;> exact h
    | allocate | collect => exact h
    | addField r field =>
      simp only [Contents.apply]
      split
      · simp [List.idxOf?, List.findIdx?_append] at h ⊢
        simp [h]
      · exact h

theorem values_apply {v : Value} (h : c.values[slot]? = some v) (op : Operation) :
    (c.apply o op).values[slot]? = some ((op.sets? o slot).getD v) := by
  have hlt := (List.getElem?_eq_some_iff.1 h).1
  cases op with
  | allocate | collect => exact h
  | addField r field =>
    simp only [Contents.apply, Operation.sets?, Option.getD_none]
    split
    · rw [List.getElem?_append_left hlt, h]
    · exact h
  | setField r s w =>
    simp only [Contents.apply, Operation.sets?]
    by_cases hr : r = o
    · by_cases hs : s = slot
      · simp [hr, hs, hlt]
      · simp [hr, hs, List.getElem?_set_ne hs, h]
    · simp [hr, h]

theorem values_foldl {v : Value} (h : c.values[slot]? = some v) (ops : List Operation) :
    (ops.foldl (Contents.apply o) c).values[slot]? = some ((lastSet? o slot ops).getD v) := by
  induction ops generalizing c v with
  | nil => exact h
  | cons op ops ih =>
    rw [List.foldl_cons, ih (values_apply h op), lastSet?, lastSet?, List.filterMap_cons]
    cases op.sets? o slot with
    | none => rfl
    | some w => simp [List.getLast?_cons]

theorem idxOf?_concat (h : id ∉ c.names) :
    (c.names ++ [id]).idxOf? id = some c.names.length := by
  have hnone : c.names.findIdx? (· == id) = none := List.idxOf?_eq_none_iff.2 h
  simp [List.idxOf?, List.findIdx?_append, hnone]

/-- A field that is new goes behind the others. It stays there, and has what was set there last. -/
theorem field_foldl (hid : id ∉ c.names) (hlength : c.names.length = c.values.length)
    (ops : List Operation) :
    ((.addField o id :: ops).foldl (Contents.apply o) c).names.idxOf? id =
        some c.values.length ∧
      ((.addField o id :: ops).foldl (Contents.apply o) c).values[c.values.length]? =
        some ((lastSet? o c.values.length ops).getD .zero) := by
  have hadded : c.apply o (.addField o id) = ⟨c.names ++ [id], c.values ++ [.zero]⟩ :=
    if_pos ⟨rfl, hid⟩
  have hname := idxOf?_concat hid
  rw [hlength] at hname
  rw [List.foldl_cons, hadded]
  exact ⟨idxOf?_foldl hname ops, values_foldl (by simp) ops⟩

end Contents

namespace Heap

/-- The first addition of a field tells its slot, for good, and there is what was set there last. -/
theorem field_of_added {h : Heap} {o : ObjectRef} {c : Contents} {id : FieldId}
    (hs : h.Sound) (hc : h.contents? o = some c) (hid : id ∉ c.names) {ops : List Operation}
    (hkept : Kept o h (.addField o id :: ops))
    (hsize : ((.addField o id :: ops).foldl Operation.apply h).slots.size ≤ 0x100000000) :
    let later := (.addField o id :: ops).foldl Operation.apply h
    ∃ slot h', addField o id h = .ok slot h' ∧ later.lookupField o id = .ok (some slot) ∧
      addField o id later = .ok slot later ∧
      later.getField o slot = .ok ((lastSet? o slot ops).getD .zero) := by
  intro later
  have hlater := contents?_foldl hs hc hkept hsize
  obtain ⟨h', hadd, -⟩ := addField_of_contents hs hc (List.idxOf?_eq_none_iff.2 hid)
  obtain ⟨hslot, hvalue⟩ := Contents.field_foldl (o := o) hid (length_names hs.regular hc) ops
  refine ⟨_, h', hadd, ?_, addField_of_mem hlater hslot, getField_of_contents hlater hvalue⟩
  rw [lookupField_of_contents hlater, hslot]

/-- An object refines a map, from its allocation on, as long as it is kept. It has the fields that
were added to it. The first addition of a field tells its slot, for good, and in the slot is what
was set there last, or zero. -/
theorem fields_of_object {h : Heap} (hh : h.Reachable) (roots : Array Value)
    (ops : List Operation)
    (hsize : (ops.foldl Operation.apply (Operation.apply h (.allocate roots))).slots.size ≤
      0x100000000)
    (hkept : Kept (h.allocate roots).1 (Operation.apply h (.allocate roots)) ops)
    (id : FieldId) :
    let o := (h.allocate roots).1
    let new := Operation.apply h (.allocate roots)
    let later := ops.foldl Operation.apply new
    (later.lookupField o id = .ok none ↔ .addField o id ∉ ops) ∧
      ∀ before after, ops = before ++ .addField o id :: after → .addField o id ∉ before →
        ∃ slot h', addField o id (before.foldl Operation.apply new) = .ok slot h' ∧
          later.lookupField o id = .ok (some slot) ∧ addField o id later = .ok slot later ∧
          later.getField o slot = .ok ((lastSet? o slot after).getD .zero) := by
  intro o new later
  have hnewsize := Nat.le_trans (size_le_foldl (hh.regular.apply (.allocate roots)) ops) hsize
  have hs : h.Sound :=
    hh.sound (Nat.le_trans (size_le_apply hh.regular (.allocate roots)) hnewsize)
  obtain ⟨hsnew, hcnew, -⟩ := allocate_of_room hs roots hnewsize
  change new.Sound at hsnew
  change new.contents? o = some ⟨[], []⟩ at hcnew
  constructor
  · have hlater := contents?_foldl hsnew hcnew hkept hsize
    rw [lookupField_of_contents hlater, Except.ok.injEq, List.idxOf?_eq_none_iff,
      Contents.mem_names_foldl]
    simp
  · rintro before after rfl hfirst
    obtain ⟨hbefore, hafter⟩ := kept_append.1 hkept
    rw [List.foldl_append] at hsize
    have hbeforesize := Nat.le_trans (size_le_foldl (hsnew.regular.foldl before) _) hsize
    have hc := contents?_foldl hsnew hcnew hbefore hbeforesize
    have hid : id ∉ (before.foldl (Contents.apply o) ⟨[], []⟩).names := by
      rw [Contents.mem_names_foldl]
      simpa using hfirst
    have hfield := field_of_added (hsnew.foldl before hbeforesize) hc hid hafter hsize
    rwa [← List.foldl_append] at hfield

/-- A second object shares the layout of the first one. It is freed, and its handle used again. -/
def shared : List Operation :=
  [.setField ⟨0, 0⟩ 0 (.int 4), .addField ⟨0, 0⟩ 7, .allocate #[.ref ⟨0, 0⟩], .addField ⟨1, 0⟩ 7,
    .setField ⟨0, 0⟩ 0 (.int 5), .collect #[.int 1, .ref ⟨0, 0⟩], .setField ⟨1, 0⟩ 0 (.int 9),
    .setField ⟨0, 0⟩ 0 (.int 6), .setField ⟨0, 0⟩ 1 (.int 3)]

theorem fields_of_object_shared :
    (Heap.new 2).Reachable ∧
    Kept ⟨0, 0⟩ (Operation.apply (.new 2) (.allocate #[])) shared ∧
    (shared.foldl Operation.apply (Operation.apply (.new 2) (.allocate #[]))).slots.size ≤
      0x100000000 ∧
    (shared.foldl Operation.apply (Operation.apply (.new 2) (.allocate #[]))).lookupField
      ⟨0, 0⟩ 7 = .ok (some 0) ∧
    (shared.foldl Operation.apply (Operation.apply (.new 2) (.allocate #[]))).getField
      ⟨0, 0⟩ 0 = .ok (.int 6) := by
  have hh : (Heap.new 2).Reachable := ⟨2, [], rfl⟩
  have hreach : ∀ h : Heap, ∀ x, h.resolve? ⟨0, 0⟩ = some x →
      h.Reaches #[.ref ⟨0, 0⟩] ⟨0, 0⟩ ∧ h.Reaches #[.int 1, .ref ⟨0, 0⟩] ⟨0, 0⟩ := fun h x hx =>
    ⟨.root (by simp) hx, .root (by simp) hx⟩
  have hkept : Kept ⟨0, 0⟩ (Operation.apply (.new 2) (.allocate #[])) shared :=
    ⟨trivial, trivial, (hreach _ _ rfl).1, trivial, trivial, (hreach _ _ rfl).2, trivial, trivial,
      trivial, trivial⟩
  have hsize : (shared.foldl Operation.apply
      (Operation.apply (.new 2) (.allocate #[]))).slots.size ≤ 0x100000000 := by decide +kernel
  obtain ⟨slot, h', hadd, hlookup, -, hget⟩ :=
    (fields_of_object hh #[] shared hsize hkept 7).2 [_] _ rfl (by simp)
  have hslot : addField ⟨0, 0⟩ 7 (Operation.apply (Operation.apply (.new 2) (.allocate #[]))
      (.setField ⟨0, 0⟩ 0 (.int 4))) = .ok slot h' := hadd
  obtain rfl : 0 = slot := by
    cases hslot
    rfl
  exact ⟨hh, hkept, hsize, hlookup, hget⟩

end Heap

end StackMachine
