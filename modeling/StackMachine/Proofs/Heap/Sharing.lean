import Mathlib.Data.Set.Card
import StackMachine.Proofs.Heap.Layouts

/-! Objects share layouts as far as they can. A chronicle, kept beside the heap, knows of every
object ever allocated which fields it gained, in order. The layout of a live object is what the
chronicle says of it, and there is a layout for each beginning of what an object gained, whether it
is still live or not, and no other. -/

namespace StackMachine

namespace Heap

/-- The slot that the next object is put into. -/
def nextSlot (h : Heap) : Nat :=
  match h.free with
  | index :: _ => index.toNat
  | [] => h.slots.size

def objectAt? (h : Heap) (n : Nat) : Option HeapObject := h.slots[n]?.bind Slot.object

/-- The objects ever allocated, first one first. -/
structure Chronicle where
  /-- The fields that each object gained, in order. -/
  gained : List (List FieldId) := []
  /-- Which of the objects was put into a slot last. -/
  occupant : Nat → Nat := fun _ => 0

/-- A field is gained once. -/
def gain (id : FieldId) (ids : List FieldId) : List FieldId := if id ∈ ids then ids else ids ++ [id]

namespace Chronicle

/-- A new object is put into the slot. -/
def born (c : Chronicle) (slot : Nat) : Chronicle :=
  ⟨c.gained ++ [[]], Function.update c.occupant slot c.gained.length⟩

/-- The object in the slot is given the field. -/
def given (c : Chronicle) (slot : Nat) (id : FieldId) : Chronicle :=
  { c with gained := c.gained.modify (c.occupant slot) (gain id) }

/-- The chronicle after an operation on the heap `h`. -/
def note (c : Chronicle) (h : Heap) : Operation → Chronicle
  | .allocate roots => c.born (h.makeRoom roots).1.nextSlot
  | .addField r id => if (h.resolve? r).isSome then c.given r.index.toNat id else c
  | .setField .. | .collect .. => c

/-- What the object in the slot gained, if ever one was put there. -/
def gainedAt? (c : Chronicle) (slot : Nat) : Option (List FieldId) := c.gained[c.occupant slot]?

/-- The beginnings of what objects gained, without the empty one. -/
def beginnings (c : Chronicle) : Set (List FieldId) :=
  {ids | ids ≠ [] ∧ ∃ all ∈ c.gained, ids <+: all}

end Chronicle

/-- The chronicle of operations from the heap on. -/
def chronicle : Heap → Chronicle → List Operation → Chronicle
  | _, c, [] => c
  | h, c, op :: ops => chronicle (op.apply h) (c.note h op) ops

structure Told (c : Chronicle) (h : Heap) : Prop where
  tells : ∀ n o, h.objectAt? n = some o → c.gainedAt? n = some (h.layout o.layout).fields
  apart : ∀ n m o o', h.objectAt? n = some o → h.objectAt? m = some o' →
    c.occupant n = c.occupant m → n = m
  recorded : ∀ ids ∈ c.gained, ∃ p, p < h.layouts.size ∧ (h.layout p).fields = ids
  performed : ∀ p, p < h.layouts.size → (h.layout p).fields ≠ [] →
    ∃ ids ∈ c.gained, (h.layout p).fields <+: ids

namespace Chronicle

variable {c : Chronicle} {n m : Nat} {id : FieldId} {ids : List FieldId}

theorem lt_of_gainedAt? (hn : c.gainedAt? n = some ids) : c.occupant n < c.gained.length :=
  (List.getElem?_eq_some_iff.1 hn).1

theorem mem_of_gainedAt? (hn : c.gainedAt? n = some ids) : ids ∈ c.gained := List.mem_of_getElem? hn

theorem occupant_born_self : (c.born n).occupant n = c.gained.length := Function.update_self ..

theorem occupant_born_of_ne (hm : m ≠ n) : (c.born n).occupant m = c.occupant m :=
  Function.update_of_ne hm ..

theorem gainedAt?_born_self : (c.born n).gainedAt? n = some [] := by
  rw [gainedAt?, occupant_born_self, born, List.getElem?_concat_length]

theorem gainedAt?_born_of_ne (hm : m ≠ n) (hlt : c.occupant m < c.gained.length) :
    (c.born n).gainedAt? m = c.gainedAt? m := by
  rw [gainedAt?, occupant_born_of_ne hm, born, List.getElem?_append_left hlt, gainedAt?]

theorem gainedAt?_given_self (hn : c.gainedAt? n = some ids) :
    (c.given n id).gainedAt? n = some (gain id ids) := by
  rw [gainedAt?] at hn
  rw [gainedAt?, given, List.getElem?_modify_eq, hn]
  rfl

theorem gainedAt?_given_of_ne (hne : c.occupant n ≠ c.occupant m) :
    (c.given n id).gainedAt? m = c.gainedAt? m :=
  List.getElem?_modify_ne _ _ hne

/-- Of the sequences one gets longer, or none. -/
theorem mem_given (hn : c.gainedAt? n = some ids) {all : List FieldId}
    (hall : all ∈ (c.given n id).gained) : all = gain id ids ∨ all ∈ c.gained := by
  obtain ⟨k, hk⟩ := List.mem_iff_getElem?.1 hall
  by_cases hkn : c.occupant n = k
  · have hself : (c.given n id).gainedAt? n = some (gain id ids) := gainedAt?_given_self hn
    rw [gainedAt?, show (c.given n id).occupant n = k from hkn, hk] at hself
    exact .inl (Option.some.inj hself)
  · rw [given, List.getElem?_modify_ne _ _ hkn] at hk
    exact .inr (List.mem_of_getElem? hk)

theorem mem_given_or (id : FieldId) (hn : c.gainedAt? n = some ids) {all : List FieldId}
    (hall : all ∈ c.gained) : all = ids ∨ all ∈ (c.given n id).gained := by
  obtain ⟨k, hk⟩ := List.mem_iff_getElem?.1 hall
  by_cases hkn : c.occupant n = k
  · rw [gainedAt?, hkn, hk] at hn
    exact .inl (Option.some.inj hn)
  · refine .inr (List.mem_of_getElem? (i := k) ?_)
    rw [given, List.getElem?_modify_ne _ _ hkn, hk]

theorem gain_of_mem (hid : id ∈ ids) : gain id ids = ids := if_pos hid

theorem gain_of_not_mem (hid : id ∉ ids) : gain id ids = ids ++ [id] := if_neg hid

/-- An object that has the field gains nothing. -/
theorem given_of_mem (hn : c.gainedAt? n = some ids) (hid : id ∈ ids) : c.given n id = c := by
  have hgained : c.gained.modify (c.occupant n) (gain id) = c.gained := by
    refine List.ext_getElem? fun k => ?_
    rw [List.getElem?_modify]
    split
    next hk =>
      rw [gainedAt?, hk] at hn
      rw [hn]
      exact congrArg some (gain_of_mem hid)
    next => exact Option.map_id_apply
  rw [given, hgained]

end Chronicle

section Objects

variable {h : Heap} {n : Nat} {o : HeapObject}

theorem objectAt?_eq_some_iff :
    h.objectAt? n = some o ↔ ∃ g, h.slots[n]? = some ⟨g, some o⟩ := by
  unfold objectAt?
  cases h.slots[n]? with
  | none => simp
  | some s =>
    obtain ⟨g, x⟩ := s
    simp

theorem objectAt?_of_resolve? {r : ObjectRef} (ho : h.resolve? r = some o) :
    h.objectAt? r.index.toNat = some o :=
  objectAt?_eq_some_iff.2 ⟨_, resolve?_eq_some_iff.1 ho⟩

theorem Regular.fits_of_objectAt? (hr : h.Regular) (ho : h.objectAt? n = some o) : h.Fits o := by
  obtain ⟨g, hs⟩ := objectAt?_eq_some_iff.1 ho
  exact hr.fits n g o hs

theorem objectAt?_setObject {i : UInt32} {o' : HeapObject}
    (ho : (h.setObject i o').objectAt? n = some o) :
    n = i.toNat ∧ o = o' ∨ n ≠ i.toNat ∧ h.objectAt? n = some o := by
  rw [objectAt?, getElem?_setObject] at ho
  by_cases hn : i.toNat = n
  · rw [if_pos hn] at ho
    cases hs : h.slots[n]? with
    | none =>
      rw [hs] at ho
      cases ho
    | some s =>
      rw [hs] at ho
      exact .inl ⟨hn.symm, (Option.some.inj ho).symm⟩
  · rw [if_neg hn] at ho
    exact .inr ⟨Ne.symm hn, ho⟩

theorem objectAt?_place (ho : h.place.2.objectAt? n = some o) :
    n = h.nextSlot ∧ o = blank ∨ n ≠ h.nextSlot ∧ h.objectAt? n = some o := by
  cases hf : h.free with
  | cons i rest =>
    have hnext : h.nextSlot = i.toNat := by simp only [nextSlot, hf]
    simp only [place, hf] at ho
    rw [hnext]
    exact objectAt?_setObject ho
  | nil =>
    have hnext : h.nextSlot = h.slots.size := by simp only [nextSlot, hf]
    rw [place_of_nil hf, objectAt?, Array.getElem?_push] at ho
    rw [hnext]
    by_cases hn : n = h.slots.size
    · rw [if_pos hn] at ho
      exact .inl ⟨hn, (Option.some.inj ho).symm⟩
    · rw [if_neg hn] at ho
      exact .inr ⟨hn, ho⟩

theorem objectAt?_collect (hc : h.clear = h) {roots : Array Value}
    (ho : (h.collect roots).2.objectAt? n = some o) : h.objectAt? n = some o := by
  obtain ⟨g, hs'⟩ := objectAt?_eq_some_iff.1 ho
  obtain ⟨s, hs, -, hsweep⟩ | ⟨-, -, hnone⟩ := @getElem?_collect h roots hc n
  · rw [hs'] at hsweep
    rw [objectAt?, hs]
    rcases s with ⟨_, _ | ⟨l, f, _ | _⟩⟩ <;> simp_all [Slot.sweep, Slot.clear, HeapObject.clear]
  · rw [hs'] at hnone
    cases hnone

theorem objectAt?_makeRoom (hc : h.clear = h) {roots : Array Value}
    (ho : (h.makeRoom roots).1.objectAt? n = some o) : h.objectAt? n = some o := by
  rw [makeRoom_eq] at ho
  split at ho
  · exact objectAt?_collect hc ho
  · exact ho

theorem objectAt?_left_setField {r : ObjectRef} {slot : Nat} {v : Value}
    (ho : (left (setField r slot v h)).objectAt? n = some o) :
    ∃ before, h.objectAt? n = some before ∧ before.layout = o.layout := by
  unfold setField at ho
  split at ho
  next => exact ⟨o, ho, rfl⟩
  next x hx =>
    split at ho
    · obtain ⟨rfl, rfl⟩ | ⟨-, ho⟩ := objectAt?_setObject ho
      · exact ⟨x, objectAt?_of_resolve? hx, rfl⟩
      · exact ⟨o, ho, rfl⟩
    · exact ⟨o, ho, rfl⟩

end Objects

section Steps

variable {c : Chronicle} {h h' : Heap}

theorem told_new (threshold : Nat) : Told {} (.new threshold) where
  tells n o ho := by cases ho
  apart n m o o' ho := by cases ho
  recorded ids hids := by cases hids
  performed p hp hne := by
    have hone : (Heap.new threshold).layouts.size = 1 := rfl
    obtain rfl : p = 0 := by omega
    exact absurd rfl hne

/-- Objects may go, and their values may change. -/
theorem Told.of_kept (ht : Told c h) (hl : h'.layouts = h.layouts)
    (hkept : ∀ n o, h'.objectAt? n = some o →
      ∃ before, h.objectAt? n = some before ∧ before.layout = o.layout) : Told c h' := by
  have hlayout : ∀ n, h'.layout n = h.layout n := fun n => by rw [layout, hl, layout]
  constructor
  · intro n o ho
    obtain ⟨before, hbefore, hsame⟩ := hkept n o ho
    rw [hlayout, ← hsame]
    exact ht.tells n before hbefore
  · intro n m o o' ho ho' hnm
    obtain ⟨before, hbefore, -⟩ := hkept n o ho
    obtain ⟨before', hbefore', -⟩ := hkept m o' ho'
    exact ht.apart n m before before' hbefore hbefore' hnm
  · simpa only [hl, hlayout] using ht.recorded
  · simpa only [hl, hlayout] using ht.performed

/-- The new object has a number that none had before. -/
theorem Told.place (ht : Told c h)
    (hroot : 0 < h.layouts.size ∧ (h.layout rootLayout).fields = []) :
    Told (c.born h.nextSlot) h.place.2 := by
  have hlayout : ∀ n, h.place.2.layout n = h.layout n := fun n => by
    rw [layout, layouts_place, layout]
  have hlt : ∀ {n o}, h.objectAt? n = some o → c.occupant n < c.gained.length :=
    fun ho => Chronicle.lt_of_gainedAt? (ht.tells _ _ ho)
  constructor
  · intro n o ho
    rw [hlayout]
    obtain ⟨rfl, rfl⟩ | ⟨hn, ho⟩ := objectAt?_place ho
    · rw [Chronicle.gainedAt?_born_self]
      exact congrArg some hroot.2.symm
    · rw [Chronicle.gainedAt?_born_of_ne hn (hlt ho)]
      exact ht.tells n o ho
  · intro n m o o' ho ho' hnm
    obtain ⟨rfl, -⟩ | ⟨hn, ho⟩ := objectAt?_place ho <;>
      obtain ⟨rfl, -⟩ | ⟨hm, ho'⟩ := objectAt?_place ho'
    · rfl
    · rw [Chronicle.occupant_born_self, Chronicle.occupant_born_of_ne hm] at hnm
      exact absurd hnm.symm (Nat.ne_of_lt (hlt ho'))
    · rw [Chronicle.occupant_born_self, Chronicle.occupant_born_of_ne hn] at hnm
      exact absurd hnm (Nat.ne_of_lt (hlt ho))
    · rw [Chronicle.occupant_born_of_ne hn, Chronicle.occupant_born_of_ne hm] at hnm
      exact ht.apart n m o o' ho ho' hnm
  · intro ids hids
    rw [layouts_place]
    simp only [hlayout]
    rcases List.mem_append.1 hids with hids | hids
    · exact ht.recorded ids hids
    · exact ⟨rootLayout, hroot.1, hroot.2.trans (List.mem_singleton.1 hids).symm⟩
  · intro p hp hne
    rw [layouts_place] at hp
    rw [hlayout] at hne ⊢
    obtain ⟨ids, hids, hprefix⟩ := ht.performed p hp hne
    exact ⟨ids, List.mem_append_left _ hids, hprefix⟩

/-- The object takes the layout that is one field further, and no other object changes. -/
theorem Told.addField (ht : Told c h) (hr : h.Regular) {r : ObjectRef} {o o' : HeapObject}
    {id : FieldId} (ho : h.resolve? r = some o) (hid : id ∉ (h.layout o.layout).fields)
    (hext : Extended h h' o.layout id o'.layout) :
    Told (c.given r.index.toNat id) (h'.setObject r.index o') := by
  have hat := objectAt?_of_resolve? ho
  have hgained := ht.tells _ o hat
  have hlayout : ∀ n, (h'.setObject r.index o').layout n = h'.layout n := fun n => by
    rw [layout, layouts_setObject, layout]
  have hslots : ∀ n, h'.objectAt? n = h.objectAt? n := fun n => by
    rw [objectAt?, hext.slots, objectAt?]
  have hgain : gain id (h.layout o.layout).fields = (h'.layout o'.layout).fields := by
    rw [Chronicle.gain_of_not_mem hid, hext.fields]
  have hnew : (c.given r.index.toNat id).gainedAt? r.index.toNat =
      some (h'.layout o'.layout).fields := by
    rw [Chronicle.gainedAt?_given_self hgained, hgain]
  have hoccupied : ∀ {n x}, (h'.setObject r.index o').objectAt? n = some x →
      ∃ y, h.objectAt? n = some y := by
    intro n x hx
    obtain ⟨rfl, -⟩ | ⟨-, hx⟩ := objectAt?_setObject hx
    · exact ⟨o, hat⟩
    · exact ⟨x, (hslots n).symm.trans hx⟩
  constructor
  · intro n x hx
    rw [hlayout]
    obtain ⟨rfl, rfl⟩ | ⟨hn, hx⟩ := objectAt?_setObject hx
    · exact hnew
    · -- another slot has another object, with a number of its own
      rw [hslots] at hx
      have hne : c.occupant r.index.toNat ≠ c.occupant n := fun heq =>
        hn (ht.apart _ _ _ _ hat hx heq).symm
      rw [Chronicle.gainedAt?_given_of_ne hne, ht.tells n x hx,
        hext.grows.fields _ (hr.fits_of_objectAt? hx).1]
  · intro n m x y hx hy hnm
    obtain ⟨x, hx⟩ := hoccupied hx
    obtain ⟨y, hy⟩ := hoccupied hy
    exact ht.apart n m x y hx hy hnm
  · intro ids hids
    rw [layouts_setObject]
    simp only [hlayout]
    rcases Chronicle.mem_given hgained hids with rfl | hids
    · exact ⟨o'.layout, hext.lt, hgain.symm⟩
    · obtain ⟨p, hp, hf⟩ := ht.recorded ids hids
      exact ⟨p, Nat.lt_of_lt_of_le hp hext.grows.size, (hext.grows.fields p hp).trans hf⟩
  · intro p hp hne
    rw [layouts_setObject] at hp
    rw [hlayout] at hne ⊢
    rcases hext.only p hp with hp | rfl
    · rw [hext.grows.fields p hp] at hne ⊢
      obtain ⟨ids, hids, hprefix⟩ := ht.performed p hp hne
      rcases Chronicle.mem_given_or id hgained hids with rfl | hids
      · -- what the object had gained is the beginning of what it has gained now
        refine ⟨_, Chronicle.mem_of_gainedAt? hnew, hprefix.trans ?_⟩
        rw [hext.fields]
        exact List.prefix_append _ _
      · exact ⟨ids, hids, hprefix⟩
    · exact ⟨_, Chronicle.mem_of_gainedAt? hnew, List.prefix_refl _⟩

theorem Told.note (ht : Told c h) (hr : h.Regular) (htrie : h.Trie) (op : Operation) :
    Told (c.note h op) (op.apply h) := by
  cases op with
  | setField r slot v =>
    exact ht.of_kept (layouts_left_setField r slot v) fun n o => objectAt?_left_setField
  | collect roots =>
    exact ht.of_kept (layouts_collect hr.clear) fun n o ho =>
      ⟨o, objectAt?_collect hr.clear ho, rfl⟩
  | allocate roots =>
    have hl : (h.makeRoom roots).1.layouts = h.layouts := by
      rw [← layouts_allocate hr roots]
      exact layouts_place.symm
    have hroom : Told c (h.makeRoom roots).1 := ht.of_kept hl fun n o ho =>
      ⟨o, objectAt?_makeRoom hr.clear ho, rfl⟩
    exact hroom.place (htrie.of_layouts hl).root
  | addField r id =>
    rcases addField_cases hr htrie r id with ⟨he, hhas⟩ | ⟨o, o', h', ho, hid, hext, he⟩
    · have hnote : c.note h (.addField r id) = c := by
        cases ho : h.resolve? r with
        | none => simp only [Chronicle.note, ho, Option.isSome_none, Bool.false_eq_true, if_false]
        | some o =>
          simp only [Chronicle.note, ho, Option.isSome_some, if_true]
          exact Chronicle.given_of_mem (ht.tells _ o (objectAt?_of_resolve? ho)) (hhas o ho)
      rw [hnote, Operation.apply, he]
      exact ht
    · have hnote : c.note h (.addField r id) = c.given r.index.toNat id := by
        simp only [Chronicle.note, ho, Option.isSome_some, if_true]
      rw [hnote, Operation.apply, he]
      exact ht.addField hr ho hid hext

theorem Told.foldl (ht : Told c h) (hr : h.Regular) (htrie : h.Trie) (ops : List Operation) :
    Told (chronicle h c ops) (ops.foldl Operation.apply h) := by
  induction ops generalizing c h with
  | nil => exact ht
  | cons op ops ih => exact ih (ht.note hr htrie op) (hr.apply op) (htrie.apply hr op).1

theorem Told.layout_eq_iff (ht : Told c h) (hr : h.Regular) (htrie : h.Trie) {n m : Nat}
    {o o' : HeapObject} (ho : h.objectAt? n = some o) (ho' : h.objectAt? m = some o') :
    o.layout = o'.layout ↔ c.gainedAt? n = c.gainedAt? m := by
  rw [ht.tells n o ho, ht.tells m o' ho', Option.some.injEq]
  constructor
  · intro heq
    rw [heq]
  · exact htrie.distinct _ _ (hr.fits_of_objectAt? ho).1 (hr.fits_of_objectAt? ho').1

theorem Told.beginnings_eq (ht : Told c h) (htrie : h.Trie) :
    insert [] c.beginnings = (fun p => (h.layout p).fields) '' (Finset.range h.layouts.size) := by
  ext ids
  simp only [Set.mem_insert_iff, Set.mem_image, Finset.mem_coe, Finset.mem_range]
  constructor
  · rintro (rfl | ⟨-, all, hall, hprefix⟩)
    · exact ⟨rootLayout, htrie.root⟩
    · obtain ⟨q, hq, rfl⟩ := ht.recorded all hall
      exact htrie.exists_of_prefix hq hprefix
  · rintro ⟨p, hp, rfl⟩
    by_cases hne : (h.layout p).fields = []
    · exact .inl hne
    · exact .inr ⟨hne, ht.performed p hp hne⟩

theorem Told.size_layouts (ht : Told c h) (htrie : h.Trie) :
    c.beginnings.Finite ∧ h.layouts.size = 1 + c.beginnings.ncard := by
  have heq := ht.beginnings_eq htrie
  have hfinite : (insert [] c.beginnings).Finite := heq ▸ (Finset.finite_toSet _).image _
  have hbeginnings := hfinite.subset (Set.subset_insert _ _)
  have hempty : [] ∉ c.beginnings := fun hmem => hmem.1 rfl
  have hinj : Set.InjOn (fun p => (h.layout p).fields) (Finset.range h.layouts.size) :=
    fun p hp q hq => htrie.distinct p q (Finset.mem_range.1 hp) (Finset.mem_range.1 hq)
  refine ⟨hbeginnings, ?_⟩
  rw [Nat.add_comm, ← Set.ncard_insert_of_notMem hempty hbeginnings, heq,
    hinj.ncard_image, Set.ncard_coe_finset, Finset.card_range]

end Steps

/-- The layout table is a trie with full sharing. Layouts never change; two live objects have the
same layout exactly if they gained the same fields in the same order; and beside the empty layout
there are as many as there are different beginnings of what any object ever gained. -/
theorem layouts_of_operations (threshold : Nat) (ops : List Operation) :
    let h := ops.foldl Operation.apply (.new threshold)
    let c := chronicle (.new threshold) {} ops
    (h.layout rootLayout).fields = [] ∧
      (∀ p, p < h.layouts.size → (h.layout p).fields.Nodup) ∧
      (∀ p id t, p < h.layouts.size → (id, t) ∈ (h.layout p).transitions →
        t < h.layouts.size ∧ (h.layout t).fields = (h.layout p).fields ++ [id]) ∧
      (∀ p q, p < h.layouts.size → q < h.layouts.size →
        (h.layout p).fields = (h.layout q).fields → p = q) ∧
      (∀ later, h.Grows (List.foldl Operation.apply h later)) ∧
      (∀ n m o o', h.objectAt? n = some o → h.objectAt? m = some o' →
        (o.layout = o'.layout ↔ c.gainedAt? n = c.gainedAt? m)) ∧
      c.beginnings.Finite ∧ h.layouts.size = 1 + c.beginnings.ncard := by
  intro h c
  have hreachable : h.Reachable := ⟨threshold, ops, rfl⟩
  have hr := hreachable.regular
  have htrie := hreachable.trie
  have ht : Told c h := (told_new threshold).foldl (regular_new threshold) (trie_new threshold) ops
  refine ⟨htrie.root.2, htrie.nodup, htrie.edge, htrie.distinct, ?_, ?_, ht.size_layouts htrie⟩
  · intro later
    exact (htrie.foldl hr later).2
  · intro n m o o' ho ho'
    exact ht.layout_eq_iff hr htrie ho ho'

/-- Two objects gain the same fields, one of them a field twice. The other one is freed, and the
object that takes its slot gains one of the fields alone. -/
def siblings : List Operation :=
  [.allocate #[], .allocate #[], .addField ⟨0, 0⟩ 3, .addField ⟨1, 0⟩ 3, .addField ⟨0, 0⟩ 5,
    .addField ⟨1, 0⟩ 3, .addField ⟨1, 0⟩ 5, .collect #[.ref ⟨1, 0⟩], .allocate #[],
    .addField ⟨0, 1⟩ 5]

theorem layouts_of_operations_siblings :
    (chronicle (.new 8) {} siblings).gained = [[3, 5], [3, 5], [5]] ∧
      (siblings.foldl Operation.apply (.new 8)).layouts.size = 4 ∧
      (chronicle (.new 8) {} siblings).beginnings.ncard = 3 ∧
      ((siblings.take 7).foldl Operation.apply (.new 8)).layouts.size = 3 ∧
      ∀ o o', ((siblings.take 7).foldl Operation.apply (.new 8)).objectAt? 0 = some o →
        ((siblings.take 7).foldl Operation.apply (.new 8)).objectAt? 1 = some o' →
        o.layout = o'.layout := by
  have hgained : (chronicle (.new 8) {} siblings).gained = [[3, 5], [3, 5], [5]] := by
    decide +kernel
  have hsize : (siblings.foldl Operation.apply (.new 8)).layouts.size = 4 := by decide +kernel
  obtain ⟨-, -, -, -, -, -, -, hcount⟩ := layouts_of_operations 8 siblings
  obtain ⟨-, -, -, -, -, hshared, -, -⟩ := layouts_of_operations 8 (siblings.take 7)
  refine ⟨hgained, hsize, by omega, by decide +kernel, fun o o' ho ho' => ?_⟩
  exact (hshared 0 1 o o' ho ho').2 (by decide +kernel)

end Heap

end StackMachine
