import StackMachine.Proofs.Machine.Operands

/-! The heap under comparison. Field access keeps the renaming; an allocation and a collection
leave a renaming of what the stacks reach. The two heaps need not collect at the same time. -/

namespace StackMachine

namespace Action

variable {s : Store} {r : ObjectRef} {c : Contents}

theorem lookupField_of_contents (hc : s.heap.contents? r = some c) (id : FieldId) :
    lookupField r id s = .ok (c.names.idxOf? id) s := by
  change ofMemory (s.heap.lookupField r id) s = _
  rw [Heap.lookupField_of_contents hc]
  rfl

theorem getField_of_contents (hc : s.heap.contents? r = some c) {slot : Nat} {v : Value}
    (hv : c.values[slot]? = some v) : getField r slot s = .ok v s := by
  change ofMemory (s.heap.getField r slot) s = _
  rw [Heap.getField_of_contents hc hv]
  rfl

end Action

namespace Comparison

open StackMachine.Action

variable {K : Comparison} {pairs : ObjectRef → ObjectRef → Prop} {fact : Heap → Prop}
  {r₁ r₂ : ObjectRef} {id : FieldId}

theorem Stores.withHeap {s₁ s₂ : Store} {h₁ h₂ : Heap} {fact' : Heap → Prop}
    (h : K.Stores pairs fact s₁ s₂) (hh : K.Heaps pairs h₁ h₂) (hf : fact' h₁) :
    K.Stores pairs fact' { s₁ with heap := h₁ } { s₂ with heap := h₂ } :=
  ⟨h.stack, hh, hf, h.output⟩

def Looks (r : ObjectRef) (id : FieldId) (answer : Option Nat) (h : Heap) : Prop :=
  ∃ c, h.contents? r = some c ∧ c.names.idxOf? id = answer

def HasSlot (r : ObjectRef) (slot : Nat) (h : Heap) : Prop :=
  ∃ c, h.contents? r = some c ∧ slot < c.values.length

theorem HasSlot.of_looks {h : Heap} (hr : h.Regular) {slot : Nat}
    (hl : Looks r₁ id (some slot) h) : HasSlot r₁ slot h := by
  obtain ⟨c, hc, hi⟩ := hl
  obtain ⟨hlt, -⟩ := List.idxOf?_eq_some_iff.1 hi
  exact ⟨c, hc, Heap.length_names hr hc ▸ hlt⟩

section Fields

variable (hp : pairs r₁ r₂)
include hp

theorem lookupField_alike (id : FieldId) :
    K.Alike (K.Stores pairs fact) (lookupField r₁ id) (lookupField r₂ id)
      fun a b s₁ s₂ => a = b ∧ K.Stores pairs (Looks r₁ id a) s₁ s₂ := by
  intro s₁ s₂ hs
  obtain ⟨names, vs₁, vs₂, hc₁, hc₂, -⟩ := hs.heap.renamed.contents hp
  rw [lookupField_of_contents hc₁, lookupField_of_contents hc₂]
  exact .ok ⟨rfl, hs.stack, hs.heap, ⟨_, hc₁, rfl⟩, hs.output⟩

theorem getField_alike {slot : Nat} :
    K.Alike (K.Stores pairs (HasSlot r₁ slot)) (getField r₁ slot) (getField r₂ slot)
      (K.Returns pairs (fun _ => True) (K.Values pairs)) := by
  intro s₁ s₂ hs
  obtain ⟨names, vs₁, vs₂, hc₁, hc₂, hvs⟩ := hs.heap.renamed.contents hp
  obtain ⟨c, hc, hslot⟩ := hs.fact
  obtain rfl : ⟨names, vs₁⟩ = c := Option.some.inj (hc₁.symm.trans hc)
  have hi := forall₂_getElem? hvs slot
  rw [List.getElem?_eq_getElem hslot] at hi
  cases hv₂ : vs₂[slot]? with
  | none =>
    rw [hv₂] at hi
    cases hi
  | some v₂ =>
    rw [hv₂] at hi
    rw [getField_of_contents hc₁ (List.getElem?_eq_getElem hslot), getField_of_contents hc₂ hv₂]
    cases hi with
    | some hv => exact .ok ⟨hv, hs.stack, hs.heap, trivial, hs.output⟩

theorem setField_alike {slot : Nat} {v₁ v₂ : Value} (hv : K.Values pairs v₁ v₂) :
    K.Alike (K.Stores pairs (HasSlot r₁ slot)) (setField r₁ slot v₁) (setField r₂ slot v₂)
      (K.Returns pairs (fun _ => True) fun _ _ => True) := by
  intro s₁ s₂ hs
  obtain ⟨names, vs₁, vs₂, hc₁, hc₂, hvs⟩ := hs.heap.renamed.contents hp
  obtain ⟨c, hc, hslot⟩ := hs.fact
  obtain rfl : ⟨names, vs₁⟩ = c := Option.some.inj (hc₁.symm.trans hc)
  have hslot₂ : slot < vs₂.length := hvs.length_eq ▸ hslot
  obtain ⟨h₁, he₁, hu₁⟩ := Heap.setField_of_contents hs.heap.sound₁ hc₁ hslot v₁
  obtain ⟨h₂, he₂, hu₂⟩ := Heap.setField_of_contents hs.heap.sound₂ hc₂ hslot₂ v₂
  simp only [setField, liftHeap, he₁, he₂]
  have hrenamed := hs.heap.renamed.updated hp hu₁ hu₂ (forall₂_set hvs hv slot)
  refine .ok ⟨trivial, hs.withHeap ⟨hu₁.sound, hu₂.sound, hrenamed, fun hr => ?_⟩ trivial⟩
  obtain ⟨hh, hpairs⟩ := hs.heap.rigid hr
  have hveq : v₁ = v₂ := by
    cases hv with
    | word => rfl
    | ref h => rw [hpairs _ _ h]
  rw [hh, hpairs _ _ hp, hveq, he₂] at he₁
  cases he₁
  exact ⟨rfl, hpairs⟩

theorem addField_alike (hK : K.Lawful) :
    K.Alike (K.Stores pairs (Looks r₁ id none)) (addField r₁ id) (addField r₂ id)
      fun a b s₁ s₂ => a = b ∧ K.Stores pairs (HasSlot r₁ a) s₁ s₂ := by
  intro s₁ s₂ hs
  obtain ⟨names, vs₁, vs₂, hc₁, hc₂, hvs⟩ := hs.heap.renamed.contents hp
  obtain ⟨c, hc, hn⟩ := hs.fact
  obtain rfl : ⟨names, vs₁⟩ = c := Option.some.inj (hc₁.symm.trans hc)
  obtain ⟨h₁, he₁, hu₁⟩ := Heap.addField_of_contents hs.heap.sound₁ hc₁ hn
  obtain ⟨h₂, he₂, hu₂⟩ := Heap.addField_of_contents hs.heap.sound₂ hc₂ hn
  have hzero : K.Values pairs .zero .zero := .word rfl (hK.int 0)
  have hrenamed := hs.heap.renamed.updated hp hu₁ hu₂
    (List.rel_append hvs (.cons hzero .nil))
  simp only [addField, liftHeap, he₁, he₂]
  refine .ok ⟨hvs.length_eq, hs.withHeap ⟨hu₁.sound, hu₂.sound, hrenamed, fun hr => ?_⟩ ?_⟩
  · obtain ⟨hh, hpairs⟩ := hs.heap.rigid hr
    rw [hh, hpairs _ _ hp, he₂] at he₁
    injection he₁ with _ hheap
    exact ⟨hheap.symm, hpairs⟩
  · exact ⟨_, (hu₁.contents r₁).trans (if_pos rfl), by simp⟩

end Fields

theorem expectRef_alike (hK : K.Lawful) (op : Opcode) {v₁ v₂ : Value}
    (hv : K.Values pairs v₁ v₂) :
    K.Alike (K.Stores pairs fact) (Machine.expectRef op v₁) (Machine.expectRef op v₂)
      (K.Returns pairs fact pairs) := by
  cases hv with
  | ref hp => exact Alike.pure hp
  | word hn hw =>
    cases v₁ with
    | ref r => cases hn
    | int48 n => exact Alike.throw (hK.ordinary rfl)
    | uint48 n => exact Alike.throw (hK.ordinary rfl)
    | raw64 n => exact Alike.throw (hK.ordinary rfl)

section Collector

theorem Stacks.eq (hpairs : ∀ r₁ r₂, pairs r₁ r₂ → r₁ = r₂) {t₁ t₂ : Stack}
    (h : K.Stacks pairs t₁ t₂) : t₁ = t₂ := by
  have hvalues : t₁.values.toList = t₂.values.toList := by
    rw [← List.forall₂_eq_eq_eq]
    refine h.values.imp fun v₁ v₂ hv => ?_
    cases hv with
    | word => rfl
    | ref hp => rw [hpairs _ _ hp]
  obtain ⟨values₁, limit₁⟩ := t₁
  obtain ⟨values₂, limit₂⟩ := t₂
  obtain rfl : limit₁ = limit₂ := h.limit
  obtain rfl : values₁ = values₂ := Array.toList_inj.1 hvalues
  rfl

theorem Stacks.reached {t₁ t₂ : Stack} {h₁ h₂ : Heap} (h : K.Stacks pairs t₁ t₂)
    (hr : Heap.Renaming K.word pairs h₁ h₂) :
    K.Stacks (Heap.reached pairs h₁ h₂ t₁.values t₂.values) t₁ t₂ :=
  ⟨h.limit, forall₂_of_mem h.values fun _ hv₁ _ hv₂ hv =>
    Heap.renamed_reached_of_root hr (Array.mem_toList_iff.1 hv₁) (Array.mem_toList_iff.1 hv₂) hv⟩

theorem allocate_eq (s : Store) :
    allocate s = .ok (s.heap.allocate s.stack.values).1
      { s with
        heap := (s.heap.allocate s.stack.values).2.1
        log := s.log.recordAll (s.heap.allocate s.stack.values).2.2 } := rfl

theorem collect_alike :
    K.Alike (K.Stores pairs fact) collect collect
      fun _ _ s₁ s₂ => ∃ pairs', K.Stores pairs' (fun _ => True) s₁ s₂ := by
  intro s₁ s₂ hs
  -- the pairs that the stacks reach on both sides outlive both collections
  refine .ok ⟨_, hs.stack.reached hs.heap.renamed, ⟨?_, ?_, ?_, fun hr => ?_⟩, trivial, hs.output⟩
  · exact hs.heap.sound₁.collect _
  · exact hs.heap.sound₂.collect _
  · refine (hs.heap.renamed.reached _ _).of_contents (fun hp => ?_) (fun hp => ?_)
    · exact Heap.contents?_collect hs.heap.sound₁ hp.2.1
    · exact Heap.contents?_collect hs.heap.sound₂ hp.2.2
  · obtain ⟨hh, hpairs⟩ := hs.heap.rigid hr
    refine ⟨?_, fun _ _ hp => hpairs _ _ hp.1⟩
    simp only [hh, hs.stack.eq hpairs]

def Room (s : Store) : Prop :=
  (s.heap.allocate s.stack.values).2.1.slots.size ≤ 0x100000000

theorem allocate_alike :
    K.Alike (fun s₁ s₂ => K.Stores pairs fact s₁ s₂ ∧ Room s₁ ∧ Room s₂) allocate allocate
      fun r₁ r₂ s₁ s₂ => ∃ pairs', pairs' r₁ r₂ ∧ K.Stores pairs' (fun _ => True) s₁ s₂ := by
  rintro s₁ s₂ ⟨hs, hroom₁, hroom₂⟩
  obtain ⟨hsound₁, hnew₁, hkept₁⟩ := Heap.allocate_of_room hs.heap.sound₁ _ hroom₁
  obtain ⟨hsound₂, hnew₂, hkept₂⟩ := Heap.allocate_of_room hs.heap.sound₂ _ hroom₂
  have hreached := (hs.heap.renamed.reached s₁.stack.values s₂.stack.values).of_contents
    (fun hp => (hkept₁ _ hp.2.1).2) (fun hp => (hkept₂ _ hp.2.2).2)
  have hextended := hreached.extended (fun hp => (hkept₁ _ hp.2.1).1)
    (fun hp => (hkept₂ _ hp.2.2).1) hnew₁ hnew₂
  have hstack := hs.stack.reached hs.heap.renamed
  rw [allocate_eq, allocate_eq]
  -- either side may have collected; the two new objects are the one new pair
  refine .ok ⟨_, .inr ⟨rfl, rfl⟩, ⟨hs.stack.limit, ?_⟩, ⟨hsound₁, hsound₂, hextended, ?_⟩,
    trivial, hs.output⟩
  · exact hstack.values.imp fun _ _ hv => hv.mono fun _ _ => .inl
  · intro hr
    obtain ⟨hh, hpairs⟩ := hs.heap.rigid hr
    have hstacks := hs.stack.eq hpairs
    refine ⟨by simp only [hh, hstacks], fun r₁ r₂ hp => ?_⟩
    rcases hp with hp | ⟨rfl, rfl⟩
    · exact hpairs _ _ hp.1
    · simp only [hh, hstacks]

end Collector

section Output

theorem record_alike (e₁ e₂ : Event) :
    K.Alike (K.Stores pairs fact) (record e₁) (record e₂) (K.Returns pairs fact fun _ _ => True) :=
  fun _ _ hs => .ok ⟨trivial, hs.stack, hs.heap, hs.fact, hs.output⟩

theorem write_alike_of {bytes₁ bytes₂ : List UInt8} (hK : K.Lawful)
    (hw : ∀ {o₁ o₂}, K.outputs o₁ o₂ → (o₁.write bytes₁).1 = (o₂.write bytes₂).1 ∧
      K.outputs (o₁.write bytes₁).2 (o₂.write bytes₂).2) :
    K.Alike (K.Stores pairs fact) (write bytes₁) (write bytes₂)
      (K.Returns pairs fact fun _ _ => True) := by
  intro s₁ s₂ hs
  obtain ⟨hresult, houtput⟩ := hw hs.output
  simp only [write]
  cases h₁ : s₁.output.write bytes₁ with
  | mk result o₁ =>
    cases h₂ : s₂.output.write bytes₂ with
    | mk result' o₂ =>
      rw [h₁, h₂] at hresult houtput
      obtain rfl : result = result' := hresult
      cases result with
      | ok u => exact .ok ⟨trivial, hs.stack, hs.heap, hs.fact, houtput⟩
      | error reason => exact .error (hK.ordinary rfl) ⟨pairs, hs.heap, houtput⟩

end Output

end Comparison

end StackMachine
