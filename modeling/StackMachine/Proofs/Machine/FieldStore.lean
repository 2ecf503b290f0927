import StackMachine.Proofs.Heap.Fields
import StackMachine.Proofs.Heap.SlotTable
import StackMachine.Proofs.Lists
import StackMachine.Proofs.Machine.Runs

/-! Storing into a field. The object has to have the field while it and the value are still on the
stack, where a collection finds them; so the field is added before the two are taken. A store that
faults leaves the heap alone, with one exception: the object lacks the field and there is no value
below it. Then the field stays, with value zero, and is found by whoever reads it later. -/

namespace StackMachine

/-- The second heap is the first one with a field more, of value zero, in one object. -/
def Heap.Widened (h h' : Heap) (r : ObjectRef) (id : FieldId) : Prop :=
  ∃ c, h.contents? r = some c ∧ id ∉ c.names ∧ ∀ q, h'.contents? q =
    if q = r then some ⟨c.names ++ [id], c.values ++ [.zero]⟩ else h.contents? q

/-- The object is all that is on the stack, and it lacks the field. -/
def Store.Valueless (s : Store) (r : ObjectRef) (id : FieldId) : Prop :=
  s.stack.values = #[.ref r] ∧ s.heap.lookupField r id = .ok none

namespace Heap

variable {h h' : Heap} {r : ObjectRef} {id : FieldId}

theorem Widened.found (hw : h.Widened h' r id) (hr : h.Regular) :
    ∃ slot, h'.lookupField r id = .ok (some slot) ∧ h'.getField r slot = .ok .zero := by
  obtain ⟨c, hc, hid, hcontents⟩ := hw
  have hself := hcontents r
  rw [if_pos rfl] at hself
  refine ⟨c.names.length, ?_, ?_⟩
  · rw [lookupField_of_contents hself, Contents.idxOf?_concat hid]
  · refine getField_of_contents hself ?_
    rw [length_names hr hc, List.getElem?_concat_length]

theorem Widened.ne (hw : h.Widened h' r id) : h' ≠ h := by
  rintro rfl
  obtain ⟨c, hc, -, hcontents⟩ := hw
  have hself := hcontents r
  rw [if_pos rfl, hc] at hself
  have hnames := congrArg (List.length ∘ Contents.names) (Option.some.inj hself)
  simp at hnames

theorem addField_widens (hr : h.Regular) (hl : h.lookupField r id = .ok none) :
    ∃ slot h', addField r id h = .ok slot h' ∧ h.Widened h' r id ∧
      h'.lookupField r id = .ok (some slot) := by
  obtain ⟨c, hc, hn⟩ := contents_of_lookupField hl
  obtain ⟨h', hadd, -, hcontents⟩ := addField_of_missing hr hc hn
  have hid := List.idxOf?_eq_none_iff.1 hn
  refine ⟨_, h', hadd, ⟨c, hc, hid, hcontents⟩, ?_⟩
  rw [lookupField_of_contents ((hcontents r).trans (if_pos rfl)), Contents.idxOf?_concat hid,
    length_names hr hc]

end Heap

namespace Machine

open StackMachine.Action

/-- Takes the object and the value, and stores the value. -/
def storeTaken (r : ObjectRef) (slot : Nat) : Action Unit := do
  discard <| liftStack Stack.pop
  let v ← liftStack Stack.pop
  setField r slot v

section Outcomes

variable {s t : Store} {r : ObjectRef} {v : Value} {id : FieldId} {slot : Nat} {f : Fault}

theorem popField_of_empty (hback : s.stack.values.back? = none) :
    popField id s = .error .stackUnderflow s := by
  simp only [popField, bind, EStateM.bind, liftStack, Stack.peek, hback]

theorem popField_of_value (hback : s.stack.values.back? = some v) (hv : ∀ r, v ≠ .ref r) :
    popField id s = .error (.typeMismatch .popField [.ref] v.kind) s := by
  cases v with
  | ref r => exact absurd rfl (hv r)
  | _ => simp only [popField, bind, EStateM.bind, liftStack, Stack.peek, hback]; rfl

theorem popField_of_ref (hback : s.stack.values.back? = some (.ref r)) :
    popField id s = match s.heap.lookupField r id with
      | .error e => .error (.memory e) s
      | .ok (some slot) => storeTaken r slot s
      | .ok none => (addField r id >>= storeTaken r) s := by
  have hlookup : lookupField r id s = ofMemory (s.heap.lookupField r id) s := rfl
  cases hl : s.heap.lookupField r id with
  | error e =>
    have hfails : lookupField r id s = .error (.memory e) s := by
      rw [hlookup, hl]
      rfl
    simp only [popField, bind, EStateM.bind, liftStack, Stack.peek, hback, expectRef, pure,
      EStateM.pure, hfails]
  | ok found =>
    have hfinds : lookupField r id s = .ok found s := by
      rw [hlookup, hl]
      rfl
    cases found <;>
      simp only [popField, bind, EStateM.bind, liftStack, Stack.peek, hback, expectRef, pure,
        EStateM.pure, hfinds, storeTaken]

theorem pop_of_back (hback : s.stack.values.back? = some v) : liftStack Stack.pop s =
    .ok v { s with stack := { s.stack with values := s.stack.values.pop } } := by
  simp only [liftStack, Stack.pop, hback]

theorem pop_of_empty (hback : s.stack.values.back? = none) :
    liftStack Stack.pop s = .error .stackUnderflow s := by
  simp only [liftStack, Stack.pop, hback]

/-- With a slot that the object has, nothing but the value can be missing. -/
theorem storeTaken_error (hback : s.stack.values.back? = some v)
    (hset : ∀ w, ∃ h, Heap.setField r slot w s.heap = .ok () h)
    (h : storeTaken r slot s = .error f t) :
    s.stack.values = #[v] ∧ f = .stackUnderflow ∧ t.heap = s.heap := by
  have hdrop : discard (liftStack Stack.pop) s =
      .ok () { s with stack := { s.stack with values := s.stack.values.pop } } := by
    change (liftStack Stack.pop >>= fun _ => pure ()) s = _
    rw [bind_of_ok (pop_of_back hback)]
    rfl
  rw [storeTaken, bind_of_ok hdrop] at h
  cases hvalue : s.stack.values.pop.back? with
  | none =>
    rw [bind_of_error (pop_of_empty hvalue)] at h
    cases h
    obtain ⟨below, hvalues⟩ := Array.back?_eq_some_iff.1 hback
    rw [hvalues, Array.pop_push, Array.back?_eq_none_iff] at hvalue
    exact ⟨by rw [hvalues, hvalue]; rfl, rfl, rfl⟩
  | some w =>
    obtain ⟨heap, hheap⟩ := hset w
    rw [bind_of_ok (pop_of_back hvalue)] at h
    simp only [setField, liftHeap, hheap] at h
    cases h

/-- A store that has no field to add faults before it changes the heap. -/
theorem popField_error_of_present (hr : s.heap.Regular)
    (hpresent : ∀ r, s.stack.values.back? = some (.ref r) → s.heap.lookupField r id ≠ .ok none)
    (h : popField id s = .error f t) : t.heap = s.heap := by
  cases hback : s.stack.values.back? with
  | none =>
    rw [popField_of_empty hback] at h
    cases h
    rfl
  | some v =>
    by_cases hv : ∃ r, v = .ref r
    · obtain ⟨r, rfl⟩ := hv
      rw [popField_of_ref hback] at h
      cases hl : s.heap.lookupField r id with
      | error e =>
        rw [hl] at h
        cases h
        rfl
      | ok found =>
        rw [hl] at h
        cases found with
        | none => exact absurd hl (hpresent r hback)
        | some slot => exact (storeTaken_error hback (hr.usable hl).2 h).2.2
    · rw [popField_of_value hback (not_exists.1 hv)] at h
      cases h
      rfl

theorem popField_error_of_missing (hr : s.heap.Regular)
    (hback : s.stack.values.back? = some (.ref r)) (hl : s.heap.lookupField r id = .ok none)
    (h : popField id s = .error f t) :
    s.Valueless r id ∧ f = .stackUnderflow ∧ s.heap.Widened t.heap r id := by
  obtain ⟨slot, h', hadd, hwidened, hfound⟩ := Heap.addField_widens hr hl
  have hadded : addField r id s = .ok slot { s with heap := h' } := by
    simp only [addField, liftHeap, hadd]
  have hregular := Heap.regular_addField hr r id
  rw [hadd] at hregular
  rw [popField_of_ref hback, hl] at h
  dsimp only at h
  rw [bind_of_ok hadded] at h
  have hset : ∀ w, ∃ h'', Heap.setField r slot w h' = .ok () h'' := (hregular.usable hfound).2
  obtain ⟨hvalues, hf, hheap⟩ := storeTaken_error (s := { s with heap := h' }) hback hset h
  refine ⟨⟨hvalues, hl⟩, hf, ?_⟩
  rw [hheap]
  exact hwidened

end Outcomes

section Steps

variable {m : Setting} {a : Activation} {i : Instruction} {operand : Int} {s t : Store}
  {depth depth' : Nat} {frames frames' : List Frame} {f : Fault}

theorem popField_of_step (hfetch : a.fetch m.arena = .ok (i, .popField, operand))
    (hstep : step? m ⟨s, depth, frames, .execute a⟩ =
      some ⟨t, depth', frames', .deliver (.error f)⟩) :
    popField (.ofNat operand.toNat) (report m a i s) = .error f t := by
  simp only [step?, execute, hfetch, dispatch, perform, Option.some.injEq] at hstep
  cases hpop : popField (.ofNat operand.toNat) (report m a i s) with
  | ok u s' =>
    have hahead : ahead (popField (.ofNat operand.toNat)) (report m a i s) = .ok 0 s' := by
      rw [ahead, bind_of_ok hpop]
      rfl
    rw [hahead] at hstep
    cases hstep
  | error f' s' =>
    have hahead : ahead (popField (.ofNat operand.toNat)) (report m a i s) = .error f' s' := by
      rw [ahead, bind_of_error hpop]
    rw [hahead] at hstep
    cases hstep
    rfl

/-- A field store that faults leaves the heap as it was, unless the object was all there was on the
stack and lacked the field. Then the fault is that of the missing value, and the object has the
field nevertheless: whoever looks for it finds it, with value zero. -/
theorem heap_of_faulting_store (hh : s.heap.Reachable)
    (hfetch : a.fetch m.arena = .ok (i, .popField, operand))
    (hstep : step? m ⟨s, depth, frames, .execute a⟩ =
      some ⟨t, depth', frames', .deliver (.error f)⟩) :
    let id : FieldId := .ofNat operand.toNat
    (t.heap = s.heap ↔ ∀ r, ¬ s.Valueless r id) ∧
      ∀ r, s.Valueless r id → f = .stackUnderflow ∧ s.heap.Widened t.heap r id ∧
        ∃ slot, t.heap.lookupField r id = .ok (some slot) ∧ t.heap.getField r slot = .ok .zero := by
  intro id
  have hpop := popField_of_step hfetch hstep
  obtain ⟨log, hreport⟩ := report_eq m a i s
  rw [hreport] at hpop
  have hr := hh.regular
  have hvalueless : ∀ r, s.Valueless r id → f = .stackUnderflow ∧ s.heap.Widened t.heap r id := by
    rintro r ⟨hvalues, hl⟩
    have hback : s.stack.values.back? = some (.ref r) := by rw [hvalues]; rfl
    exact (popField_error_of_missing (s := { s with log }) hr hback hl hpop).2
  refine ⟨⟨fun hsame r hv => (hvalueless r hv).2.ne hsame, fun hnone => ?_⟩, fun r hv => ?_⟩
  · refine popField_error_of_present (s := { s with log }) hr (fun r hback hl => ?_) hpop
    exact hnone r (popField_error_of_missing (s := { s with log }) hr hback hl hpop).1
  · obtain ⟨hf, hwidened⟩ := hvalueless r hv
    exact ⟨hf, hwidened, hwidened.found hr⟩

end Steps

/-- One function stores into a field of its argument, and has no value for it. The other one reads
the field. -/
def careless : Module where
  functions := [
    .ofBody "store" 1 0 [.make .popField 7, .make .functionReturn 0],
    .ofBody "read" 1 0 [.make .pushParam 0, .make .pushField 7, .make .functionReturn 0]]

def carelessSetting : Setting where
  module := careless
  arena := .ofModule careless
  compiled := .replicate 2 none
  primitives := .standard
  maxDepth := 8
  debug := false

/-- The object is the argument. -/
def argumentStore (heap : Heap) : Store := ⟨⟨#[.ref ⟨0, 0⟩], 8⟩, heap, {}, {}⟩

/-- There is one object, without fields. -/
def oneObject : Heap := Heap.Operation.apply (.new 100) (.allocate #[])

/-- At the first instruction of the function that stores. -/
def storing : Activation := ⟨⟨0, "store", 1, 0, 17, 3⟩, 0, 0⟩

theorem fetch_storing : storing.fetch carelessSetting.arena =
    .ok (.make .popField 7, .popField, 7) := by
  decide +kernel

theorem step_storing : ∃ t,
    step? carelessSetting ⟨argumentStore oneObject, 1, [], .execute storing⟩ =
      some ⟨t, 0, [], .deliver (.error .stackUnderflow)⟩ ∧
    t.heap = Heap.Operation.apply oneObject (.addField ⟨0, 0⟩ 7) := by
  simp only [step?, execute, fetch_storing]
  exact ⟨_, rfl, rfl⟩

theorem reachable_oneObject : oneObject.Reachable := ⟨100, [.allocate #[]], rfl⟩

/-- What comes of reading the field of the object in the heap. -/
def readAfter (heap : Heap) : Option (Except Fault Value) :=
  (run carelessSetting 8 (call 1 (argumentStore heap))).map Prod.fst

theorem readAfter_oneObject : readAfter oneObject = some (.error (.missingField 7)) := by
  decide +kernel

theorem readAfter_step_storing :
    readAfter (Heap.Operation.apply oneObject (.addField ⟨0, 0⟩ 7)) = some (.ok .zero) := by
  decide +kernel

/-- The field that the store could not fill is found by a later run. -/
theorem heap_of_faulting_store_careless : ∃ t,
    oneObject.Reachable ∧
    storing.fetch carelessSetting.arena = .ok (.make .popField 7, .popField, 7) ∧
    step? carelessSetting ⟨argumentStore oneObject, 1, [], .execute storing⟩ =
      some ⟨t, 0, [], .deliver (.error .stackUnderflow)⟩ ∧
    t.heap ≠ oneObject ∧
    (∃ slot, t.heap.lookupField ⟨0, 0⟩ 7 = .ok (some slot) ∧
      t.heap.getField ⟨0, 0⟩ slot = .ok .zero) ∧
    readAfter oneObject = some (.error (.missingField 7)) ∧
    readAfter t.heap = some (.ok .zero) := by
  obtain ⟨t, hstep, hheap⟩ := step_storing
  obtain ⟨hsame, hvalueless⟩ := heap_of_faulting_store reachable_oneObject fetch_storing hstep
  have hv : (argumentStore oneObject).Valueless ⟨0, 0⟩ 7 := ⟨rfl, by decide +kernel⟩
  exact ⟨t, reachable_oneObject, fetch_storing, hstep, fun heq => hsame.1 heq _ hv,
    (hvalueless _ hv).2.2, readAfter_oneObject, hheap ▸ readAfter_step_storing⟩

/-- A field store that faults does not always leave the heap as it was. -/
theorem not_heap_of_faulting_store :
    ¬ ∀ (m : Setting) (a : Activation) (i : Instruction) (operand : Int) (s t : Store)
      (depth depth' : Nat) (frames frames' : List Frame) (f : Fault),
      s.heap.Reachable → a.fetch m.arena = .ok (i, .popField, operand) →
      step? m ⟨s, depth, frames, .execute a⟩ = some ⟨t, depth', frames', .deliver (.error f)⟩ →
      t.heap = s.heap := by
  intro hall
  obtain ⟨t, hstep, hheap⟩ := step_storing
  have hsame : t.heap = oneObject :=
    hall _ _ _ _ _ t _ _ _ _ _ reachable_oneObject fetch_storing hstep
  have hread := congrArg readAfter (hheap.symm.trans hsame)
  rw [readAfter_oneObject, readAfter_step_storing] at hread
  cases hread

end Machine

end StackMachine
