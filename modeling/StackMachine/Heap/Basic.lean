import StackMachine.Code.Value
import StackMachine.Trace.Event

/-! The object heap. Objects live in slots; a handle names a slot and a generation, and an emptied
slot takes the next generation, so that a handle of a freed object never resolves again. Objects
that gained the same fields in the same order share a layout: layouts form a tree with one edge
for each field added. -/

namespace StackMachine

abbrev FieldId := UInt32

inductive MemoryError where
  | danglingReference (r : ObjectRef)
  | invalidDescriptor (index : UInt32) (slot : Nat)
  deriving DecidableEq, Repr

def MemoryError.message : MemoryError → String
  | .danglingReference r => s!"dangling object reference {r.text}"
  | .invalidDescriptor index slot => s!"invalid field descriptor {slot} for object #{index}"

structure Layout where
  /-- Field names in the order in which they were added; the position is the field's slot. -/
  fields : List FieldId := []
  /-- The layout that each further field leads to. -/
  transitions : List (FieldId × Nat) := []
  deriving DecidableEq, Repr

def Layout.slot? (l : Layout) (id : FieldId) : Option Nat := l.fields.idxOf? id

structure HeapObject where
  layout : Nat
  fields : Array Value
  /-- Set only while a collection is under way. -/
  marked : Bool := false
  deriving DecidableEq, Repr

structure Slot where
  generation : UInt32
  object : Option HeapObject
  deriving DecidableEq, Repr

structure Heap where
  slots : Array Slot
  /-- Empty slots; the first is filled next. -/
  free : List UInt32
  layouts : Array Layout
  live : Nat
  /-- Number of live objects at which an allocation collects first. -/
  threshold : Nat
  /-- Marked objects whose fields are still to be looked at; empty outside a collection. -/
  gray : List ObjectRef
  deriving DecidableEq, Repr

abbrev HeapOp := EStateM MemoryError Heap

namespace Heap

def rootLayout : Nat := 0

/-- An empty heap; a threshold of zero counts as one. -/
def new (threshold : Nat) : Heap :=
  { slots := #[], free := [], layouts := #[{}], live := 0, threshold := max threshold 1
    gray := [] }

def resolve? (h : Heap) (r : ObjectRef) : Option HeapObject :=
  match h.slots[r.index.toNat]? with
  | some slot => if slot.generation = r.generation then slot.object else none
  | none => none

def object (h : Heap) (r : ObjectRef) : Except MemoryError HeapObject :=
  match h.resolve? r with
  | some o => .ok o
  | none => .error (.danglingReference r)

def setObject (h : Heap) (index : UInt32) (o : HeapObject) : Heap :=
  if hi : index.toNat < h.slots.size then
    let generation := h.slots[index.toNat].generation
    { h with slots := h.slots.set index.toNat { generation, object := some o } }
  else h

def layout (h : Heap) (id : Nat) : Layout := h.layouts[id]?.getD {}

def fieldCount (h : Heap) (r : ObjectRef) : Except MemoryError Nat :=
  return (← h.object r).fields.size

def lookupField (h : Heap) (r : ObjectRef) (id : FieldId) : Except MemoryError (Option Nat) :=
  return (h.layout (← h.object r).layout).slot? id

def getField (h : Heap) (r : ObjectRef) (slot : Nat) : Except MemoryError Value := do
  match (← h.object r).fields[slot]? with
  | some v => return v
  | none => throw (.invalidDescriptor r.index slot)

def setField (r : ObjectRef) (slot : Nat) (v : Value) : HeapOp Unit := fun h =>
  match h.resolve? r with
  | none => .error (.danglingReference r) h
  | some o =>
    if slot < o.fields.size then
      .ok () (h.setObject r.index { o with fields := o.fields.setIfInBounds slot v })
    else .error (.invalidDescriptor r.index slot) h

/-- The layout one field further on, recorded the first time it is asked for. -/
def extendLayout (h : Heap) (source : Nat) (id : FieldId) : Nat × Heap :=
  let base := h.layout source
  match base.transitions.lookup id with
  | some target => (target, h)
  | none =>
    let target := h.layouts.size
    let layouts := h.layouts.push { fields := base.fields ++ [id] }
    (target, { h with layouts := layouts.modify source fun l =>
      { l with transitions := (id, target) :: l.transitions } })

/-- Gives the object a field, with value zero, and returns its slot. An object that has the field
already stays as it is. -/
def addField (r : ObjectRef) (id : FieldId) : HeapOp Nat := fun h =>
  match h.resolve? r with
  | none => .error (.danglingReference r) h
  | some o =>
    match (h.layout o.layout).slot? id with
    | some slot => .ok slot h
    | none =>
      let (target, h) := h.extendLayout o.layout id
      .ok o.fields.size
        (h.setObject r.index { o with layout := target, fields := o.fields.push .zero })

end Heap

end StackMachine
