import StackMachine.Proofs.Image.Packing
import StackMachine.Proofs.Image.Sealed
import StackMachine.Proofs.Machine.Comparison

/-! The two views that one decoding gives. The image answers every query with what the module has
in that place, so two images of one module answer alike, wherever in their buffers the records
stand. -/

namespace StackMachine

/-- Queries to the images do not tell the records apart. -/
structure FuncRecord.Alike (a₁ a₂ : Arena) (r₁ r₂ : FuncRecord) : Prop where
  index : r₁.index = r₂.index
  name : r₁.name = r₂.name
  nparams : r₁.nparams = r₂.nparams
  nlocals : r₁.nlocals = r₂.nlocals
  codeLength : r₁.codeLength = r₂.codeLength
  code : ∀ ip < r₁.codeLength, a₁.instruction r₁ ip = a₂.instruction r₂ ip

theorem FuncRecord.Alike.refl (a : Arena) (r : FuncRecord) : FuncRecord.Alike a a r r :=
  ⟨rfl, rfl, rfl, rfl, rfl, fun _ _ => rfl⟩

namespace Arena

structure Alike (a₁ a₂ : Arena) : Prop where
  functionRecord : ∀ i,
    Agree (FuncRecord.Alike a₁ a₂) (fun _ => True) (a₁.functionRecord i) (a₂.functionRecord i)
  string : ∀ i, a₁.string i = a₂.string i

theorem Alike.refl (a : Arena) : a.Alike a where
  functionRecord i := by
    cases a.functionRecord i with
    | ok r => exact .ok (.refl a r)
    | error e => exact .error trivial
  string _ := rfl

variable {a a₁ a₂ : Arena} {m : Module}

theorem Packed.size_functions (h : a.Packed m) : a.functions.size = m.functions.length := by
  rw [← Array.length_toList]
  exact h.functions.length_eq

theorem Packed.size_strings (h : a.Packed m) : a.strings.size = m.strings.length := by
  rw [← Array.length_toList]
  exact h.strings.length_eq

theorem Shows.alike {f : Func} {r₁ r₂ : FuncRecord} (h₁ : a₁.Shows f r₁) (h₂ : a₂.Shows f r₂)
    (hindex : r₁.index = r₂.index) : FuncRecord.Alike a₁ a₂ r₁ r₂ where
  index := hindex
  name := h₁.name.trans h₂.name.symm
  nparams := h₁.nparams.trans h₂.nparams.symm
  nlocals := h₁.nlocals.trans h₂.nlocals.symm
  codeLength := h₁.codeLength.trans h₂.codeLength.symm
  code ip hip := by
    rw [h₁.codeLength] at hip
    have hi := List.getElem?_eq_getElem hip
    rw [h₁.code hi, h₂.code hi]

theorem functionRecord_of_le (h : a.Packed m) {i : Nat} (hi : m.functions.length ≤ i) :
    a.functionRecord i = .error (.functionIndexOutOfRange i m.functions.length) := by
  rw [← h.size_functions] at hi ⊢
  rw [functionRecord, Array.getElem?_eq_none hi]

theorem string_of_le (h : a.Packed m) {i : Nat} (hi : m.strings.length ≤ i) :
    a.string i = .error (.stringIndexOutOfRange i m.strings.length) := by
  rw [← h.size_strings] at hi ⊢
  rw [string, Array.getElem?_eq_none hi]

section Writable

variable (hm : ∀ r ∈ m.records, r.Writable)
include hm

theorem functionRecord_of_packed (h : a.Packed m) {i : Nat} {f : Func}
    (hi : m.functions[i]? = some f) :
    ∃ r, a.functionRecord i = .ok r ∧ r.index = i ∧ a.Shows f r := by
  have hmem : .function f ∈ m.records :=
    List.mem_append_left _ (List.mem_map_of_mem (List.mem_of_getElem? hi))
  exact h.functionRecord hi (hm _ hmem).2

theorem string_of_packed (h : a.Packed m) {i : Nat} {s : String} (hi : m.strings[i]? = some s) :
    a.string i = .ok s := by
  have hmem : .string s ∈ m.records :=
    List.mem_append_right _ (List.mem_map_of_mem (List.mem_of_getElem? hi))
  exact h.string hi (hm _ hmem)

theorem alike_of_packed (h₁ : a₁.Packed m) (h₂ : a₂.Packed m) : a₁.Alike a₂ := by
  constructor
  · intro i
    rcases Nat.lt_or_ge i m.functions.length with hi | hi
    · have hf := List.getElem?_eq_getElem hi
      obtain ⟨r₁, hr₁, hindex₁, hshows₁⟩ := functionRecord_of_packed hm h₁ hf
      obtain ⟨r₂, hr₂, hindex₂, hshows₂⟩ := functionRecord_of_packed hm h₂ hf
      rw [hr₁, hr₂]
      exact .ok (hshows₁.alike hshows₂ (hindex₁.trans hindex₂.symm))
    · rw [functionRecord_of_le h₁ hi, functionRecord_of_le h₂ hi]
      exact .error trivial
  · intro i
    rcases Nat.lt_or_ge i m.strings.length with hi | hi
    · have hs := List.getElem?_eq_getElem hi
      rw [string_of_packed hm h₁ hs, string_of_packed hm h₂ hs]
    · rw [string_of_le h₁ hi, string_of_le h₂ hi]

end Writable

end Arena

end StackMachine
