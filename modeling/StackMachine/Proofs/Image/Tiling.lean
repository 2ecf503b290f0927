import StackMachine.Proofs.Image.Recognition
import StackMachine.Proofs.Image.Views

/-! Building an image. Each push puts its record at the end of the buffer and leaves everything
before it alone, so that the records tile the buffer in the order in which they came, and each of
them is found where its push has put it. -/

namespace StackMachine

namespace Record

/-- The indices that go to the records of one kind. -/
def indicesOf (kind : Image.SectionKind) (entries : List (Record × Nat)) : List Nat :=
  (entries.filter fun entry => entry.1.kind = kind).map Prod.snd

end Record

namespace Arena

open Image

def withCapacity (capacity : Nat) : Arena := { buffer := .emptyWithCapacity capacity }

/-- Pushes the records one after the other, and collects the indices that the pushes give. -/
def pushAll (a : Arena) : List Record → List Nat × Arena
  | [] => ([], a)
  | r :: records =>
    let (index, a) := a.push r
    let (indices, a) := a.pushAll records
    (index :: indices, a)

/-- The table of the records of one kind. -/
def offsets (a : Arena) : SectionKind → List Nat
  | .functions => a.functions.toList.map Placement.offset
  | .strings => a.strings.toList

/-- The record starts at `offset`, and the look-ups at `index` give what was written there. -/
def Holds (a : Arena) (offset index : Nat) : Record → Prop
  | .function f => a.functions[index]? = some ⟨offset, f.code.length⟩ ∧
      a.functionRecord index = .ok (recordOf f index offset) ∧ a.Shows f (recordOf f index offset)
  | .string s => a.strings[index]? = some offset ∧ a.string index = .ok s

/-- From an offset to the end of the buffer there are these records and nothing else, each with its
index, and each begins where the one before it ends. -/
inductive Tiled (a : Arena) : Nat → List (Record × Nat) → Prop
  | nil : Tiled a a.buffer.size []
  | cons {offset index : Nat} {r : Record} {rest : List (Record × Nat)} :
      a.Has offset r.bytes → a.Holds offset index r → Tiled a (offset + r.bytes.length) rest →
      Tiled a offset ((r, index) :: rest)

/-- No look-up finds the image damaged, be it for a function, for an instruction that a function
has, or for a string. -/
structure Undamaged (a : Arena) : Prop where
  function : ∀ i offset damage, a.functionRecord i ≠ .error (.corrupt offset damage)
  instruction : ∀ i r ip offset damage, a.functionRecord i = .ok r → ip < r.codeLength →
    a.instruction r ip ≠ .error (.corrupt offset damage)
  string : ∀ i offset damage, a.string i ≠ .error (.corrupt offset damage)

/-- The tables name the records of each kind in the order in which they stand. -/
structure Ordered (a : Arena) : Prop where
  pairwise : ∀ kind, (a.offsets kind).Pairwise (· < ·)
  lt : ∀ kind, ∀ offset ∈ a.offsets kind, offset < a.buffer.size

variable {a b c : Arena}

section Push

theorem size_buffer_push (a : Arena) (r : Record) :
    (a.push r).2.buffer.size = a.buffer.size + r.bytes.length := by
  cases r <;> simp [push, ← Array.length_toList]

theorem push_index (a : Arena) (r : Record) : (a.push r).1 = (a.offsets r.kind).length := by
  cases r <;> simp [push, offsets, Record.kind]

theorem offsets_push (a : Arena) (r : Record) (kind : SectionKind) :
    (a.push r).2.offsets kind =
      if r.kind = kind then a.offsets kind ++ [a.buffer.size] else a.offsets kind := by
  cases r <;> cases kind <;> simp [push, offsets, Record.kind]

theorem Ordered.push (h : a.Ordered) (r : Record) : (a.push r).2.Ordered := by
  have hpos := r.length_bytes_pos
  constructor
  · intro kind
    rw [offsets_push]
    split
    · refine List.pairwise_append.2 ⟨h.pairwise kind, List.pairwise_singleton _ _, ?_⟩
      intro offset hoffset new hnew
      rw [List.mem_singleton.1 hnew]
      exact h.lt kind offset hoffset
    · exact h.pairwise kind
  · intro kind offset hoffset
    rw [offsets_push] at hoffset
    rw [size_buffer_push]
    split at hoffset
    · rcases List.mem_append.1 hoffset with hold | hnew
      · have := h.lt kind offset hold
        omega
      · rw [List.mem_singleton.1 hnew]
        omega
    · have := h.lt kind offset hoffset
      omega

theorem Ordered.pushAll (h : a.Ordered) (records : List Record) :
    (a.pushAll records).2.Ordered := by
  induction records generalizing a with
  | nil => exact h
  | cons r records ih => exact ih (h.push r)

theorem length_offsets_pushAll (a : Arena) (records : List Record) (kind : SectionKind) :
    ((a.pushAll records).2.offsets kind).length =
      (a.offsets kind).length + records.countP fun r => r.kind = kind := by
  induction records generalizing a with
  | nil => rfl
  | cons r records ih =>
    have hrest := ih (a.push r).2
    rw [offsets_push] at hrest
    rw [pushAll, List.countP_cons]
    by_cases hkind : r.kind = kind
    · simp only [hkind, decide_true, if_true, List.length_append, List.length_singleton] at hrest ⊢
      omega
    · simpa only [hkind, decide_false, Bool.false_eq_true, if_false, Nat.add_zero] using hrest

theorem indicesOf_pushAll (a : Arena) (records : List Record) (kind : SectionKind) :
    Record.indicesOf kind (records.zip (a.pushAll records).1) =
      List.range' (a.offsets kind).length (records.countP fun r => r.kind = kind) := by
  induction records generalizing a with
  | nil => rfl
  | cons r records ih =>
    have hrest := ih (a.push r).2
    rw [offsets_push] at hrest
    rw [pushAll, List.zip_cons_cons, List.countP_cons]
    simp only [Record.indicesOf, List.filter_cons] at hrest ⊢
    by_cases hkind : r.kind = kind
    · simp only [hkind, decide_true, if_true, List.length_append, List.length_singleton,
        List.map_cons] at hrest ⊢
      rw [hrest, List.range'_succ, push_index, hkind]
    · simpa only [hkind, decide_false, Bool.false_eq_true, if_false, Nat.add_zero] using hrest

end Push

section Later

theorem extends_pushAll (a : Arena) (records : List Record) :
    a.Extends (a.pushAll records).2 := by
  induction records generalizing a with
  | nil => exact .refl a
  | cons r records ih => exact (extends_push a r).trans (ih (a.push r).2)

/-- Whatever is pushed later, a record is found as its push has written it. -/
theorem Extends.holds {r : Record} (h : (a.push r).2.Extends b)
    (hr : r.text.utf8ByteSize < 0x100000000) : b.Holds a.buffer.size (a.push r).1 r := by
  have hhas := h.has (has_push a r)
  cases r with
  | function f =>
    have hi : b.functions[a.functions.size]? = some ⟨a.buffer.size, f.code.length⟩ :=
      getElem?_of_prefix h.functions (by simp [push])
    exact ⟨hi, functionRecord_of_has hi hhas hr⟩
  | string s =>
    have hi : b.strings[a.strings.size]? = some a.buffer.size :=
      getElem?_of_prefix h.strings (by simp [push])
    exact ⟨hi, string_of_has hi hhas hr⟩

end Later

theorem tiled_pushAll (a : Arena) {records : List Record}
    (h : ∀ r ∈ records, r.text.utf8ByteSize < 0x100000000) :
    (a.pushAll records).2.Tiled a.buffer.size (records.zip (a.pushAll records).1) := by
  induction records generalizing a with
  | nil => exact .nil
  | cons r records ih =>
    -- the first record is looked up in the image of all, which extends the one after its push
    obtain ⟨hr, h⟩ := List.forall_mem_cons.1 h
    have hlater := extends_pushAll (a.push r).2 records
    have hrest := ih (a.push r).2 h
    rw [size_buffer_push] at hrest
    exact .cons (hlater.has (has_push a r)) (hlater.holds hr) hrest

theorem length_pushAll (a : Arena) (records : List Record) :
    (a.pushAll records).1.length = records.length := by
  induction records generalizing a with
  | nil => rfl
  | cons r records ih => exact congrArg (· + 1) (ih (a.push r).2)

theorem pushAll_eq_foldl (a : Arena) (records : List Record) :
    (a.pushAll records).2 = records.foldl (fun a r => (a.push r).2) a := by
  induction records generalizing a with
  | nil => rfl
  | cons r records ih => exact ih (a.push r).2

theorem mem_of_function {records : List Record} {i : Nat} {f : Func}
    (h : (Module.ofRecords records).functions[i]? = some f) : .function f ∈ records := by
  obtain ⟨r, hr, hf⟩ := List.mem_filterMap.1 (List.mem_of_getElem? h)
  cases r with
  | function g =>
    cases hf
    exact hr
  | string s => cases hf

theorem mem_of_string {records : List Record} {i : Nat} {s : String}
    (h : (Module.ofRecords records).strings[i]? = some s) : .string s ∈ records := by
  obtain ⟨r, hr, hs⟩ := List.mem_filterMap.1 (List.mem_of_getElem? h)
  cases r with
  | function f => cases hs
  | string t =>
    cases hs
    exact hr

section Damage

variable {records : List Record} (hsmall : ∀ r ∈ records, r.text.utf8ByteSize < 0x100000000)
  (h : a.Packed (.ofRecords records))
include hsmall h

theorem functionRecord_cases (i : Nat) :
    (∃ f r, a.functionRecord i = .ok r ∧ a.Shows f r) ∨
      a.functionRecord i =
        .error (.functionIndexOutOfRange i (Module.ofRecords records).functions.length) := by
  rcases Nat.lt_or_ge i (Module.ofRecords records).functions.length with hi | hi
  · have hf := List.getElem?_eq_getElem hi
    obtain ⟨r, hr, -, hshows⟩ := h.functionRecord hf (hsmall _ (mem_of_function hf))
    exact .inl ⟨_, r, hr, hshows⟩
  · exact .inr (functionRecord_of_le h hi)

theorem string_cases (i : Nat) :
    (∃ s, a.string i = .ok s) ∨
      a.string i = .error (.stringIndexOutOfRange i (Module.ofRecords records).strings.length) := by
  rcases Nat.lt_or_ge i (Module.ofRecords records).strings.length with hi | hi
  · have hs := List.getElem?_eq_getElem hi
    exact .inl ⟨_, h.string hs (hsmall _ (mem_of_string hs))⟩
  · exact .inr (string_of_le h hi)

theorem undamaged_of_packed : a.Undamaged where
  function i offset damage hi := by
    rcases functionRecord_cases hsmall h i with ⟨f, r, hr, -⟩ | hr <;> cases hr.symm.trans hi
  instruction i r ip offset damage hr hip hi := by
    rcases functionRecord_cases hsmall h i with ⟨f, r', hr', hshows⟩ | hr'
    · cases hr.symm.trans hr'
      rw [hshows.codeLength] at hip
      cases (hshows.code (List.getElem?_eq_getElem hip)).symm.trans hi
    · cases hr.symm.trans hr'
  string i offset damage hi := by
    rcases string_cases hsmall h i with ⟨s, hs⟩ | hs <;> cases hs.symm.trans hi

end Damage

/-- Pushed in any order, whatever their number and their contents, the records of an image have the
indices 0, 1, 2 and so on within their kind, tile the buffer, and are found again as they were
pushed. An index past the records of its kind is refused as such. -/
theorem tiled_of_pushes (capacity : Nat) {records : List Record}
    (h : ∀ r ∈ records, r.text.utf8ByteSize < 2 ^ 32) :
    let entries := records.zip ((withCapacity capacity).pushAll records).1
    let a := ((withCapacity capacity).pushAll records).2
    entries.map Prod.fst = records ∧
      (∀ kind, Record.indicesOf kind entries =
        List.range (records.countP fun r => r.kind = kind)) ∧
      a.Tiled 0 entries ∧
      (∀ kind, (a.offsets kind).length = records.countP fun r => r.kind = kind) ∧
      (∀ kind, (a.offsets kind).Pairwise (· < ·)) ∧
      (∀ i, a.functions.size ≤ i →
        a.functionRecord i = .error (.functionIndexOutOfRange i a.functions.size)) ∧
      (∀ i, a.strings.size ≤ i → a.string i = .error (.stringIndexOutOfRange i a.strings.size)) ∧
      a.Undamaged := by
  have hpushed : ((withCapacity capacity).pushAll records).2 = ofRecords records :=
    pushAll_eq_foldl _ records
  have hpacked := packed_ofRecords records
  have hordered : (withCapacity capacity).Ordered :=
    ⟨fun kind => by cases kind <;> exact .nil, fun kind => by cases kind <;> exact nofun⟩
  have hempty (kind : SectionKind) : ((withCapacity capacity).offsets kind).length = 0 := by
    cases kind <;> rfl
  refine ⟨List.map_fst_zip (length_pushAll _ records).ge, fun kind => ?_, tiled_pushAll _ h,
    fun kind => ?_, (hordered.pushAll records).pairwise, fun i hi => ?_, fun i hi => ?_, ?_⟩
  · rw [indicesOf_pushAll, hempty, List.range_eq_range']
  · rw [length_offsets_pushAll, hempty, Nat.zero_add]
  · rw [hpushed, hpacked.size_functions] at hi ⊢
    exact functionRecord_of_le hpacked hi
  · rw [hpushed, hpacked.size_strings] at hi ⊢
    exact string_of_le hpacked hi
  · rw [hpushed]
    exact undamaged_of_packed h hpacked

/-- Both kinds in turn; a text is empty, a name is, and a function has no code. -/
def patchwork : List Record :=
  [.string "", .function ⟨"né", 1, 2, [⟨0x02000000⟩, ⟨0⟩]⟩, .function ⟨"", 0, 0, []⟩, .string "a"]

theorem tiled_of_pushes_patchwork :
    (∀ r ∈ patchwork, r.text.utf8ByteSize < 2 ^ 32) ∧
      let a := ((withCapacity 3).pushAll patchwork).2
      ((withCapacity 3).pushAll patchwork).1 = [0, 0, 1, 1] ∧ a.buffer.size = 44 ∧
        a.offsets .functions = [4, 27] ∧ a.offsets .strings = [0, 39] ∧
        a.Tiled 0 (patchwork.zip [0, 0, 1, 1]) ∧
        a.functionRecord 2 = .error (.functionIndexOutOfRange 2 2) := by
  have hsmall : ∀ r ∈ patchwork, r.text.utf8ByteSize < 2 ^ 32 := by decide +kernel
  have hindices : ((withCapacity 3).pushAll patchwork).1 = [0, 0, 1, 1] := by decide +kernel
  obtain ⟨-, -, htiled, -, -, hpast, -, -⟩ := tiled_of_pushes 3 hsmall
  refine ⟨hsmall, hindices, by decide +kernel, by decide +kernel, by decide +kernel, ?_, ?_⟩
  · rwa [hindices] at htiled
  · exact hpast 2 (by decide +kernel)

end Arena

end StackMachine
