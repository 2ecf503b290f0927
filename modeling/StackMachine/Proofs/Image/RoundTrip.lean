import StackMachine.Proofs.Image.Grammar

/-! Reading the file of a module. The sections hold the records of the module in order, and each
record is read back with one NUL less at the end of its text. -/

namespace StackMachine

namespace Module

/-- The module with one NUL less at the end of each name and string that has one. -/
def dropNuls (m : Module) : Module :=
  { functions := m.functions.map fun f => { f with name := Text.dropNul f.name }
    strings := m.strings.map Text.dropNul }

def texts (m : Module) : List String := m.functions.map Func.name ++ m.strings

end Module

namespace Record

def text : Record → String
  | .function f => f.name
  | .string s => s

theorem size_text_le (r : Record) : r.text.utf8ByteSize ≤ r.bytes.length := by
  cases r with
  | function f =>
    simp only [text, bytes, textRecord, List.length_append, Image.length_textBytes]
    omega
  | string s =>
    simp only [text, bytes, textRecord, List.length_append, Image.length_textBytes]
    omega

theorem length_bytes_pos (r : Record) : 0 < r.bytes.length := by
  cases r <;> simp [bytes, textRecord, Image.lengthBytes, Image.wordBytes]

end Record

namespace Image

theorem Section.length_bytes_pos (s : Section) : 0 < s.bytes.length := by
  simp [bytes, wordBytes]

theorem sectionsOf_small {m : Module} (hm : (payload m).length < 0x100000000) :
    ∀ s ∈ sectionsOf m, s.records.length < 0x100000000 ∧
      ∀ r ∈ s.records, r.text.utf8ByteSize < 0x100000000 := by
  intro s hs
  have hsec : s.bytes.length ≤ ((sectionsOf m).flatMap Section.bytes).length :=
    length_le_flatMap_of_mem hs
  have hrec : (s.records.flatMap Record.bytes).length ≤ s.bytes.length := by
    simp only [Section.bytes, List.length_append]
    omega
  simp only [payload, List.length_append] at hm
  refine ⟨?_, fun r hr => ?_⟩
  · have := length_le_flatMap Record.length_bytes_pos s.records
    omega
  · have htext := r.size_text_le
    have hone : r.bytes.length ≤ (s.records.flatMap Record.bytes).length :=
      length_le_flatMap_of_mem hr
    omega

theorem records_sectionsOf (m : Module) : (sectionsOf m).flatMap Section.records = m.records := by
  rcases m with ⟨_ | ⟨f, fs⟩, _ | ⟨s, ss⟩⟩ <;> simp [sectionsOf, Module.records, Section.records]

/-- A file of the module can be written and read back: the sentinels are in place, and the size
field can hold the size. -/
structure Fits (m : Module) : Prop where
  ended : ∀ f ∈ m.functions, Ended f.code
  size : (payload m).length < 0x100000000

theorem Fits.sections {m : Module} (hm : Fits m) : ∀ s ∈ sectionsOf m,
    (∀ r ∈ s.records, r.Writable) ∧ s.records.length < 0x100000000 := by
  intro s hs
  have hsmall := sectionsOf_small hm.size s hs
  refine ⟨fun r hr => ?_, hsmall.1⟩
  have htext := hsmall.2 r hr
  have hmem : r ∈ m.records := by
    rw [← records_sectionsOf]
    exact List.mem_flatMap.2 ⟨s, hs, hr⟩
  cases r with
  | function f => exact ⟨hm.ended f (by simpa [Module.records] using hmem), htext⟩
  | string t => exact htext

theorem Fits.writable {m : Module} (hm : Fits m) {r : Record} (hr : r ∈ m.records) :
    r.Writable := by
  rw [← records_sectionsOf] at hr
  obtain ⟨s, hs, hr⟩ := List.mem_flatMap.1 hr
  exact (hm.sections s hs).1 r hr

theorem Fits.counts {m : Module} (hm : Fits m) :
    m.functions.length < 0x100000000 ∧ m.strings.length < 0x100000000 := by
  have hrecords : ∀ s ∈ sectionsOf m, s.records.length < 0x100000000 :=
    fun s hs => (hm.sections s hs).2
  rcases m with ⟨_ | ⟨f, fs⟩, _ | ⟨s, ss⟩⟩ <;>
    simp_all [sectionsOf, Section.records]

theorem file_sections {ss : List Section} (size : UInt32)
    (hs : ∀ s ∈ ss, (∀ r ∈ s.records, r.Writable) ∧ s.records.length < 0x100000000) :
    Reading.file ⟨wordBytes size ++ (magic ++ ss.flatMap Section.bytes), 0, #[]⟩ =
      .ok size ⟨[], 0 + 4 + magic.length + (ss.flatMap Section.bytes).length,
        (#[] : Array Record) ++ (ss.flatMap Section.records).map Record.dropNul⟩ := by
  have hlen := length_le_flatMap Section.length_bytes_pos ss
  have hne : (wordBytes size ++ (magic ++ ss.flatMap Section.bytes)).isEmpty = false := by
    simp [wordBytes]
  have hheader : Reading.header ⟨magic ++ ss.flatMap Section.bytes, 0 + 4, #[]⟩ =
      .ok () ⟨ss.flatMap Section.bytes, 0 + 4 + magic.length, #[]⟩ := by
    simp [Reading.header]
  unfold Reading.file
  rw [bind_get]
  simp only [hne, Bool.false_eq_true, if_false]
  rw [bind_of_ok (Reading.word_append _ _), bind_of_ok hheader, bind_get,
    bind_of_ok (Reading.sections_append hlen hs)]
  rfl

theorem decode_sections {ss : List Section} (size : UInt32)
    (hs : ∀ s ∈ ss, (∀ r ∈ s.records, r.Writable) ∧ s.records.length < 0x100000000) :
    decode (wordBytes size ++ (magic ++ ss.flatMap Section.bytes)) =
      .ok (.ofRecords ((ss.flatMap Section.records).map Record.dropNul),
        .ofRecords ((ss.flatMap Section.records).map Record.dropNul)) := by
  simp [decode, decodeWithEvents, file_sections size hs]

theorem ofRecords_records (m : Module) : Module.ofRecords m.records = m := by
  simp [Module.ofRecords, Module.records, List.filterMap_append, List.filterMap_map,
    Function.comp_def, Record.asFunction?, Record.asString?]

theorem map_dropNul_records (m : Module) : m.records.map Record.dropNul = m.dropNuls.records := by
  simp [Module.records, Module.dropNuls, Record.dropNul, Function.comp_def]

/-- The file of a module gives the module back, less one NUL at the end of each text. -/
theorem decode_payload {m : Module} (size : UInt32) (hm : Fits m) :
    decode (wordBytes size ++ payload m) = .ok (m.dropNuls, .ofModule m.dropNuls) := by
  rw [payload, decode_sections size hm.sections, records_sectionsOf, map_dropNul_records,
    ofRecords_records]
  rfl

end Image

end StackMachine
