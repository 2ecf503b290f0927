import Mathlib.Data.List.Basic
import StackMachine.Proofs.Image.Reload

/-! Several modules in one file. A writer takes one module after the other; the file holds the
sections of all of them, one behind the other, and reading it gives their functions and their
strings in the order of writing. A function may lack its final sentinel, which is supplied. -/

namespace StackMachine

/-- The function with a sentinel at the end, where it lacks one. -/
def Func.completed (f : Func) : Func :=
  if f.code.getLast? = some .endSection then f
  else { f with code := f.code ++ [.endSection] }

theorem Func.completed_name (f : Func) : f.completed.name = f.name := by
  unfold completed
  split <;> rfl

namespace Module

def completed (m : Module) : Module := { m with functions := m.functions.map Func.completed }

def join (ms : List Module) : Module :=
  { functions := ms.flatMap Module.functions, strings := ms.flatMap Module.strings }

/-- No text ends with NUL, and no sentinel stands before the last instruction of a function. -/
structure Plain (m : Module) : Prop where
  texts : ∀ s ∈ m.texts, s.toList.getLast? ≠ some '\x00'
  code : ∀ f ∈ m.functions, ∀ i ∈ f.code.dropLast, i.isEnd = false

end Module

namespace Image

/-- What a file of the modules holds behind its size. -/
def payloads (ms : List Module) : List UInt8 :=
  magic ++ (ms.flatMap sectionsOf).flatMap Section.bytes

theorem body_completed (f : Func) :
    Writer.body f.code ++ [Instruction.endSection] = f.completed.code := by
  unfold Writer.body Func.completed
  cases hlast : f.code.getLast? with
  | none =>
    rw [List.getLast?_eq_none_iff.1 hlast]
    rfl
  | some last =>
    by_cases hend : last = Instruction.endSection
    · subst hend
      rw [if_pos rfl]
      exact List.dropLast_append_getLast? _ hlast
    · have hisEnd : ¬ last.isEnd = true := mt eq_of_beq hend
      rw [if_neg (mt Option.some.inj hend)]
      simp only [if_neg hisEnd]

theorem ended_completed {f : Func} (hf : ∀ i ∈ f.code.dropLast, i.isEnd = false) :
    Ended f.completed.code := by
  refine ⟨Writer.body f.code, (body_completed f).symm, fun i hi => ?_⟩
  unfold Writer.body at hi
  cases hlast : f.code.getLast? with
  | none =>
    rw [hlast] at hi
    cases hi
  | some last =>
    simp only [hlast] at hi
    split at hi
    · exact hf i hi
    next hend =>
      -- what is not in front of the last instruction is the last instruction
      rw [← List.dropLast_append_getLast? _ hlast] at hi
      rcases List.mem_append.1 hi with hi | hi
      · exact hf i hi
      · rw [List.mem_singleton.1 hi]
        exact Bool.eq_false_iff.2 hend

theorem written_eq (m : Module) : m.written = m.completed.dropNuls := by
  have hfunction : Func.written =
      (fun f => { f with name := Text.dropNul f.name }) ∘ Func.completed := by
    funext f
    rw [Func.written, body_completed, Function.comp_apply]
    unfold Func.completed
    split <;> rfl
  rw [Module.written, Module.dropNuls, Module.completed, List.map_map, hfunction]

theorem texts_completed (m : Module) : m.completed.texts = m.texts := by
  simp only [Module.texts, Module.completed, List.map_map, Function.comp_def, Func.completed_name]

theorem dropNuls_of_texts {m : Module} (hm : ∀ s ∈ m.texts, s.toList.getLast? ≠ some '\x00') :
    m.dropNuls = m := by
  have hfunction : ∀ f ∈ m.functions, { f with name := Text.dropNul f.name } = f := by
    intro f hf
    rw [Text.dropNul_of_ne (hm _ (List.mem_append_left _ (List.mem_map_of_mem hf)))]
  have hstring : ∀ s ∈ m.strings, Text.dropNul s = s :=
    fun s hs => Text.dropNul_of_ne (hm s (List.mem_append_right _ hs))
  rw [Module.dropNuls, List.map_congr_left hfunction, List.map_congr_left hstring, List.map_id',
    List.map_id']

theorem dropNuls_of_plain {m : Module} (hm : m.Plain) : m.completed.dropNuls = m.completed :=
  dropNuls_of_texts (texts_completed m ▸ hm.texts)

theorem ofRecords_flatMap (ms : List Module) :
    Module.ofRecords (ms.flatMap Module.records) = Module.join ms := by
  have hfunctions : ∀ m : Module, m.records.filterMap Record.asFunction? = m.functions :=
    fun m => congrArg Module.functions (ofRecords_records m)
  have hstrings : ∀ m : Module, m.records.filterMap Record.asString? = m.strings :=
    fun m => congrArg Module.strings (ofRecords_records m)
  simp only [Module.ofRecords, Module.join, List.filterMap_flatMap, hfunctions, hstrings]

/-- A warning tells that the size at the front is not the size of what follows. -/
theorem sizeMismatch_not_mem {ss : List Section} {size : UInt32}
    (hs : ∀ s ∈ ss, (∀ r ∈ s.records, r.Writable) ∧ s.records.length < 0x100000000)
    (hsize : size.toNat = (magic ++ ss.flatMap Section.bytes).length) (declared actual : Nat) :
    Event.sizeMismatch declared actual ∉
      (decodeWithEvents (wordBytes size ++ (magic ++ ss.flatMap Section.bytes))).events := by
  have hpayload : size.toNat =
      (wordBytes size ++ (magic ++ ss.flatMap Section.bytes)).length - 4 := by
    rw [hsize]
    simp only [List.length_append, length_wordBytes, Nat.add_sub_cancel_left]
  have hread : ∀ rs : List Record, Event.sizeMismatch declared actual ∉ readEvents rs := by
    intro rs hmem
    obtain ⟨r, -, hr⟩ := List.mem_filterMap.1 hmem
    cases r <;> cases hr
  have hwarnings : ∀ m : Module, Event.sizeMismatch declared actual ∉ m.warnings := by
    intro m hmem
    obtain ⟨d, -, hd⟩ := List.mem_map.1 hmem
    cases hd
  have hdecoded : ∀ functions strings bytes : Nat,
      Event.sizeMismatch declared actual ≠ .moduleDecoded functions strings bytes := by
    intro functions strings bytes h
    cases h
  simp only [decodeWithEvents, file_sections size hs, if_pos hpayload, List.append_nil,
    List.mem_append, List.mem_singleton, not_or]
  exact ⟨⟨hread _, hwarnings _⟩, hdecoded _ _ _⟩

section Writing

variable {ms : List Module} (hplain : ∀ m ∈ ms, m.Plain)
  (hsize : (payloads (ms.map Module.completed)).length < 0x100000000)
include hplain hsize

theorem fits_of_plain {m : Module} (hm : m ∈ ms) : Fits m.completed := by
  constructor
  · intro f hf
    obtain ⟨g, hg, rfl⟩ := List.mem_map.1 hf
    exact ended_completed ((hplain m hm).code g hg)
  · have hle : ((sectionsOf m.completed).flatMap Section.bytes).length ≤
        (ms.flatMap fun m => (sectionsOf m.completed).flatMap Section.bytes).length :=
      length_le_flatMap_of_mem (f := fun m => (sectionsOf m.completed).flatMap Section.bytes) hm
    simp only [payloads, List.flatMap_map, List.flatMap_assoc, List.length_append] at hsize
    simp only [payload, List.length_append]
    omega

theorem putModules_of_plain (w : Writer) :
    ms.forM Writer.putModule w = .ok ()
      ⟨w.payload ++ ms.flatMap fun m => (sectionsOf m.completed).flatMap Section.bytes⟩ := by
  refine Writer.forM_put (fun m hm w => ?_) w
  have hwritten : m.written = m.completed := (written_eq m).trans (dropNuls_of_plain (hplain m hm))
  rw [Writer.putModule_of_fits (hwritten ▸ fits_of_plain hplain hsize hm), hwritten]

theorem sections_of_plain : ∀ s ∈ (ms.map Module.completed).flatMap sectionsOf,
    (∀ r ∈ s.records, r.Writable) ∧ s.records.length < 0x100000000 := by
  intro s hs
  obtain ⟨_, hmap, hs⟩ := List.mem_flatMap.1 hs
  obtain ⟨m, hm, rfl⟩ := List.mem_map.1 hmap
  exact (fits_of_plain hplain hsize hm).sections s hs

/-- The size and the payload make the file. -/
theorem finish_of_plain (w : Writer) (hw : ms.forM Writer.putModule Writer.new = .ok () w) :
    w.finish = .ok (wordBytes (UInt32.ofNat (payloads (ms.map Module.completed)).length) ++
      payloads (ms.map Module.completed)) := by
  have hpayload : (Writer.new.payload ++
      ms.flatMap fun m => (sectionsOf m.completed).flatMap Section.bytes).toList =
      payloads (ms.map Module.completed) := by
    simp [Writer.new, payloads, List.flatMap_map, List.flatMap_assoc]
  rw [putModules_of_plain hplain hsize] at hw
  cases hw
  rw [Writer.finish, ← Array.length_toList, hpayload, if_pos hsize]
  rfl

theorem decode_of_plain (size : UInt32) :
    decode (wordBytes size ++ payloads (ms.map Module.completed)) =
      .ok (.join (ms.map Module.completed),
        .ofRecords ((ms.map Module.completed).flatMap Module.records)) := by
  have hrecords : (((ms.map Module.completed).flatMap sectionsOf).flatMap Section.records).map
      Record.dropNul = (ms.map Module.completed).flatMap Module.records := by
    simp only [List.flatMap_assoc, records_sectionsOf, List.map_flatMap, map_dropNul_records,
      List.flatMap_map]
    refine List.flatMap_congr fun m hm => ?_
    rw [dropNuls_of_plain (hplain m hm)]
  have hdecode := decode_sections size (sections_of_plain hplain hsize)
  rwa [hrecords, ofRecords_flatMap] at hdecode

/-- Reading undoes writing, for any number of modules. One module comes with the image that is made
from it. -/
theorem decode_of_modules : ∃ w bytes arena,
    ms.forM Writer.putModule Writer.new = .ok () w ∧ w.finish = .ok bytes ∧
    decode bytes = .ok (.join (ms.map Module.completed), arena) ∧
    (∃ size rest, bytes = wordBytes size ++ rest ∧ size.toNat = bytes.length - 4) ∧
    (∀ declared actual, Event.sizeMismatch declared actual ∉ (decodeWithEvents bytes).events) ∧
    ∀ m, ms = [m] → arena = .ofModule m.completed := by
  have hput := putModules_of_plain hplain hsize Writer.new
  set size := UInt32.ofNat (payloads (ms.map Module.completed)).length
  have hsize' : size.toNat = (payloads (ms.map Module.completed)).length :=
    toNat_ofNat_of_lt hsize
  refine ⟨_, _, _, hput, finish_of_plain hplain hsize _ hput, decode_of_plain hplain hsize size,
    ⟨size, _, rfl, ?_⟩, sizeMismatch_not_mem (sections_of_plain hplain hsize) hsize', ?_⟩
  · rw [hsize', List.length_append, length_wordBytes, Nat.add_sub_cancel_left]
  · rintro m rfl
    simp [Arena.ofModule]

end Writing

/-- Two modules that share a name and a string. The first function lacks its sentinel, the second
has no code at all. -/
def twice : List Module :=
  [⟨[⟨"f", 1, 0, [.make .pushParam 0, .make .functionReturn 0]⟩, ⟨"", 0, 2, []⟩], ["a"]⟩,
    ⟨[⟨"f", 0, 0, [.make .jump (-1), .endSection]⟩], ["", "a"]⟩]

theorem decode_of_modules_twice : (∀ m ∈ twice, m.Plain) ∧
    (payloads (twice.map Module.completed)).length < 0x100000000 ∧
    ∃ w bytes arena, twice.forM Writer.putModule Writer.new = .ok () w ∧ w.finish = .ok bytes ∧
      decode bytes = .ok (⟨[
        ⟨"f", 1, 0, [.make .pushParam 0, .make .functionReturn 0, .endSection]⟩,
        ⟨"", 0, 2, [.endSection]⟩,
        ⟨"f", 0, 0, [.make .jump (-1), .endSection]⟩], ["a", "", "a"]⟩, arena) := by
  have hplain : ∀ m ∈ twice, m.Plain := by
    simp only [twice, List.forall_mem_cons, List.not_mem_nil, false_imp_iff, implies_true, and_true]
    exact ⟨⟨by decide, by decide⟩, by decide, by decide⟩
  have hsize : (payloads (twice.map Module.completed)).length < 0x100000000 := by decide
  obtain ⟨w, bytes, arena, hput, hfinish, hdecode, -⟩ := decode_of_modules hplain hsize
  exact ⟨hplain, hsize, w, bytes, arena, hput, hfinish, hdecode⟩

end Image

end StackMachine
