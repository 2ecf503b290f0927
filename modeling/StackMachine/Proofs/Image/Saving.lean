import StackMachine.Image.Encode
import StackMachine.Proofs.Image.RoundTrip

/-! Writing the file of a module. The writer drops one NUL at the end of each text and supplies a
missing sentinel; what it then writes are the sections of the module so changed. It succeeds when
no sentinel stands before the end and the file fits its size field. -/

namespace StackMachine

def Func.written (f : Func) : Func :=
  { f with
    name := Text.dropNul f.name
    code := Image.Writer.body f.code ++ [Instruction.endSection] }

def Module.written (m : Module) : Module :=
  { functions := m.functions.map Func.written, strings := m.strings.map Text.dropNul }

namespace Image

theorem body_ended {code : List Instruction} (h : Ended code) :
    Writer.body code ++ [Instruction.endSection] = code := by
  obtain ⟨body, rfl, -⟩ := h
  rw [Writer.body, List.getLast?_concat]
  have hend : Instruction.endSection.isEnd = true := rfl
  simp only [hend, if_true, List.dropLast_concat]

theorem findIdx?_body {f : Func} (h : Ended f.written.code) :
    (Writer.body f.code).findIdx? Instruction.isEnd = none := by
  obtain ⟨body, heq, hbody⟩ := h
  rw [List.append_cancel_right heq]
  exact List.findIdx?_eq_none_iff.2 hbody

namespace Writer

theorem put_eq (bytes : List UInt8) (w : Writer) :
    put bytes w = .ok () ⟨w.payload ++ bytes⟩ := rfl

theorem putWord_eq (word : UInt32) (w : Writer) :
    putWord word w = .ok () ⟨w.payload ++ wordBytes word⟩ := rfl

theorem putLength_of_lt (field : Field) {n : Nat} (hn : n < 0x100000000) (w : Writer) :
    putLength field n w = .ok () ⟨w.payload ++ lengthBytes n⟩ := by
  rw [putLength, if_pos hn]
  rfl

theorem putText_of_lt (field : Field) {s : String} (w : Writer)
    (hs : (Text.dropNul s).utf8ByteSize < 0x100000000) :
    putText field s w = .ok () ⟨w.payload ++ Record.textRecord (Text.dropNul s)⟩ := by
  have hlen : (textBytes (Text.dropNul s)).length < 0x100000000 := by
    rw [length_textBytes]
    exact hs
  simp only [putText, stripNul_textBytes]
  rw [bind_of_ok (putLength_of_lt field hlen w), put_eq, length_textBytes]
  simp [Record.textRecord, ← Array.toList_inj]

theorem putFunction_of_writable {f : Func} (w : Writer)
    (hf : (Record.function f.written).Writable) :
    putFunction f w = .ok () ⟨w.payload ++ (Record.function f.written).bytes⟩ := by
  rw [putFunction, bind_of_ok (putText_of_lt _ w hf.2), bind_of_ok (putWord_eq _ _),
    bind_of_ok (putWord_eq _ _)]
  simp only [findIdx?_body hf.1]
  rw [bind_of_ok (put_eq _ _), putWord_eq]
  simp [Record.bytes, Func.written, ← Array.toList_inj]

theorem forM_put {α : Type} {items : List α} {put : α → Writing Unit} {bytes : α → List UInt8}
    (hput : ∀ x ∈ items, ∀ w, put x w = .ok () ⟨w.payload ++ bytes x⟩) (w : Writer) :
    items.forM put w = .ok () ⟨w.payload ++ items.flatMap bytes⟩ := by
  induction items generalizing w with
  | nil => simp [pure, EStateM.pure]
  | cons x items ih =>
    have htail := ih fun y hy => hput y (List.mem_cons_of_mem _ hy)
    rw [List.forM, bind_of_ok (hput x List.mem_cons_self w), htail]
    simp [← Array.toList_inj]

theorem putSection_eq {α : Type} (kind : SectionKind) (count : Field) {items : List α}
    {putItem : α → Writing Unit} {bytes : α → List UInt8}
    (hput : ∀ x ∈ items, ∀ w, putItem x w = .ok () ⟨w.payload ++ bytes x⟩)
    (hcount : items.length < 0x100000000) (w : Writer) :
    putSection kind count items putItem w =
      .ok () ⟨w.payload ++ if items.isEmpty then [] else
        wordBytes kind.code ++ lengthBytes items.length ++ items.flatMap bytes⟩ := by
  unfold putSection
  by_cases hempty : items.isEmpty = true
  · rw [if_pos hempty, if_pos hempty]
    simp [pure, EStateM.pure]
  · rw [if_neg hempty, if_neg hempty, bind_of_ok (putWord_eq _ _),
      bind_of_ok (putLength_of_lt count hcount _), forM_put hput]
    simp [← Array.toList_inj]

theorem putModule_of_fits {m : Module} (hm : Fits m.written) (w : Writer) :
    putModule m w = .ok () ⟨w.payload ++ (sectionsOf m.written).flatMap Section.bytes⟩ := by
  have hfunctions : ∀ f ∈ m.functions, ∀ w,
      putFunction f w = .ok () ⟨w.payload ++ (Record.function f.written).bytes⟩ := by
    intro f hf w
    apply putFunction_of_writable
    apply hm.writable
    simp only [Module.records, Module.written, List.mem_append, List.mem_map]
    exact .inl ⟨f.written, ⟨f, hf, rfl⟩, rfl⟩
  have hstrings : ∀ s ∈ m.strings, ∀ w, putText .string s w =
      .ok () ⟨w.payload ++ (Record.string (Text.dropNul s)).bytes⟩ := by
    intro s hs w
    apply putText_of_lt
    have hrecord : (Record.string (Text.dropNul s)).Writable := by
      apply hm.writable
      simp only [Module.records, Module.written, List.mem_append, List.mem_map]
      exact .inr ⟨Text.dropNul s, ⟨s, hs, rfl⟩, rfl⟩
    exact hrecord
  obtain ⟨hcount, hcount'⟩ := hm.counts
  rw [Module.written] at hcount hcount'
  rw [List.length_map] at hcount hcount'
  rw [putModule, bind_of_ok (putSection_eq _ _ hfunctions hcount w),
    putSection_eq _ _ hstrings hcount']
  rcases m with ⟨_ | ⟨f, fs⟩, _ | ⟨s, ss⟩⟩ <;>
    simp [sectionsOf, Module.written, Section.bytes, Section.kind, Section.records,
      ← Array.toList_inj, List.flatMap_map]

end Writer

theorem encode_of_fits {m : Module} (hm : Fits m.written) :
    encode m = .ok (lengthBytes (payload m.written).length ++ payload m.written) := by
  have hpayload : (Writer.new.payload ++ (sectionsOf m.written).flatMap Section.bytes).toList =
      payload m.written := by
    simp [Writer.new, payload]
  have hsize := hm.size
  rw [← hpayload, Array.length_toList] at hsize
  simp only [encode, Writer.putModule_of_fits hm, Writer.finish]
  rw [if_pos hsize, hpayload, ← hpayload, Array.length_toList]

end Image

end StackMachine
