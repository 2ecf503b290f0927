import StackMachine.Image.Decode
import StackMachine.Proofs.Image.Text
import StackMachine.Proofs.Lists

/-! The bytes of a module file, and how they are read back. A file is the magic bytes and a list of
sections; every reader takes exactly the bytes of what it reads off the front of the input, and
drops one NUL at the end of each text. -/

namespace StackMachine

namespace Image

/-- The sentinel stands at the end and nowhere else. -/
def Ended (code : List Instruction) : Prop :=
  ∃ body, code = body ++ [Instruction.endSection] ∧ ∀ i ∈ body, i.isEnd = false

inductive Section where
  | functions (functions : List Func)
  | strings (strings : List String)

namespace Section

def kind : Section → SectionKind
  | .functions _ => .functions
  | .strings _ => .strings

def records : Section → List Record
  | .functions fs => fs.map .function
  | .strings ss => ss.map .string

def bytes (s : Section) : List UInt8 :=
  wordBytes s.kind.code ++ lengthBytes s.records.length ++ s.records.flatMap Record.bytes

end Section

def sectionsOf (m : Module) : List Section :=
  (if m.functions.isEmpty then [] else [.functions m.functions])
    ++ (if m.strings.isEmpty then [] else [.strings m.strings])

def payload (m : Module) : List UInt8 := magic ++ (sectionsOf m).flatMap Section.bytes

end Image

namespace Record

def dropNul : Record → Record
  | .function f => .function { f with name := Text.dropNul f.name }
  | .string s => .string (Text.dropNul s)

/-- A file can hold the record: the code has its sentinel, and lengths are 32-bit numbers. -/
def Writable : Record → Prop
  | .function f => Image.Ended f.code ∧ f.name.utf8ByteSize < 0x100000000
  | .string s => s.utf8ByteSize < 0x100000000

end Record

namespace Image

namespace Reading

variable {rest : List UInt8} {offset : Nat} {records : Array Record}

theorem word_append (field : Field) (w : UInt32) :
    word field ⟨wordBytes w ++ rest, offset, records⟩ = .ok w ⟨rest, offset + 4, records⟩ := by
  simp only [word, wordBytes, List.cons_append, List.nil_append, word_wordBytes]

theorem bytes_append (field : Field) (front : List UInt8) :
    bytes field front.length ⟨front ++ rest, offset, records⟩ =
      .ok front ⟨rest, offset + front.length, records⟩ := by
  simp [bytes]

theorem text_append (field : Field) {s : String} (hs : s.utf8ByteSize < 0x100000000) :
    text field ⟨Record.textRecord s ++ rest, offset, records⟩ =
      .ok (Text.dropNul s) ⟨rest, offset + (Record.textRecord s).length, records⟩ := by
  have hlen : (UInt32.ofNat s.utf8ByteSize).toNat = (textBytes s).length := by
    rw [toNat_ofNat_of_lt hs, length_textBytes]
  have hsize : offset + (Record.textRecord s).length = offset + 4 + (textBytes s).length := by
    simp [Record.textRecord, lengthBytes, length_wordBytes]
    omega
  rw [hsize, Record.textRecord, List.append_assoc, lengthBytes]
  unfold text
  rw [bind_of_ok (word_append field _), hlen, bind_get, bind_of_ok (bytes_append field _),
    stripNul_textBytes, text?_textBytes]
  rfl

theorem splitCode_word (i : Instruction) (rest : List UInt8) :
    splitCode (wordBytes i.word ++ rest) =
      if i.isEnd then .ok ([i], rest)
      else (splitCode rest).map fun (code, rest) => (i :: code, rest) := by
  simp only [wordBytes, List.cons_append, List.nil_append, splitCode, word_wordBytes]

theorem splitCode_append {code : List Instruction} (hc : Ended code) (rest : List UInt8) :
    splitCode ((code.flatMap fun i => wordBytes i.word) ++ rest) = .ok (code, rest) := by
  obtain ⟨body, rfl, hbody⟩ := hc
  induction body with
  | nil =>
    rw [List.nil_append, List.flatMap_singleton, splitCode_word]
    rfl
  | cons i body ih =>
    have hi := hbody i List.mem_cons_self
    have hrest := ih fun j hj => hbody j (List.mem_cons_of_mem _ hj)
    rw [List.cons_append, List.flatMap_cons, List.append_assoc, splitCode_word, hi, hrest]
    rfl

theorem code_append {code : List Instruction} (hc : Ended code) :
    Reading.code ⟨(code.flatMap fun i => wordBytes i.word) ++ rest, offset, records⟩ =
      .ok code ⟨rest, offset + 4 * code.length, records⟩ := by
  simp only [Reading.code, splitCode_append hc]

theorem length_code (code : List Instruction) :
    (code.flatMap fun i => wordBytes i.word).length = 4 * code.length := by
  induction code with
  | nil => rfl
  | cons i code ih =>
    rw [List.flatMap_cons, List.length_append, ih, length_wordBytes, List.length_cons]
    omega

theorem function_append {f : Func} (hf : (Record.function f).Writable) :
    record .functions ⟨(Record.function f).bytes ++ rest, offset, records⟩ =
      .ok () ⟨rest, offset + (Record.function f).bytes.length,
        records.push (Record.function f).dropNul⟩ := by
  have hlen : offset + (Record.function f).bytes.length =
      offset + (Record.textRecord f.name).length + 4 + 4 + 4 * f.code.length := by
    simp only [Record.bytes, List.length_append, length_wordBytes, length_code]
    omega
  rw [hlen]
  simp only [Record.bytes, List.append_assoc, record]
  rw [bind_of_ok (text_append _ hf.2), bind_of_ok (word_append _ _), bind_of_ok (word_append _ _),
    bind_of_ok (code_append hf.1)]
  rfl

theorem string_append {s : String} (hs : (Record.string s).Writable) :
    record .strings ⟨(Record.string s).bytes ++ rest, offset, records⟩ =
      .ok () ⟨rest, offset + (Record.string s).bytes.length,
        records.push (Record.string s).dropNul⟩ := by
  rw [record, Record.bytes, bind_of_ok (text_append _ hs)]
  rfl

theorem records_append {kind : SectionKind} {items : List Record}
    (hitem : ∀ r ∈ items, ∀ rest offset records,
      record kind ⟨r.bytes ++ rest, offset, records⟩ =
        .ok () ⟨rest, offset + r.bytes.length, records.push r.dropNul⟩) :
    Reading.records kind items.length ⟨items.flatMap Record.bytes ++ rest, offset, records⟩ =
      .ok () ⟨rest, offset + (items.flatMap Record.bytes).length,
        records ++ items.map Record.dropNul⟩ := by
  induction items generalizing offset records with
  | nil => simp [Reading.records, pure, EStateM.pure]
  | cons r items ih =>
    have hr := hitem r List.mem_cons_self
    rw [List.length_cons, Reading.records, List.flatMap_cons, List.append_assoc,
      bind_of_ok (hr _ _ _), ih fun q hq => hitem q (List.mem_cons_of_mem _ hq)]
    simp [Nat.add_assoc]

theorem readSection_append {s : Section} (hs : ∀ r ∈ s.records, r.Writable)
    (hcount : s.records.length < 0x100000000) :
    readSection ⟨s.bytes ++ rest, offset, records⟩ =
      .ok () ⟨rest, offset + s.bytes.length, records ++ s.records.map Record.dropNul⟩ := by
  have hitem : ∀ r ∈ s.records, ∀ rest offset records,
      record s.kind ⟨r.bytes ++ rest, offset, records⟩ =
        .ok () ⟨rest, offset + r.bytes.length, records.push r.dropNul⟩ := by
    intro r hr rest offset records
    cases s with
    | functions fs =>
      obtain ⟨f, -, rfl⟩ := List.mem_map.1 hr
      exact function_append (hs _ hr)
    | strings ss =>
      obtain ⟨t, -, rfl⟩ := List.mem_map.1 hr
      exact string_append (hs _ hr)
  have hkind : SectionKind.ofCode? s.kind.code = some s.kind := by cases s <;> rfl
  have hlen : offset + s.bytes.length =
      offset + 4 + 4 + (s.records.flatMap Record.bytes).length := by
    simp only [Section.bytes, List.length_append, length_wordBytes, lengthBytes]
    omega
  rw [hlen, Section.bytes, List.append_assoc, List.append_assoc, readSection,
    bind_of_ok (word_append _ _), hkind]
  simp only [lengthBytes]
  rw [bind_of_ok (word_append _ _), toNat_ofNat_of_lt hcount]
  exact records_append hitem

theorem sections_succ (n : Nat) (s : Input) :
    sections (n + 1) s =
      if s.rest.isEmpty then .ok () s else (readSection >>= fun _ => sections n) s := by
  rw [sections, bind_get]
  cases s.rest.isEmpty <;> rfl

theorem sections_append {n : Nat} {ss : List Section} (hn : ss.length ≤ n)
    (hs : ∀ s ∈ ss, (∀ r ∈ s.records, r.Writable) ∧ s.records.length < 0x100000000) :
    sections n ⟨ss.flatMap Section.bytes, offset, records⟩ =
      .ok () ⟨[], offset + (ss.flatMap Section.bytes).length,
        records ++ (ss.flatMap Section.records).map Record.dropNul⟩ := by
  induction ss generalizing n offset records with
  | nil =>
    cases n with
    | zero => simp [sections, pure, EStateM.pure]
    | succ n => simp [sections_succ]
  | cons s ss ih =>
    obtain ⟨n, rfl⟩ := Nat.exists_eq_add_of_le' hn
    have hhead := hs s List.mem_cons_self
    have htail : ∀ t ∈ ss, (∀ r ∈ t.records, r.Writable) ∧ t.records.length < 0x100000000 :=
      fun t ht => hs t (List.mem_cons_of_mem _ ht)
    have hne : (s.bytes ++ ss.flatMap Section.bytes).isEmpty = false := by
      simp [Section.bytes, wordBytes]
    rw [List.length_cons, ← Nat.add_assoc, sections_succ, List.flatMap_cons, hne,
      if_neg Bool.false_ne_true, bind_of_ok (readSection_append hhead.1 hhead.2),
      ih (Nat.le_add_left _ _) htail]
    simp [Nat.add_assoc, ← Array.toList_inj]

end Reading

end Image

end StackMachine
