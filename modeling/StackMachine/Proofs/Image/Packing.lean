import StackMachine.Proofs.Image.RoundTrip
import StackMachine.Proofs.Lists

/-! Packed images hold what was pushed into them. Each record stays where it was put, whatever is
added behind it; reading a function or a string by its index gives the record that was pushed as
that one of its kind, in whichever order the two kinds came. -/

namespace StackMachine

namespace Arena

open Image

def Has (a : Arena) (offset : Nat) (bytes : List UInt8) : Prop :=
  ∃ front back, a.buffer.toList = front ++ bytes ++ back ∧ front.length = offset

variable {a : Arena} {offset : Nat}

theorem Has.append {xs ys : List UInt8} (h : a.Has offset (xs ++ ys)) :
    a.Has offset xs ∧ a.Has (offset + xs.length) ys := by
  obtain ⟨front, back, hb, rfl⟩ := h
  constructor
  · exact ⟨front, ys ++ back, by rw [hb]; simp, rfl⟩
  · exact ⟨front ++ xs, back, by rw [hb]; simp, by simp⟩

theorem Has.getElem? {bytes : List UInt8} (h : a.Has offset bytes) {k : Nat}
    (hk : k < bytes.length) : a.buffer[offset + k]? = bytes[k]? := by
  obtain ⟨front, back, hb, rfl⟩ := h
  rw [← Array.getElem?_toList, hb, List.append_assoc, List.getElem?_append_right (by omega),
    Nat.add_sub_cancel_left, List.getElem?_append_left hk]

theorem Has.size_le {bytes : List UInt8} (h : a.Has offset bytes) :
    offset + bytes.length ≤ a.buffer.size := by
  obtain ⟨front, back, hb, rfl⟩ := h
  rw [← Array.length_toList, hb]
  simp only [List.length_append]
  omega

theorem wordAt_of_has {w : UInt32} (h : a.Has offset (wordBytes w)) :
    a.wordAt offset = .ok w := by
  have hsize : offset + 4 ≤ a.buffer.size := h.size_le
  have hbyte : ∀ k (hk : k < 4) (hi : offset + k < a.buffer.size),
      a.buffer[offset + k] = (wordBytes w)[k] := by
    intro k hk hi
    have hget := h.getElem? hk
    rw [Array.getElem?_eq_getElem hi, List.getElem?_eq_getElem hk, Option.some.injEq] at hget
    exact hget
  rw [wordAt, dif_pos hsize]
  have h0 := hbyte 0 (by decide) (by omega)
  have h1 := hbyte 1 (by decide) (by omega)
  have h2 := hbyte 2 (by decide) (by omega)
  have h3 := hbyte 3 (by decide) (by omega)
  simp only [Nat.add_zero] at h0
  rw [h0, h1, h2, h3]
  exact congrArg Except.ok (word_wordBytes w)

theorem textAt_of_has {s : String} (h : a.Has offset (textBytes s)) :
    a.textAt offset s.utf8ByteSize = .ok s := by
  have hsize := h.size_le
  rw [length_textBytes] at hsize
  obtain ⟨front, back, hb, rfl⟩ := h
  have hextract : (a.buffer.extract front.length (front.length + s.utf8ByteSize)).toList =
      textBytes s := by
    rw [Array.toList_extract, hb, ← length_textBytes]
    simp [List.extract_eq_take_drop]
  rw [textAt, if_pos hsize, hextract, text?_textBytes]

theorem Has.instruction {code : List Instruction}
    (h : a.Has offset (code.flatMap fun i => wordBytes i.word)) {ip : Nat} {i : Instruction}
    (hi : code[ip]? = some i) : a.Has (offset + ip * 4) (wordBytes i.word) := by
  induction code generalizing offset ip with
  | nil => simp at hi
  | cons j code ih =>
    rw [List.flatMap_cons] at h
    cases ip with
    | zero =>
      obtain rfl : j = i := by simpa using hi
      simpa using h.append.1
    | succ ip =>
      have hip : code[ip]? = some i := by simpa using hi
      have htail := ih h.append.2 hip
      rw [length_wordBytes] at htail
      rwa [Nat.succ_mul, Nat.add_comm (ip * 4), ← Nat.add_assoc]

theorem Has.textRecord {s : String} {rest : List UInt8}
    (h : a.Has offset (Record.textRecord s ++ rest)) (hs : s.utf8ByteSize < 0x100000000) :
    a.wordAt offset = .ok (UInt32.ofNat s.utf8ByteSize) ∧
      (UInt32.ofNat s.utf8ByteSize).toNat = s.utf8ByteSize ∧
      a.textAt (offset + 4) s.utf8ByteSize = .ok s ∧
      a.Has (offset + 4 + s.utf8ByteSize) rest := by
  rw [Record.textRecord, lengthBytes, List.append_assoc] at h
  obtain ⟨hlength, h⟩ := h.append
  obtain ⟨htext, hrest⟩ := h.append
  rw [length_wordBytes] at htext hrest
  rw [length_textBytes] at hrest
  exact ⟨wordAt_of_has hlength, toNat_ofNat_of_lt hs, textAt_of_has htext, hrest⟩

structure Shows (a : Arena) (f : Func) (r : FuncRecord) : Prop where
  name : r.name = f.name
  nparams : r.nparams = f.nparams
  nlocals : r.nlocals = f.nlocals
  codeLength : r.codeLength = f.code.length
  code : ∀ {ip i}, f.code[ip]? = some i → a.instruction r ip = .ok i

/-- What is read of a function whose record starts at `offset`. -/
def recordOf (f : Func) (index offset : Nat) : FuncRecord :=
  { index, name := f.name, nparams := f.nparams, nlocals := f.nlocals,
    codeStart := offset + 12 + f.name.utf8ByteSize, codeLength := f.code.length }

theorem functionRecord_of_has {index : Nat} {f : Func}
    (hi : a.functions[index]? = some ⟨offset, f.code.length⟩)
    (h : a.Has offset (Record.function f).bytes) (hf : f.name.utf8ByteSize < 0x100000000) :
    a.functionRecord index = .ok (recordOf f index offset) ∧
      a.Shows f (recordOf f index offset) := by
  rw [Record.bytes, List.append_assoc, List.append_assoc] at h
  obtain ⟨hlength, hsmall, htext, h⟩ := h.textRecord hf
  obtain ⟨hparams, h⟩ := h.append
  obtain ⟨hlocals, hcode⟩ := h.append
  simp only [length_wordBytes] at hlocals hcode
  have hend := hcode.size_le
  rw [Reading.length_code] at hend
  have hparams := wordAt_of_has hparams
  have hlocals := wordAt_of_has hlocals
  rw [show offset + 4 + f.name.utf8ByteSize + 4 = offset + 8 + f.name.utf8ByteSize by omega]
    at hlocals
  have hstart : offset + 4 + f.name.utf8ByteSize + 4 + 4 = offset + 12 + f.name.utf8ByteSize := by
    omega
  rw [hstart] at hcode hend
  refine ⟨?_, rfl, rfl, rfl, rfl, ?_⟩
  · have hfits : ¬ a.buffer.size < offset + 12 + f.name.utf8ByteSize + f.code.length * 4 := by
      omega
    simp only [functionRecord, hi, hlength, hsmall, htext, hparams, hlocals, bind, Except.bind,
      if_neg hfits]
    rfl
  · intro ip i hip
    obtain ⟨hlt, -⟩ := List.getElem?_eq_some_iff.1 hip
    rw [instruction, recordOf, if_pos hlt, wordAt_of_has (hcode.instruction hip)]
    rfl

theorem string_of_has {index : Nat} {s : String} (hi : a.strings[index]? = some offset)
    (h : a.Has offset (Record.string s).bytes) (hs : s.utf8ByteSize < 0x100000000) :
    a.string index = .ok s := by
  rw [Record.bytes, ← List.append_nil (Record.textRecord s)] at h
  obtain ⟨hlength, hsmall, htext, -⟩ := h.textRecord hs
  simp only [string, hi, hlength, hsmall, htext, bind, Except.bind]

structure Packed (a : Arena) (m : Module) : Prop where
  functions : List.Forall₂
    (fun p f => p.codeLength = f.code.length ∧ a.Has p.offset (Record.function f).bytes)
    a.functions.toList m.functions
  strings : List.Forall₂ (fun offset s => a.Has offset (Record.string s).bytes)
    a.strings.toList m.strings

/-- What is there stays where it is. -/
structure Extends (a b : Arena) : Prop where
  buffer : a.buffer.toList <+: b.buffer.toList
  functions : a.functions.toList <+: b.functions.toList
  strings : a.strings.toList <+: b.strings.toList

section Extends

variable {b c : Arena}

theorem Extends.refl (a : Arena) : a.Extends a :=
  ⟨List.prefix_refl _, List.prefix_refl _, List.prefix_refl _⟩

theorem Extends.trans (h : a.Extends b) (h' : b.Extends c) : a.Extends c :=
  ⟨h.buffer.trans h'.buffer, h.functions.trans h'.functions, h.strings.trans h'.strings⟩

theorem extends_push (a : Arena) (r : Record) : a.Extends (a.push r).2 := by
  cases r <;> constructor <;> simp [push]

theorem Extends.has (h : a.Extends b) {offset : Nat} {bytes : List UInt8}
    (hhas : a.Has offset bytes) : b.Has offset bytes := by
  obtain ⟨front, back, hall, hoffset⟩ := hhas
  obtain ⟨added, hadded⟩ := h.buffer
  exact ⟨front, back ++ added, by rw [← hadded, hall, List.append_assoc], hoffset⟩

end Extends

theorem has_push (a : Arena) (r : Record) : (a.push r).2.Has a.buffer.size r.bytes := by
  refine ⟨a.buffer.toList, [], ?_, Array.length_toList⟩
  cases r <;> simp [Arena.push]

theorem Packed.push {records : List Record} (h : Packed a (Module.ofRecords records))
    (r : Record) : Packed (a.push r).2 (Module.ofRecords (records ++ [r])) := by
  have hextends := extends_push a r
  have hfunctions := h.functions.imp fun p f hf => And.intro hf.1 (hextends.has hf.2)
  have hstrings := h.strings.imp fun _ _ hs => hextends.has hs
  have hnew := has_push a r
  cases r with
  | function f =>
    constructor
    · have hf := List.rel_append hfunctions
        (.cons (a := (⟨a.buffer.size, f.code.length⟩ : Placement)) ⟨rfl, hnew⟩ .nil)
      simpa [Module.ofRecords, Arena.push, Record.asFunction?] using hf
    · simpa [Module.ofRecords, Arena.push, List.filterMap_cons, Record.asString?] using hstrings
  | string s =>
    constructor
    · simpa [Module.ofRecords, Arena.push, List.filterMap_cons, Record.asFunction?] using hfunctions
    · have hs := List.rel_append hstrings (.cons hnew .nil)
      simpa [Module.ofRecords, Arena.push, Record.asString?] using hs

theorem Packed.foldl {done : List Record} (h : Packed a (.ofRecords done)) (rest : List Record) :
    Packed (rest.foldl (fun a r => (a.push r).2) a) (.ofRecords (done ++ rest)) := by
  induction rest generalizing a done with
  | nil => rwa [List.append_nil]
  | cons r rest ih =>
    have hrest := ih (h.push r)
    rwa [List.append_assoc] at hrest

theorem packed_ofRecords (records : List Record) :
    Packed (.ofRecords records) (.ofRecords records) := by
  have hempty : Packed {} (.ofRecords []) := ⟨.nil, .nil⟩
  exact hempty.foldl records

theorem packed_ofModule (m : Module) : Packed (.ofModule m) m := by
  have h := packed_ofRecords m.records
  rwa [ofRecords_records] at h

theorem packed_of_decode {m : Module} {bytes : List UInt8} (h : decode bytes = .ok (m, a)) :
    Packed a m := by
  unfold decode decodeWithEvents at h
  split at h
  · cases h
  · cases h
    exact packed_ofRecords _

section Reading

variable {m : Module}

theorem Packed.functionRecord (h : Packed a m) {i : Nat} {f : Func}
    (hi : m.functions[i]? = some f) (hf : f.name.utf8ByteSize < 0x100000000) :
    ∃ r, a.functionRecord i = .ok r ∧ r.index = i ∧ a.Shows f r := by
  have hrel := forall₂_getElem? h.functions i
  rw [hi, Array.getElem?_toList] at hrel
  cases hp : a.functions[i]? with
  | none =>
    rw [hp] at hrel
    cases hrel
  | some p =>
    rw [hp] at hrel
    cases hrel with
    | some hp' =>
      obtain ⟨offset, codeLength⟩ := p
      obtain ⟨rfl, hhas⟩ := hp'
      obtain ⟨hrecord, hshows⟩ := functionRecord_of_has hp hhas hf
      exact ⟨_, hrecord, rfl, hshows⟩

theorem Packed.string (h : Packed a m) {i : Nat} {s : String} (hi : m.strings[i]? = some s)
    (hs : s.utf8ByteSize < 0x100000000) : a.string i = .ok s := by
  have hrel := forall₂_getElem? h.strings i
  rw [hi, Array.getElem?_toList] at hrel
  cases hoffset : a.strings[i]? with
  | none =>
    rw [hoffset] at hrel
    cases hrel
  | some offset =>
    rw [hoffset] at hrel
    cases hrel with
    | some hhas => exact string_of_has hoffset hhas hs

end Reading

end Arena

end StackMachine
