import StackMachine.Proofs.Image.RoundTrip
import StackMachine.Proofs.Lists

/-! The files that the decoder takes. A file is any four bytes, the magic bytes and a list of
sections up to the end of the input. Whatever a reader accepts, it has taken the bytes of some item
of the format off the front of the input, so an accepted input is a file. -/

namespace StackMachine

def Record.kind : Record → Image.SectionKind
  | .function _ => .functions
  | .string _ => .strings

namespace Image

theorem SectionKind.code_of_ofCode? {code : UInt32} {kind : SectionKind}
    (h : SectionKind.ofCode? code = some kind) : kind.code = code := by
  unfold SectionKind.ofCode? at h
  split at h
  · cases h
    exact (‹code = 1›).symm
  · split at h
    · cases h
      exact (‹code = 2›).symm
    · cases h

namespace Section

/-- A file can hold the section: its records, and their number as a 32-bit word. -/
def Writable (s : Section) : Prop :=
  (∀ r ∈ s.records, r.Writable) ∧ s.records.length < 0x100000000

/-- What the section adds to a module. -/
def contents : Section → Module
  | .functions fs => ⟨fs, []⟩
  | .strings ss => ⟨[], ss⟩

theorem exists_of_records {kind : SectionKind} {rs : List Record}
    (h : ∀ r ∈ rs, r.kind = kind) : ∃ sec : Section, sec.kind = kind ∧ sec.records = rs := by
  cases kind with
  | functions =>
    refine ⟨.functions (rs.filterMap Record.asFunction?), rfl, ?_⟩
    induction rs with
    | nil => rfl
    | cons r rs ih =>
      have htail := ih fun q hq => h q (List.mem_cons_of_mem _ hq)
      cases r with
      | function f => exact congrArg (Record.function f :: ·) htail
      | string t => cases h _ List.mem_cons_self
  | strings =>
    refine ⟨.strings (rs.filterMap Record.asString?), rfl, ?_⟩
    induction rs with
    | nil => rfl
    | cons r rs ih =>
      have htail := ih fun q hq => h q (List.mem_cons_of_mem _ hq)
      cases r with
      | function f => cases h _ List.mem_cons_self
      | string t => exact congrArg (Record.string t :: ·) htail

end Section

/-- The input is a file with this front and these sections. -/
structure IsFile (front : List UInt8) (ss : List Section) (b : List UInt8) : Prop where
  length_front : front.length = 4
  sections : ∀ s ∈ ss, s.Writable
  bytes : b = front ++ (magic ++ ss.flatMap Section.bytes)

theorem wordBytes_word (a b c d : UInt8) : wordBytes (word a b c d) = [a, b, c, d] := by
  have ha := a.toNat_lt
  have hb := b.toNat_lt
  have hc := c.toNat_lt
  have hd := d.toNat_lt
  simp only [wordBytes, word, UInt32.toNat_ofNat', List.cons.injEq, ← UInt8.toNat_inj,
    UInt8.toNat_ofNat', and_true]
  omega

theorem exists_wordBytes {front : List UInt8} (h : front.length = 4) :
    ∃ w, front = wordBytes w := by
  match front, h with
  | [a, b, c, d], _ => exact ⟨word a b c d, (wordBytes_word a b c d).symm⟩

theorem textBytes_of_text? {bs : List UInt8} {t : String} (h : text? bs = some t) :
    textBytes t = bs := by
  unfold text? String.fromUTF8? at h
  split at h
  · cases h
    rfl
  · cases h

/-- A NUL at the end can be put back, so what is text without it is text with it. -/
theorem exists_textBytes_of_stripNul {bs : List UInt8} {t : String}
    (h : text? (stripNul bs) = some t) : ∃ raw, textBytes raw = bs := by
  have ht := textBytes_of_text? h
  unfold stripNul at ht
  split at ht
  case isTrue hlast =>
    obtain ⟨l, rfl⟩ := t.exists_eq_ofList
    refine ⟨String.ofList (l ++ ['\x00']), ?_⟩
    rw [textBytes_ofList] at ht ⊢
    rw [List.flatMap_append, ht, List.flatMap_singleton, utf8EncodeChar_nul]
    exact List.dropLast_append_getLast? _ hlast
  case isFalse => exact ⟨t, ht⟩

namespace Reading

variable {s s' : Input} {u : Unit}

theorem rest_word {field : Field} {w : UInt32} (h : word field s = .ok w s') :
    s.rest = wordBytes w ++ s'.rest := by
  unfold word at h
  split at h
  case h_1 a b c d rest hrest =>
    cases h
    rw [wordBytes_word, hrest]
    rfl
  case h_2 => cases h

theorem rest_bytes {field : Field} {n : Nat} {bs : List UInt8} (h : bytes field n s = .ok bs s') :
    bs.length = n ∧ s.rest = bs ++ s'.rest := by
  unfold bytes at h
  dsimp only at h
  split at h
  · cases h
  · cases h
    refine ⟨?_, (List.take_append_drop n s.rest).symm⟩
    have hle := List.length_take_le n s.rest
    omega

theorem rest_text {field : Field} {t : String} (h : text field s = .ok t s') :
    ∃ raw : String, raw.utf8ByteSize < 0x100000000 ∧
      s.rest = Record.textRecord raw ++ s'.rest := by
  obtain ⟨length, s₁, hlength, h⟩ := ok_of_bind h
  obtain ⟨_, _, ⟨⟩, h⟩ := ok_of_bind h
  obtain ⟨bs, s₂, hbytes, h⟩ := ok_of_bind h
  obtain ⟨hlen, hrest⟩ := rest_bytes hbytes
  cases htext : text? (stripNul bs) with
  | some t' =>
    rw [htext] at h
    cases h
    obtain ⟨raw, rfl⟩ := exists_textBytes_of_stripNul htext
    rw [length_textBytes] at hlen
    refine ⟨raw, hlen ▸ length.toNat_lt, ?_⟩
    rw [rest_word hlength, hrest, Record.textRecord, lengthBytes, hlen, UInt32.ofNat_toNat,
      List.append_assoc]
  | none =>
    rw [htext] at h
    cases h

theorem rest_splitCode {bs rest : List UInt8} {code : List Instruction}
    (h : splitCode bs = .ok (code, rest)) :
    Ended code ∧ bs = (code.flatMap fun i => wordBytes i.word) ++ rest := by
  induction bs using splitCode.induct generalizing code with
  | case1 a b c d bs i =>
    rename_i hi
    rw [splitCode, if_pos hi] at h
    cases h
    refine ⟨⟨[], by rw [List.nil_append, ← eq_of_beq hi], by simp⟩, ?_⟩
    rw [List.flatMap_singleton, wordBytes_word]
    rfl
  | case2 a b c d bs i hi =>
    rename_i ih
    rw [splitCode, if_neg hi] at h
    cases hbs : splitCode bs with
    | error left =>
      rw [hbs] at h
      cases h
    | ok found =>
      rw [hbs] at h
      cases h
      obtain ⟨⟨body, hbody, hnone⟩, hbytes⟩ := ih hbs
      refine ⟨⟨i :: body, by rw [hbody]; rfl, fun j hj => ?_⟩, ?_⟩
      · rcases List.mem_cons.1 hj with rfl | hj
        · simpa using hi
        · exact hnone j hj
      · rw [List.flatMap_cons, wordBytes_word, List.append_assoc, ← hbytes]
        rfl
  | case3 bs hbs =>
    unfold splitCode at h
    split at h
    · exact absurd rfl (hbs _ _ _ _ _)
    · cases h

theorem rest_code {code : List Instruction} (h : Reading.code s = .ok code s') :
    Ended code ∧ s.rest = (code.flatMap fun i => wordBytes i.word) ++ s'.rest := by
  unfold Reading.code at h
  split at h
  case h_1 hsplit =>
    cases h
    exact rest_splitCode hsplit
  case h_2 => cases h

theorem rest_record {kind : SectionKind} (h : record kind s = .ok u s') :
    ∃ r : Record, r.kind = kind ∧ r.Writable ∧ s.rest = r.bytes ++ s'.rest := by
  cases kind with
  | functions =>
    obtain ⟨name, s₁, hname, h⟩ := ok_of_bind h
    obtain ⟨nparams, s₂, hparams, h⟩ := ok_of_bind h
    obtain ⟨nlocals, s₃, hlocals, h⟩ := ok_of_bind h
    obtain ⟨code, s₄, hcode, h⟩ := ok_of_bind h
    cases h
    obtain ⟨raw, hsize, hname⟩ := rest_text hname
    obtain ⟨hended, hcode⟩ := rest_code hcode
    refine ⟨.function ⟨raw, nparams, nlocals, code⟩, rfl, ⟨hended, hsize⟩, ?_⟩
    simp only [Record.bytes, List.append_assoc]
    rw [hname, rest_word hparams, rest_word hlocals, hcode]
  | strings =>
    obtain ⟨t, s₁, ht, h⟩ := ok_of_bind h
    cases h
    obtain ⟨raw, hsize, hrest⟩ := rest_text ht
    exact ⟨.string raw, rfl, hsize, hrest⟩

theorem rest_records {kind : SectionKind} {n : Nat} (h : Reading.records kind n s = .ok u s') :
    ∃ rs : List Record, rs.length = n ∧ (∀ r ∈ rs, r.kind = kind ∧ r.Writable) ∧
      s.rest = rs.flatMap Record.bytes ++ s'.rest := by
  induction n generalizing s with
  | zero =>
    cases h
    exact ⟨[], rfl, by simp, rfl⟩
  | succ n ih =>
    obtain ⟨_, s₁, hrecord, h⟩ := ok_of_bind h
    obtain ⟨r, hkind, hr, hrest⟩ := rest_record hrecord
    obtain ⟨rs, rfl, hrs, hrests⟩ := ih h
    refine ⟨r :: rs, rfl, List.forall_mem_cons.2 ⟨⟨hkind, hr⟩, hrs⟩, ?_⟩
    rw [hrest, hrests, List.flatMap_cons, List.append_assoc]

theorem rest_readSection (h : readSection s = .ok u s') :
    ∃ sec : Section, sec.Writable ∧ s.rest = sec.bytes ++ s'.rest := by
  obtain ⟨code, s₁, hcode, h⟩ := ok_of_bind h
  cases hkind : SectionKind.ofCode? code with
  | some kind =>
    rw [hkind] at h
    obtain ⟨count, s₂, hcount, h⟩ := ok_of_bind h
    obtain ⟨rs, hlen, hrs, hrest⟩ := rest_records h
    obtain ⟨sec, rfl, rfl⟩ := Section.exists_of_records fun r hr => (hrs r hr).1
    refine ⟨sec, ⟨fun r hr => (hrs r hr).2, hlen ▸ count.toNat_lt⟩, ?_⟩
    rw [rest_word hcode, rest_word hcount, hrest, Section.bytes, lengthBytes, hlen,
      UInt32.ofNat_toNat, SectionKind.code_of_ofCode? hkind, List.append_assoc, List.append_assoc]
  | none =>
    rw [hkind] at h
    cases h

/-- With a bound that is no less than the input, the sections are those up to its end. -/
theorem rest_sections {n : Nat} (h : sections n s = .ok u s') (hn : s.rest.length ≤ n) :
    ∃ ss : List Section, (∀ sec ∈ ss, sec.Writable) ∧ s.rest = ss.flatMap Section.bytes := by
  induction n generalizing s with
  | zero => exact ⟨[], by simp, List.length_eq_zero_iff.1 (Nat.le_zero.1 hn)⟩
  | succ n ih =>
    rw [sections_succ] at h
    split at h
    case isTrue hempty => exact ⟨[], by simp, List.isEmpty_iff.1 hempty⟩
    case isFalse =>
      obtain ⟨_, s₁, hsection, h⟩ := ok_of_bind h
      obtain ⟨sec, hsec, hrest⟩ := rest_readSection hsection
      have hpos := sec.length_bytes_pos
      have hlen := congrArg List.length hrest
      rw [List.length_append] at hlen
      obtain ⟨ss, hss, hrests⟩ := ih h (by omega)
      refine ⟨sec :: ss, List.forall_mem_cons.2 ⟨hsec, hss⟩, ?_⟩
      rw [hrest, hrests, List.flatMap_cons]

theorem rest_header (h : header s = .ok u s') : s.rest = magic ++ s'.rest := by
  unfold header at h
  split at h
  case isTrue hmagic =>
    cases h
    exact (hmagic ▸ List.take_append_drop magic.length s.rest).symm
  case isFalse => cases h

theorem rest_file {size : UInt32} (h : file s = .ok size s') :
    ∃ ss, IsFile (wordBytes size) ss s.rest := by
  obtain ⟨_, _, ⟨⟩, h⟩ := ok_of_bind h
  split at h
  · cases h
  obtain ⟨declared, s₂, hsize, h⟩ := ok_of_bind h
  obtain ⟨_, s₃, hheader, h⟩ := ok_of_bind h
  obtain ⟨_, _, ⟨⟩, h⟩ := ok_of_bind h
  obtain ⟨_, s₄, hsections, h⟩ := ok_of_bind h
  cases h
  obtain ⟨ss, hss, hrest⟩ := rest_sections hsections (Nat.le_refl _)
  refine ⟨ss, rfl, hss, ?_⟩
  rw [rest_word hsize, rest_header hheader, hrest]

end Reading

theorem exists_isFile_of_decode {b : List UInt8} {m : Module} {a : Arena}
    (h : decode b = .ok (m, a)) : ∃ front ss, IsFile front ss b := by
  unfold decode decodeWithEvents at h
  split at h
  · cases h
  next hfile =>
    obtain ⟨ss, hss⟩ := Reading.rest_file hfile
    exact ⟨_, ss, hss⟩

end Image

end StackMachine
