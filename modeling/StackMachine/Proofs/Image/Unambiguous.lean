import StackMachine.Proofs.Image.Joining
import StackMachine.Proofs.Image.Recognition

/-! A file is a file in one way only, since the bytes of each item of the format tell where the item
ends. Together with what the readers accept, this says exactly which inputs can be decoded, and to
what. -/

namespace StackMachine.Image

/-- None of these items starts with the bytes of another one. -/
def PrefixFree {α : Type} (P : α → Prop) (f : α → List UInt8) : Prop :=
  ∀ ⦃x y⦄, P x → P y → ∀ ⦃s t⦄, f x ++ s = f y ++ t → x = y ∧ s = t

namespace PrefixFree

variable {α : Type} {P : α → Prop} {f : α → List UInt8}

theorem of_length {n : Nat} (hn : ∀ x, (f x).length = n) (hf : Function.Injective f) :
    PrefixFree P f := by
  intro x y _ _ s t h
  obtain ⟨hfront, hrest⟩ := List.append_inj h ((hn x).trans (hn y).symm)
  exact ⟨hf hfront, hrest⟩

theorem flatMap (hf : PrefixFree P f) {xs ys : List α} (hlen : xs.length = ys.length)
    (hx : ∀ x ∈ xs, P x) (hy : ∀ y ∈ ys, P y) {s t : List UInt8}
    (h : xs.flatMap f ++ s = ys.flatMap f ++ t) : xs = ys ∧ s = t := by
  induction xs generalizing ys with
  | nil =>
    obtain rfl := List.length_eq_zero_iff.1 hlen.symm
    exact ⟨rfl, h⟩
  | cons x xs ih =>
    obtain ⟨y, ys, rfl⟩ := List.exists_cons_of_length_eq_add_one hlen.symm
    rw [List.flatMap_cons, List.flatMap_cons, List.append_assoc, List.append_assoc] at h
    obtain ⟨hhead, htail⟩ := List.forall_mem_cons.1 hx
    obtain ⟨hhead', htail'⟩ := List.forall_mem_cons.1 hy
    obtain ⟨rfl, hrest⟩ := hf hhead hhead' h
    obtain ⟨rfl, rfl⟩ := ih (Nat.succ.inj hlen) htail htail' hrest
    exact ⟨rfl, rfl⟩

/-- Up to the end of the input the number of items need not be known. -/
theorem flatMap_inj (hf : PrefixFree P f) (hpos : ∀ x, 0 < (f x).length) {xs ys : List α}
    (hx : ∀ x ∈ xs, P x) (hy : ∀ y ∈ ys, P y) (h : xs.flatMap f = ys.flatMap f) : xs = ys := by
  have hne : ∀ (z : α) (zs : List α), [] ≠ (z :: zs).flatMap f := by
    intro z zs hnil
    have hz := hpos z
    have hlen := congrArg List.length hnil
    rw [List.flatMap_cons, List.length_append, List.length_nil] at hlen
    omega
  induction xs generalizing ys with
  | nil =>
    cases ys with
    | nil => rfl
    | cons y ys => exact absurd h (hne y ys)
  | cons x xs ih =>
    cases ys with
    | nil => exact absurd h.symm (hne x xs)
    | cons y ys =>
      obtain ⟨hhead, htail⟩ := List.forall_mem_cons.1 hx
      obtain ⟨hhead', htail'⟩ := List.forall_mem_cons.1 hy
      obtain ⟨rfl, hrest⟩ := hf hhead hhead' h
      rw [ih htail htail' hrest]

end PrefixFree

theorem prefixFree_wordBytes : PrefixFree (fun _ => True) wordBytes :=
  .of_length length_wordBytes fun v w h => by
    simp only [wordBytes, List.cons.injEq, and_true] at h
    rw [← word_wordBytes v, h.1, h.2.1, h.2.2.1, h.2.2.2, word_wordBytes]

/-- A length that fits into a word is in front of what it is the length of. -/
theorem lengthBytes_inj {m n : Nat} (hm : m < 0x100000000) (hn : n < 0x100000000)
    {s t : List UInt8} (h : lengthBytes m ++ s = lengthBytes n ++ t) : m = n ∧ s = t := by
  obtain ⟨hword, hrest⟩ := prefixFree_wordBytes trivial trivial h
  refine ⟨?_, hrest⟩
  rw [← toNat_ofNat_of_lt hm, hword, toNat_ofNat_of_lt hn]

theorem prefixFree_textRecord :
    PrefixFree (fun s : String => s.utf8ByteSize < 0x100000000) Record.textRecord := by
  intro s s' hs hs' r r' h
  rw [Record.textRecord, Record.textRecord, List.append_assoc, List.append_assoc] at h
  obtain ⟨hsize, h⟩ := lengthBytes_inj hs hs' h
  obtain ⟨htext, hrest⟩ := List.append_inj h (by rw [length_textBytes, length_textBytes, hsize])
  refine ⟨Option.some.inj ?_, hrest⟩
  rw [← text?_textBytes, htext, text?_textBytes]

theorem prefixFree_code :
    PrefixFree Ended fun code => code.flatMap fun i : Instruction => wordBytes i.word := by
  intro code code' hc hc' s t h
  have hsplit := (Reading.splitCode_append hc s).symm.trans
    (h ▸ Reading.splitCode_append hc' t)
  simpa using hsplit

theorem prefixFree_function : PrefixFree (fun f => (Record.function f).Writable)
    fun f => (Record.function f).bytes := by
  rintro ⟨name, nparams, nlocals, code⟩ ⟨name', nparams', nlocals', code'⟩ hf hf' s t h
  simp only [Record.bytes, List.append_assoc] at h
  obtain ⟨rfl, hparams⟩ := prefixFree_textRecord hf.2 hf'.2 h
  obtain ⟨rfl, hlocals⟩ := prefixFree_wordBytes trivial trivial hparams
  obtain ⟨rfl, hcode⟩ := prefixFree_wordBytes trivial trivial hlocals
  obtain ⟨rfl, rfl⟩ := prefixFree_code hf.1 hf'.1 hcode
  exact ⟨rfl, rfl⟩

theorem prefixFree_section : PrefixFree Section.Writable Section.bytes := by
  intro x y hx hy s t h
  simp only [Section.bytes, List.append_assoc] at h
  obtain ⟨hkind, h⟩ := prefixFree_wordBytes trivial trivial h
  obtain ⟨hcount, h⟩ := lengthBytes_inj hx.2 hy.2 h
  rcases x with fs | ss <;> rcases y with fs' | ss'
  case functions.functions =>
    simp only [Section.records, List.flatMap_map, List.length_map] at h hcount
    obtain ⟨rfl, rfl⟩ := prefixFree_function.flatMap hcount
      (fun f hf => hx.1 _ (List.mem_map_of_mem hf)) (fun f hf => hy.1 _ (List.mem_map_of_mem hf)) h
    exact ⟨rfl, rfl⟩
  case strings.strings =>
    simp only [Section.records, List.flatMap_map, List.length_map] at h hcount
    obtain ⟨rfl, rfl⟩ := prefixFree_textRecord.flatMap hcount
      (fun f hf => hx.1 _ (List.mem_map_of_mem hf)) (fun f hf => hy.1 _ (List.mem_map_of_mem hf)) h
    exact ⟨rfl, rfl⟩
  all_goals cases hkind

theorem IsFile.unique {front front' : List UInt8} {ss ss' : List Section} {b : List UInt8}
    (h : IsFile front ss b) (h' : IsFile front' ss' b) : front = front' ∧ ss = ss' := by
  obtain ⟨hfront, hb⟩ := List.append_inj (h.bytes.symm.trans h'.bytes)
    (h.length_front.trans h'.length_front.symm)
  exact ⟨hfront, prefixFree_section.flatMap_inj Section.length_bytes_pos h.sections h'.sections
    (List.append_cancel_left hb)⟩

theorem ofRecords_sections (ss : List Section) :
    Module.ofRecords ((ss.flatMap Section.records).map Record.dropNul) =
      (Module.join (ss.map Section.contents)).dropNuls := by
  have hrecords : ∀ s : Section,
      s.records.map Record.dropNul = s.contents.dropNuls.records := by
    intro s
    rw [← map_dropNul_records]
    cases s <;> simp [Section.records, Section.contents, Module.records]
  have hjoin : ∀ ms : List Module,
      Module.join (ms.map Module.dropNuls) = (Module.join ms).dropNuls := by
    intro ms
    simp only [Module.join, Module.dropNuls, List.flatMap_map, List.map_flatMap]
  rw [List.map_flatMap, ← hjoin, ← ofRecords_flatMap, List.map_map, List.flatMap_map]
  simp only [hrecords, Function.comp_apply]

theorem IsFile.decode {front : List UInt8} {ss : List Section} {b : List UInt8}
    (h : IsFile front ss b) :
    decode b = .ok ((Module.join (ss.map Section.contents)).dropNuls,
      .ofRecords ((ss.flatMap Section.records).map Record.dropNul)) := by
  obtain ⟨size, rfl⟩ := exists_wordBytes h.length_front
  rw [h.bytes, decode_sections size h.sections, ofRecords_sections]

/-- The size at the front is compared with the size of the input for a warning only. -/
theorem decode_front {front front' : List UInt8} (h : front.length = 4) (h' : front'.length = 4)
    (rest : List UInt8) : decode (front ++ rest) = decode (front' ++ rest) := by
  obtain ⟨size, rfl⟩ := exists_wordBytes h
  obtain ⟨size', rfl⟩ := exists_wordBytes h'
  -- what is done behind the front
  let body : Reading Unit := Reading.header >>= fun _ => get >>= fun s =>
    Reading.sections s.rest.length
  have hfile : ∀ w, Reading.file ⟨wordBytes w ++ rest, 0, #[]⟩ =
      (body >>= fun _ => pure w) ⟨rest, 0 + 4, #[]⟩ := by
    intro w
    have hne : (wordBytes w ++ rest).isEmpty = false := rfl
    unfold Reading.file
    rw [bind_get]
    simp only [hne, Bool.false_eq_true, if_false]
    rw [bind_of_ok (Reading.word_append _ _)]
    simp only [body, bind_assoc]
  simp only [decode, decodeWithEvents, hfile, bind, EStateM.bind]
  cases body ⟨rest, 0 + 4, #[]⟩ <;> rfl

/-- The decoder takes the files and nothing else, a file in the one way in which it is one; it gives
the records of all sections in order, each text less one NUL, and never looks at the front. -/
theorem decode_exact (b : List UInt8) :
    (∀ m a, decode b = .ok (m, a) ↔ ∃ front ss, IsFile front ss b ∧
      m = (Module.join (ss.map Section.contents)).dropNuls ∧
      a = .ofRecords ((ss.flatMap Section.records).map Record.dropNul)) ∧
    (∀ front ss front' ss', IsFile front ss b → IsFile front' ss' b →
      front = front' ∧ ss = ss') ∧
    (∀ front, front.length = 4 → 4 ≤ b.length → decode (front ++ b.drop 4) = decode b) := by
  refine ⟨fun m a => ⟨fun h => ?_, ?_⟩, fun _ _ _ _ h h' => h.unique h', fun front hfront hb => ?_⟩
  · obtain ⟨front, ss, hfile⟩ := exists_isFile_of_decode h
    have hdecode := hfile.decode.symm.trans h
    rw [Except.ok.injEq, Prod.mk.injEq] at hdecode
    exact ⟨front, ss, hfile, hdecode.1.symm, hdecode.2.symm⟩
  · rintro ⟨front, ss, hfile, rfl, rfl⟩
    exact hfile.decode
  · have hlen : (b.take 4).length = 4 := by rw [List.length_take]; omega
    rw [decode_front hfront hlen, List.take_append_drop]

def mixed : List Section :=
  [.strings ["a\x00\x00"], .functions [⟨"f\x00", 1, 2, [⟨7⟩, .endSection]⟩], .strings []]

def mixedFile : List UInt8 := [9, 9, 9, 9] ++ (magic ++ mixed.flatMap Section.bytes)

theorem isFile_mixed : IsFile [9, 9, 9, 9] mixed mixedFile where
  length_front := rfl
  bytes := rfl
  sections := by
    have hcode : Ended [⟨7⟩, .endSection] := ⟨[⟨7⟩], rfl, by decide⟩
    simp only [mixed, List.mem_cons, List.not_mem_nil, or_false, forall_eq_or_imp, forall_eq,
      Section.Writable, Section.records, List.map_cons, List.map_nil, Record.Writable]
    exact ⟨by decide, ⟨⟨hcode, by decide⟩, by decide⟩, by simp, by decide⟩

theorem decode_exact_mixed :
    decode mixedFile = .ok (⟨[⟨"f", 1, 2, [⟨7⟩, .endSection]⟩], ["a\x00"]⟩,
      .ofRecords [.string "a\x00", .function ⟨"f", 1, 2, [⟨7⟩, .endSection]⟩]) ∧
    (∀ front ss, IsFile front ss mixedFile → front = [9, 9, 9, 9] ∧ ss = mixed) ∧
    decode ([0, 0, 0, 0] ++ mixedFile.drop 4) = decode mixedFile := by
  obtain ⟨haccepts, hunique, hfront⟩ := decode_exact mixedFile
  refine ⟨(haccepts _ _).2 ⟨_, _, isFile_mixed, by decide, rfl⟩,
    fun front ss h => hunique front ss _ _ h isFile_mixed, hfront _ rfl (by decide)⟩

end StackMachine.Image
