import StackMachine.Proofs.Image.Unambiguous

/-! Files that are cut off, and files with more bytes behind them. A reader looks at no more of the
input than it takes, so an outcome that it has come to stands whatever follows; only for want of
bytes does it stop at the end of the input. -/

namespace StackMachine.Image

namespace Input

def extend (s : Input) (x : List UInt8) : Input := { s with rest := s.rest ++ x }

/-- The position of the end of the input. -/
def stop (s : Input) : Nat := s.offset + s.rest.length

end Input

/-- The input has come to its end, at a position that it holds. -/
def DecodeError.CutOff (e : DecodeError) (s : Input) : Prop :=
  ∃ field offset, e = .truncated field offset ∧ offset ≤ s.stop

/-- What the reader does on an input it does on every longer one, unless it comes to the end. -/
structure Stable {α : Type} (r : Reading α) : Prop where
  ok : ∀ {s s' v}, r s = .ok v s' →
    s'.stop = s.stop ∧ ∀ x, r (s.extend x) = .ok v (s'.extend x)
  error : ∀ {s s' e}, r s = .error e s' →
    DecodeError.CutOff e s ∨ ∀ x, r (s.extend x) = .error e (s'.extend x)

namespace Stable

variable {α β : Type}

theorem pure (a : α) : Stable (Pure.pure a : Reading α) where
  ok h := by cases h; exact ⟨rfl, fun _ => rfl⟩
  error h := by cases h

theorem throw (e : DecodeError) : Stable (MonadExcept.throw e : Reading α) where
  ok h := by cases h
  error h := by cases h; exact .inr fun _ => rfl

theorem keep (r : Record) : Stable (Reading.keep r) where
  ok h := by cases h; exact ⟨rfl, fun _ => rfl⟩
  error h := by cases h

theorem bind {r : Reading α} {f : α → Reading β} (hr : Stable r) (hf : ∀ a, Stable (f a)) :
    Stable (r >>= f) where
  ok h := by
    obtain ⟨a, t, ha, h⟩ := ok_of_bind h
    obtain ⟨hstop, hext⟩ := hr.ok ha
    obtain ⟨hstop', hext'⟩ := (hf a).ok h
    exact ⟨hstop'.trans hstop, fun x => (bind_of_ok (hext x)).trans (hext' x)⟩
  error h := by
    rcases error_of_bind h with h | ⟨a, t, ha, h⟩
    · exact (hr.error h).imp_right fun hext x => bind_of_error (hext x)
    · obtain ⟨hstop, hext⟩ := hr.ok ha
      refine ((hf a).error h).imp ?_ fun hext' x => (bind_of_ok (hext x)).trans (hext' x)
      rintro ⟨field, offset, rfl, hle⟩
      exact ⟨field, offset, rfl, hstop ▸ hle⟩

/-- What is done may depend on the offset, but not on what is still to be read. -/
theorem get {f : Input → Reading α} (hsame : ∀ s x, f (s.extend x) = f s)
    (hf : ∀ s, Stable (f s)) : Stable (get >>= f) where
  ok {s s' a} h := by
    obtain ⟨hstop, hext⟩ := (hf s).ok h
    exact ⟨hstop, fun x => (congrFun (hsame s x) _).trans (hext x)⟩
  error {s s' e} h :=
    ((hf s).error h).imp_right fun hext x => (congrFun (hsame s x) _).trans (hext x)

theorem word (field : Field) : Stable (Reading.word field) where
  ok {s s' w} h := by
    obtain ⟨rest, offset, records⟩ := s
    unfold Reading.word at h
    split at h
    case h_1 a b c d rest' hrest =>
      cases h
      obtain rfl := hrest
      exact ⟨by simp only [Input.stop, List.length_cons]; omega, fun x => rfl⟩
    case h_2 => cases h
  error {s s' e} h := by
    unfold Reading.word at h
    split at h
    case h_1 => cases h
    case h_2 =>
      cases h
      exact .inl ⟨field, s.offset, rfl, Nat.le_add_right _ _⟩

theorem bytes (field : Field) (n : Nat) : Stable (Reading.bytes field n) where
  ok {s s' front} h := by
    obtain ⟨hlen, hrest⟩ := Reading.rest_bytes h
    obtain ⟨rest, offset, records⟩ := s
    obtain ⟨rest', _, _⟩ := s'
    obtain rfl := hrest
    subst hlen
    rw [Reading.bytes_append] at h
    cases h
    refine ⟨?_, fun x => ?_⟩
    · simp only [Input.stop, List.length_append]
      omega
    · simp only [Input.extend, List.append_assoc]
      exact Reading.bytes_append field front
  error {s s' e} h := by
    unfold Reading.bytes at h
    dsimp only at h
    split at h
    · cases h
      exact .inl ⟨field, s.offset, rfl, Nat.le_add_right _ _⟩
    · cases h

theorem text (field : Field) : Stable (Reading.text field) := by
  refine .bind (.word field) fun length => .get (fun _ _ => rfl) fun s => ?_
  refine .bind (.bytes field _) fun bs => ?_
  cases text? (stripNul bs) with
  | some t => exact .pure t
  | none => exact .throw _

theorem code : Stable Reading.code where
  ok {s s' code} h := by
    obtain ⟨hended, hrest⟩ := Reading.rest_code h
    obtain ⟨rest, offset, records⟩ := s
    obtain ⟨rest', _, _⟩ := s'
    obtain rfl := hrest
    rw [Reading.code_append hended] at h
    cases h
    refine ⟨?_, fun x => ?_⟩
    · simp only [Input.stop, List.length_append, Reading.length_code]
      omega
    · simp only [Input.extend, List.append_assoc]
      exact Reading.code_append hended
  error {s s' e} h := by
    unfold Reading.code at h
    split at h
    case h_1 => cases h
    case h_2 =>
      cases h
      exact .inl ⟨.instruction, _, rfl, Nat.add_le_add_left (Nat.sub_le _ _) _⟩

theorem record (kind : SectionKind) : Stable (Reading.record kind) := by
  cases kind with
  | functions =>
    exact .bind (.text _) fun _ => .bind (.word _) fun _ => .bind (.word _) fun _ =>
      .bind .code fun _ => .keep _
  | strings => exact .bind (.text _) fun _ => .keep _

theorem records (kind : SectionKind) (n : Nat) : Stable (Reading.records kind n) := by
  induction n with
  | zero => exact .pure ()
  | succ n ih => exact .bind (.record kind) fun _ => ih

theorem readSection : Stable Reading.readSection := by
  refine .bind (.word _) fun code => ?_
  cases SectionKind.ofCode? code with
  | some kind => exact .bind (.word _) fun count => .records kind count.toNat
  | none => exact .throw _

end Stable

namespace Reading

/-- The section that is wrong is as wrong in a longer input. The number of sections is bounded anew
by the length of the input. -/
theorem sections_error {n : Nat} {s s' : Input} {e : DecodeError}
    (h : sections n s = .error e s') (hn : s.rest.length ≤ n) :
    DecodeError.CutOff e s ∨ ∀ x n', (s.extend x).rest.length ≤ n' →
      sections n' (s.extend x) = .error e (s'.extend x) := by
  induction n generalizing s with
  | zero => cases h
  | succ n ih =>
    rw [sections_succ] at h
    split at h
    case isTrue => cases h
    case isFalse hne =>
      -- there is a section to read, in the longer input as well
      have hext : ∀ x n', (s.extend x).rest.length ≤ n' → ∃ m, n' = m + 1 ∧
          sections n' (s.extend x) = (readSection >>= fun _ => sections m) (s.extend x) := by
        intro x n' hn'
        rw [Input.extend, List.length_append] at hn'
        have hpos := List.length_pos_iff.2 (mt List.isEmpty_iff.2 hne)
        obtain ⟨m, rfl⟩ := Nat.exists_eq_add_of_le' (show 1 ≤ n' by omega)
        have hne' : (s.extend x).rest.isEmpty = false := Bool.eq_false_iff.2 fun hnil =>
          hne (List.isEmpty_iff.2 (List.append_eq_nil_iff.1 (List.isEmpty_iff.1 hnil)).1)
        exact ⟨m, rfl, by rw [sections_succ, hne', if_neg Bool.false_ne_true]⟩
      rcases error_of_bind h with h | ⟨_, t, hsection, h⟩
      · refine (Stable.readSection.error h).imp_right fun hread x n' hn' => ?_
        obtain ⟨m, rfl, hm⟩ := hext x n' hn'
        rw [hm, bind_of_error (hread x)]
      · obtain ⟨sec, -, hrest⟩ := rest_readSection hsection
        have hpos := sec.length_bytes_pos
        have hlen := congrArg List.length hrest
        rw [List.length_append] at hlen
        obtain ⟨hstop, hread⟩ := Stable.readSection.ok hsection
        refine (ih h (by omega)).imp (fun ⟨field, offset, he, hle⟩ =>
          ⟨field, offset, he, hstop ▸ hle⟩) fun hsections x n' hn' => ?_
        obtain ⟨m, rfl, hm⟩ := hext x n' hn'
        rw [hm, bind_of_ok (hread x)]
        refine hsections x m ?_
        simp only [Input.extend, List.length_append] at hn' ⊢
        omega

theorem file_front (size : UInt32) (rest : List UInt8) :
    file ⟨wordBytes size ++ rest, 0, #[]⟩ =
      (header >>= fun _ => get >>= fun s => sections s.rest.length >>= fun _ => pure size)
        ⟨rest, 4, #[]⟩ := by
  have hne : (wordBytes size ++ rest).isEmpty = false := rfl
  unfold file
  rw [bind_get]
  simp only [hne, Bool.false_eq_true, if_false]
  rw [bind_of_ok (word_append _ _)]

end Reading

theorem decode_error_iff {b : List UInt8} {e : DecodeError} :
    decode b = .error e ↔ ∃ s, Reading.file ⟨b, 0, #[]⟩ = .error e s := by
  unfold decode decodeWithEvents
  cases hfile : Reading.file ⟨b, 0, #[]⟩ <;> simp

theorem decode_nil : decode [] = .error .emptyInput := rfl

theorem decode_of_length_lt_four {b : List UInt8} (hpos : 0 < b.length) (hlen : b.length < 4) :
    decode b = .error (.truncated .moduleSize 0) := by
  match b, hpos, hlen with
  | [_], _, _ => rfl
  | [_, _], _, _ => rfl
  | [_, _, _], _, _ => rfl

theorem decode_of_take_ne {front rest : List UInt8} (hfront : front.length = 4)
    (hmagic : rest.take magic.length ≠ magic) : decode (front ++ rest) = .error .corruptHeader := by
  obtain ⟨size, rfl⟩ := exists_wordBytes hfront
  have hheader : Reading.header ⟨rest, 4, #[]⟩ = .error .corruptHeader ⟨rest, 4, #[]⟩ :=
    if_neg hmagic
  exact decode_error_iff.2 ⟨_, (Reading.file_front _ _).trans (bind_of_error hheader)⟩

theorem decode_of_length_lt_twelve {b : List UInt8} (hle : 4 ≤ b.length) (hlt : b.length < 12) :
    decode b = .error .corruptHeader := by
  rw [← List.take_append_drop 4 b]
  refine decode_of_take_ne (List.length_take_of_le hle) fun h => ?_
  have hlen := congrArg List.length h
  have hmagic : magic.length = 8 := rfl
  rw [List.length_take, List.length_drop] at hlen
  omega

theorem decode_short {b : List UInt8} (hlt : b.length < 12) :
    decode b = .error .emptyInput ∨ decode b = .error (.truncated .moduleSize 0) ∨
      decode b = .error .corruptHeader := by
  rcases Nat.lt_or_ge b.length 4 with hlen | hle
  · rcases Nat.eq_zero_or_pos b.length with hzero | hpos
    · rw [List.length_eq_zero_iff.1 hzero]
      exact .inl decode_nil
    · exact .inr (.inl (decode_of_length_lt_four hpos hlen))
  · exact .inr (.inr (decode_of_length_lt_twelve hle hlt))

/-- Behind the magic bytes only a section can be wrong. -/
theorem decode_magic_error_iff {front rest : List UInt8} {e : DecodeError}
    (hfront : front.length = 4) : decode (front ++ (magic ++ rest)) = .error e ↔
      ∃ s, Reading.sections rest.length ⟨rest, 12, #[]⟩ = .error e s := by
  obtain ⟨size, rfl⟩ := exists_wordBytes hfront
  have hheader : Reading.header ⟨magic ++ rest, 4, #[]⟩ = .ok () ⟨rest, 12, #[]⟩ := by
    rw [Reading.header, if_pos List.take_left, List.drop_left]
    rfl
  rw [decode_error_iff, Reading.file_front, bind_of_ok hheader, bind_get]
  refine exists_congr fun s => ⟨fun h => ?_, bind_of_error⟩
  rcases error_of_bind h with h | ⟨_, t, -, h⟩
  · exact h
  · cases h

theorem decode_magic_append {front rest : List UInt8} {e : DecodeError}
    (hfront : front.length = 4) (h : decode (front ++ (magic ++ rest)) = .error e) :
    (∃ field offset, e = .truncated field offset ∧ offset ≤ 12 + rest.length) ∨
      ∀ x, decode (front ++ (magic ++ (rest ++ x))) = .error e := by
  obtain ⟨s, hs⟩ := (decode_magic_error_iff hfront).1 h
  exact (Reading.sections_error hs (Nat.le_refl _)).imp_right fun hext x =>
    (decode_magic_error_iff hfront).2 ⟨_, hext x _ (Nat.le_refl _)⟩

/-- A section of the file ends at the position, or the header does. -/
def Boundary (b : List UInt8) (n : Nat) : Prop :=
  ∃ front ss₁ ss₂, IsFile front (ss₁ ++ ss₂) b ∧ n = 12 + (ss₁.flatMap Section.bytes).length

theorem PrefixFree.isPrefix {α : Type} {P : α → Prop} {f : α → List UInt8} (hf : PrefixFree P f)
    (hpos : ∀ x, 0 < (f x).length) {xs ys : List α} (hx : ∀ x ∈ xs, P x) (hy : ∀ y ∈ ys, P y)
    {t : List UInt8} (h : xs.flatMap f ++ t = ys.flatMap f) : ∃ zs, ys = xs ++ zs := by
  induction xs generalizing ys with
  | nil => exact ⟨ys, rfl⟩
  | cons x xs ih =>
    rw [List.flatMap_cons, List.append_assoc] at h
    cases ys with
    | nil =>
      have hlen := congrArg List.length h
      have hx := hpos x
      rw [List.length_append, List.flatMap_nil, List.length_nil] at hlen
      omega
    | cons y ys =>
      rw [List.flatMap_cons] at h
      obtain ⟨hhead, htail⟩ := List.forall_mem_cons.1 hx
      obtain ⟨hhead', htail'⟩ := List.forall_mem_cons.1 hy
      obtain ⟨rfl, hrest⟩ := hf hhead hhead' h
      obtain ⟨zs, rfl⟩ := ih htail htail' hrest
      exact ⟨zs, rfl⟩

namespace IsFile

variable {front : List UInt8} {ss : List Section} {b x : List UInt8}

theorem length (h : IsFile front ss b) :
    b.length = 12 + (ss.flatMap Section.bytes).length := by
  have hmagic : magic.length = 8 := rfl
  rw [h.bytes, List.length_append, List.length_append, h.length_front, hmagic]
  omega

/-- A front of a file that is no shorter than the header begins with one. -/
theorem exists_of_append (h : IsFile front ss (b ++ x)) (hlen : 12 ≤ b.length) :
    ∃ rest, b = front ++ (magic ++ rest) ∧ rest ++ x = ss.flatMap Section.bytes := by
  have hb := h.bytes
  rw [← List.append_assoc, List.append_eq_append_iff] at hb
  have hheader : (front ++ magic).length = 12 := by
    rw [List.length_append, h.length_front]
    rfl
  rcases hb with ⟨rest, hrest, hx⟩ | ⟨rest, hb, hx⟩
  · have hnil : rest = [] := by
      have hsum := congrArg List.length hrest
      rw [hheader, List.length_append] at hsum
      exact List.length_eq_zero_iff.1 (by omega)
    subst hnil
    rw [List.append_nil] at hrest
    exact ⟨[], by rw [List.append_nil, hrest], hx⟩
  · exact ⟨rest, by rw [hb, List.append_assoc], hx.symm⟩

/-- A file that goes on with another one's bytes ends where one of its sections does. -/
theorem exists_sections (h : IsFile front ss b) {front' : List UInt8} {ss' : List Section}
    (h' : IsFile front' ss' (b ++ x)) : front = front' ∧ ∃ ss₂, ss' = ss ++ ss₂ := by
  obtain ⟨rest, hb, hrest⟩ := h'.exists_of_append (h.length ▸ Nat.le_add_right _ _)
  obtain ⟨rfl, hbody⟩ := List.append_inj (h.bytes.symm.trans hb)
    (h.length_front.trans h'.length_front.symm)
  rw [List.append_cancel_left_eq] at hbody
  subst hbody
  exact ⟨rfl, prefixFree_section.isPrefix Section.length_bytes_pos h.sections h'.sections hrest⟩

theorem of_boundary {ss₁ ss₂ : List Section} (h : IsFile front (ss₁ ++ ss₂) (b ++ x))
    (hlen : b.length = 12 + (ss₁.flatMap Section.bytes).length) : IsFile front ss₁ b where
  length_front := h.length_front
  sections s hs := h.sections s (List.mem_append_left _ hs)
  bytes := by
    obtain ⟨rest, rfl, hrest⟩ := h.exists_of_append (hlen ▸ Nat.le_add_right _ _)
    have hmagic : magic.length = 8 := rfl
    rw [List.length_append, List.length_append, h.length_front, hmagic] at hlen
    rw [List.flatMap_append] at hrest
    rw [(List.append_inj hrest (by omega)).1]

end IsFile

theorem join_prefix (ms ns : List Module) :
    (Module.join ms).dropNuls.functions <+: (Module.join (ms ++ ns)).dropNuls.functions ∧
      (Module.join ms).dropNuls.strings <+: (Module.join (ms ++ ns)).dropNuls.strings := by
  simp only [Module.join, Module.dropNuls, List.flatMap_append, List.map_append]
  exact ⟨List.prefix_append _ _, List.prefix_append _ _⟩

/-- A front of a file decodes if it ends where a section or the header does. -/
theorem decode_front_iff {b x : List UInt8} {m : Module} {a : Arena}
    (h : decode (b ++ x) = .ok (m, a)) :
    (∃ m' a', decode b = .ok (m', a')) ↔ 12 ≤ b.length ∧ Boundary (b ++ x) b.length := by
  obtain ⟨front, ss, hfile⟩ := exists_isFile_of_decode h
  constructor
  · rintro ⟨m', a', hb⟩
    obtain ⟨front', ss₁, hfile'⟩ := exists_isFile_of_decode hb
    obtain ⟨rfl, ss₂, rfl⟩ := hfile'.exists_sections hfile
    exact ⟨hfile'.length ▸ Nat.le_add_right _ _, front', ss₁, ss₂, hfile, hfile'.length⟩
  · rintro ⟨-, front', ss₁, ss₂, hfile', hlen⟩
    exact ⟨_, _, (hfile'.of_boundary hlen).decode⟩

theorem prefix_of_decode {b x : List UInt8} {m m' : Module} {a a' : Arena}
    (hb : decode b = .ok (m, a)) (h : decode (b ++ x) = .ok (m', a')) :
    m.functions <+: m'.functions ∧ m.strings <+: m'.strings := by
  obtain ⟨front, ss₁, hfile⟩ := exists_isFile_of_decode hb
  obtain ⟨front', ss', hfile'⟩ := exists_isFile_of_decode h
  obtain ⟨rfl, ss₂, rfl⟩ := hfile.exists_sections hfile'
  cases hfile.decode.symm.trans hb
  cases hfile'.decode.symm.trans h
  rw [List.map_append]
  exact join_prefix _ _

/-- A front of a file that does not decode has come to its end too early. -/
theorem truncated_of_decode {b x : List UInt8} {m : Module} {a : Arena} {e : DecodeError}
    (hb : decode b = .error e) (h : decode (b ++ x) = .ok (m, a)) (hlen : 12 ≤ b.length) :
    ∃ field offset, e = .truncated field offset ∧ offset ≤ b.length := by
  obtain ⟨front, ss, hfile⟩ := exists_isFile_of_decode h
  obtain ⟨rest, rfl, -⟩ := hfile.exists_of_append hlen
  rcases decode_magic_append hfile.length_front hb with ⟨field, offset, he, hle⟩ | hext
  · refine ⟨field, offset, he, Nat.le_trans hle (Nat.le_of_eq ?_)⟩
    rw [List.length_append, List.length_append, hfile.length_front, ← Nat.add_assoc]
    rfl
  · have hx := hext x
    rw [← List.append_assoc, ← List.append_assoc, List.append_assoc front, h] at hx
    cases hx

/-- What is wrong with a file is not mended by more bytes behind it. -/
theorem decode_append_of_error {b : List UInt8} {e : DecodeError} (hb : decode b = .error e)
    (hlen : 12 ≤ b.length) (he : ∀ field offset, e ≠ .truncated field offset) (x : List UInt8) :
    decode (b ++ x) = .error e := by
  obtain ⟨front, rest, rfl, hfront⟩ : ∃ front rest, b = front ++ rest ∧ front.length = 4 :=
    ⟨b.take 4, b.drop 4, (List.take_append_drop 4 b).symm, List.length_take_of_le (by omega)⟩
  by_cases hmagic : rest.take magic.length = magic
  · rw [← List.take_append_drop magic.length rest, hmagic] at hb ⊢
    rcases decode_magic_append hfront hb with ⟨field, offset, htrunc, -⟩ | hext
    · exact absurd htrunc (he field offset)
    · rw [List.append_assoc, List.append_assoc]
      exact hext x
  · have hrest : magic.length ≤ rest.length := by
      have hlen' : magic.length = 8 := rfl
      rw [List.length_append] at hlen
      omega
    cases (decode_of_take_ne hfront hmagic).symm.trans hb
    rw [List.append_assoc]
    exact decode_of_take_ne hfront (List.take_append_of_le_length hrest ▸ hmagic)

/-- Cutting a file off anywhere: it decodes at the end of a section, to a front of what the whole
file holds, and anywhere else it is reported as cut off. What is reported as wrong, though, is
wrong with any bytes behind it. -/
theorem decode_append (b x : List UInt8) :
    (∀ m a, decode (b ++ x) = .ok (m, a) →
      ((∃ m' a', decode b = .ok (m', a')) ↔ 12 ≤ b.length ∧ Boundary (b ++ x) b.length) ∧
      (∀ m' a', decode b = .ok (m', a') →
        m'.functions <+: m.functions ∧ m'.strings <+: m.strings) ∧
      ∀ e, decode b = .error e →
        (b = [] → e = .emptyInput) ∧
        (1 ≤ b.length → b.length ≤ 3 → e = .truncated .moduleSize 0) ∧
        (4 ≤ b.length → b.length ≤ 11 → e = .corruptHeader) ∧
        (12 ≤ b.length → ∃ field offset, e = .truncated field offset ∧ offset ≤ b.length)) ∧
    (∀ e, decode b = .error e →
      ((∃ code, e = .invalidSectionCode code) ∨ (∃ field offset, e = .invalidText field offset) ∨
        (e = .corruptHeader ∧ 12 ≤ b.length)) →
      decode (b ++ x) = .error e) := by
  refine ⟨fun m a h => ⟨decode_front_iff h, fun m' a' hb => prefix_of_decode hb h, fun e hb =>
    ⟨?_, fun hpos hlen => ?_, fun hle hlt => ?_, truncated_of_decode hb h⟩⟩, fun e hb he => ?_⟩
  · rintro rfl
    cases decode_nil.symm.trans hb
    rfl
  · cases (decode_of_length_lt_four hpos (by omega)).symm.trans hb
    rfl
  · cases (decode_of_length_lt_twelve hle (by omega)).symm.trans hb
    rfl
  · have hlong : 12 ≤ b.length := by
      by_contra hlt
      rcases decode_short (Nat.lt_of_not_le hlt) with hshort | hshort | hshort <;>
        cases hshort.symm.trans hb <;> simp [hlt] at he
    refine decode_append_of_error hb hlong ?_ x
    rcases he with ⟨code, rfl⟩ | ⟨field, offset, rfl⟩ | ⟨rfl, -⟩ <;> simp

def wrongSection : List UInt8 := [0, 0, 0, 0] ++ (magic ++ wordBytes 3)

theorem decode_append_mixed :
    (∃ m a, decode (mixedFile.take 27) = .ok (m, a) ∧ m.strings <+: ["a\x00"]) ∧
    (∃ field offset, decode (mixedFile.take 30) = .error (.truncated field offset) ∧
      offset ≤ 30) ∧
    decode (wrongSection ++ mixedFile) = .error (.invalidSectionCode 3) := by
  have hwhole : ∀ n, decode (mixedFile.take n ++ mixedFile.drop n) =
      .ok (⟨[⟨"f", 1, 2, [⟨7⟩, .endSection]⟩], ["a\x00"]⟩, _) := fun n => by
    rw [List.take_append_drop]
    exact isFile_mixed.decode
  refine ⟨?_, ?_, (decode_append wrongSection mixedFile).2 _ rfl (.inl ⟨3, rfl⟩)⟩
  · obtain ⟨hiff, hkept, -⟩ := (decode_append (mixedFile.take 27) _).1 _ _ (hwhole 27)
    have hfile := isFile_mixed
    rw [← List.take_append_drop 27 mixedFile] at hfile
    obtain ⟨m, a, hdecode⟩ := hiff.2
      ⟨by decide, [9, 9, 9, 9], mixed.take 1, mixed.drop 1, hfile, by decide⟩
    exact ⟨m, a, hdecode, (hkept m a hdecode).2⟩
  · have hcut : decode (mixedFile.take 30) = .error (.truncated .sectionCode 27) := by decide
    obtain ⟨-, -, herror⟩ := (decode_append (mixedFile.take 30) _).1 _ _ (hwhole 30)
    obtain ⟨field, offset, he, hle⟩ := (herror _ hcut).2.2.2 (by decide)
    exact ⟨field, offset, he ▸ hcut, hle⟩

end StackMachine.Image
