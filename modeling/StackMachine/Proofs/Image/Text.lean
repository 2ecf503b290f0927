import StackMachine.Image.Arena

/-! Words and text as bytes. A word is read back from its four bytes, text from its UTF-8 form. The
NUL byte is the character NUL and no part of any other, so dropping it from the bytes of a text
drops a character. -/

namespace StackMachine

def Text.dropNul (s : String) : String :=
  if s.toList.getLast? = some '\x00' then String.ofList s.toList.dropLast else s

namespace Image

theorem word_wordBytes (w : UInt32) :
    word (.ofNat w.toNat) (.ofNat (w.toNat / 0x100)) (.ofNat (w.toNat / 0x10000))
      (.ofNat (w.toNat / 0x1000000)) = w := by
  apply UInt32.toNat_inj.1
  have hw := w.toNat_lt
  simp only [word, UInt8.toNat_ofNat', UInt32.toNat_ofNat']
  omega

theorem toNat_ofNat_of_lt {n : Nat} (hn : n < 0x100000000) : (UInt32.ofNat n).toNat = n :=
  UInt32.toNat_ofNat_of_lt' (by simpa using hn)

theorem text?_textBytes (s : String) : text? (textBytes s) = some s := by
  have hs : (⟨(textBytes s).toArray⟩ : ByteArray) = s.toByteArray := by
    simp [textBytes]
  rw [text?, hs, String.fromUTF8?, dif_pos s.isValidUTF8]
  rfl

theorem length_textBytes (s : String) : (textBytes s).length = s.utf8ByteSize := by
  rw [← String.size_toByteArray]
  rfl

theorem textBytes_ofList (l : List Char) :
    textBytes (String.ofList l) = l.flatMap String.utf8EncodeChar := by
  simp [textBytes, List.utf8Encode]

theorem getLast?_utf8EncodeChar (c : Char) :
    (String.utf8EncodeChar c).getLast? = some 0 ↔ c = '\x00' := by
  have hc : c = '\x00' ↔ c.val.toNat = 0 := by
    rw [← Char.val_inj, ← UInt32.toNat_inj]
    rfl
  rw [hc]
  fun_cases String.utf8EncodeChar c with
  | case1 v hv =>
    simp only [List.getLast?_singleton, Option.some.injEq, ← UInt8.toNat_inj, UInt8.toNat_ofNat']
    change c.val.toNat ≤ 0x7f at hv
    change c.val.toNat % 256 = 0 ↔ _
    omega
  | case2 v hv =>
    simp only [List.getLast?_cons_cons, List.getLast?_singleton, Option.some.injEq,
      ← UInt8.toNat_inj, UInt8.toNat_ofNat']
    change ¬ c.val.toNat ≤ 0x7f at hv
    change (c.val.toNat % 64 + 128) % 256 = 0 ↔ _
    omega
  | case3 v hv =>
    simp only [List.getLast?_cons_cons, List.getLast?_singleton, Option.some.injEq,
      ← UInt8.toNat_inj, UInt8.toNat_ofNat']
    change ¬ c.val.toNat ≤ 0x7f at hv
    change (c.val.toNat % 64 + 128) % 256 = 0 ↔ _
    omega
  | case4 v hv =>
    simp only [List.getLast?_cons_cons, List.getLast?_singleton, Option.some.injEq,
      ← UInt8.toNat_inj, UInt8.toNat_ofNat']
    change ¬ c.val.toNat ≤ 0x7f at hv
    change (c.val.toNat % 64 + 128) % 256 = 0 ↔ _
    omega

theorem utf8EncodeChar_nul : String.utf8EncodeChar '\x00' = [0] := by decide

theorem dropNul_ofList (l : List Char) :
    Text.dropNul (String.ofList l) =
      String.ofList (if l.getLast? = some '\x00' then l.dropLast else l) := by
  unfold Text.dropNul
  rw [String.toList_ofList]
  split <;> rfl

theorem stripNul_textBytes (s : String) : stripNul (textBytes s) = textBytes (Text.dropNul s) := by
  obtain ⟨l, rfl⟩ := s.exists_eq_ofList
  rw [dropNul_ofList, textBytes_ofList, textBytes_ofList, stripNul]
  rcases List.eq_nil_or_concat l with rfl | ⟨l, c, rfl⟩
  · rfl
  · rw [List.concat_eq_append, List.flatMap_append, List.flatMap_singleton, List.getLast?_concat]
    have hlast : (l.flatMap String.utf8EncodeChar ++ String.utf8EncodeChar c).getLast? =
        (String.utf8EncodeChar c).getLast? := by
      obtain ⟨b, hb⟩ := Option.ne_none_iff_exists'.1
        (mt List.getLast?_eq_none_iff.1 (String.utf8EncodeChar_ne_nil (c := c)))
      rw [List.getLast?_append, hb]
      rfl
    by_cases hc : c = '\x00'
    · subst hc
      simp [utf8EncodeChar_nul]
    · have hne := mt (getLast?_utf8EncodeChar c).1 hc
      rw [hlast, if_neg hne, if_neg (by simpa using hc), List.flatMap_append,
        List.flatMap_singleton]

end Image

end StackMachine
