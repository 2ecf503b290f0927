import StackMachine.Proofs.Config.Grammar

/-! A tree that is rendered and read is the same tree, when its strings are made of code points and
its number literals are numbers. A natural number is written without leading zeros; a control
character and one half of a surrogate pair are written as four hexadecimal digits. -/

namespace StackMachine.Json

section Digits

theorem eq_zero_of_head_toDigits {n : Nat} (h : (Nat.toDigits 10 n).head? = some '0') : n = 0 := by
  induction n using Nat.strongRecOn with
  | ind n ih =>
    rw [Nat.toDigits_eq_if (by decide)] at h
    split at h
    next hn =>
      have hdigit : ∀ m < 10, Nat.digitChar m = '0' → m = 0 := by decide
      exact hdigit n hn (Option.some.inj h)
    next hn =>
      rw [List.head?_append_of_ne_nil _ Nat.toDigits_ne_nil] at h
      have hzero := ih (n / 10) (by omega) h
      omega

theorem whole_toDigits (n : Nat) : Whole (Nat.toDigits 10 n) where
  ne_nil := Nat.toDigits_ne_nil
  isDigit _ hc := Nat.isDigit_of_mem_toDigits (by decide) (by decide) hc
  leading h := by
    rw [eq_zero_of_head_toDigits h]
    rfl

theorem digitsValue_toDigits (n : Nat) : digitsValue (Nat.toDigits 10 n) = n :=
  Nat.ofDigitChars_eq_foldl.symm.trans Nat.ofDigitChars_ten_toDigits

theorem numberText_toString (n : Nat) : NumberText (.natural n) (toString n).toList := by
  have h := NumberText.natural (whole_toDigits n)
  rw [digitsValue_toDigits] at h
  exact Nat.toList_repr ▸ h

/-- The last of the digits, when there is room for more than one. -/
theorem toList_hex_succ {w : Nat} (hw : 0 < w) (n : Nat) :
    (Text.hex (w + 1) n).toList = (Text.hex w (n / 16)).toList ++ [Nat.digitChar (n % 16)] := by
  obtain ⟨w, rfl⟩ := Nat.exists_eq_succ_of_ne_zero hw.ne'
  simp only [Text.hex, String.toList_ofList]
  rw [Nat.toDigits_eq_if (n := n) (by decide)]
  split
  next hn =>
    rw [Nat.div_eq_of_lt hn, Nat.mod_eq_of_lt hn, Nat.toDigits_zero]
    change List.replicate (w + 1) '0' ++ _ = (List.replicate w '0' ++ ['0']) ++ _
    rw [List.replicate_succ']
  next =>
    rw [List.length_append, List.length_singleton, Nat.add_sub_add_right, List.append_assoc]

theorem toList_hex_four {n : Nat} (hn : n < 0x10000) :
    (Text.hex 4 n).toList =
      [Nat.digitChar (n / 16 / 16 / 16), Nat.digitChar (n / 16 / 16 % 16),
        Nat.digitChar (n / 16 % 16), Nat.digitChar (n % 16)] := by
  have hone : (Text.hex 1 (n / 16 / 16 / 16)).toList = [Nat.digitChar (n / 16 / 16 / 16)] := by
    rw [Text.hex, Nat.toDigits_of_lt_base (by omega), String.toList_ofList]
    rfl
  rw [toList_hex_succ (by decide), toList_hex_succ (by decide), toList_hex_succ (by decide), hone]
  rfl

theorem hexDigit?_digitChar : ∀ n < 16, hexDigit? (Nat.digitChar n) = some n := by decide

theorem hexDigits?_digitChar {n : Nat} (hn : n < 0x10000) :
    hexDigits? (Nat.digitChar (n / 16 / 16 / 16)) (Nat.digitChar (n / 16 / 16 % 16))
      (Nat.digitChar (n / 16 % 16)) (Nat.digitChar (n % 16)) = some n := by
  simp only [hexDigits?, hexDigit?_digitChar (n / 16 / 16 / 16) (by omega),
    hexDigit?_digitChar (n / 16 / 16 % 16) (by omega),
    hexDigit?_digitChar (n / 16 % 16) (by omega), hexDigit?_digitChar (n % 16) (by omega),
    bind, Option.bind, pure]
  congr 1
  omega

end Digits

section Strings

theorem stringText_hex {n : Nat} (hn : n < 0x10000) {s : CodePoints} {cs : List Char}
    (h : StringText s cs) : StringText (n :: s) (("\\u" ++ Text.hex 4 n).toList ++ cs) := by
  rw [String.toList_append, toList_hex_four hn]
  exact .unicode (hexDigits?_digitChar hn) h

theorem stringText_renderPoint {n : Nat} (hn : n < 0x110000) {s : CodePoints} {cs : List Char}
    (h : StringText s cs) : StringText (n :: s) ((renderPoint n).toList ++ cs) := by
  unfold renderPoint
  split_ifs with hquote hslash hescaped
  · subst hquote
    exact .escape (c := '"') rfl h
  · subst hslash
    exact .escape (c := '\\') rfl h
  · refine stringText_hex ?_ h
    simp only [Nat.isValidChar] at hescaped
    omega
  · obtain ⟨hlow, hvalid⟩ := not_or.1 hescaped
    have hchar : (Char.ofNat n).toNat = n := by
      rw [Char.ofNat, dif_pos (not_not.1 hvalid)]
      rfl
    have hplain := StringText.plain (c := Char.ofNat n) (by rw [hchar]; exact Nat.not_lt.1 hlow)
      (fun hc => hquote (by rw [← hchar, hc]; rfl)) (fun hc => hslash (by rw [← hchar, hc]; rfl)) h
    rw [hchar] at hplain
    simpa using hplain

theorem stringText_render {s : CodePoints} (h : ∀ n ∈ s, n < 0x110000) :
    StringText s (String.join (s.map renderPoint)).toList := by
  induction s with
  | nil => exact .nil
  | cons n s ih =>
    rw [List.map_cons, String.join_cons, String.toList_append]
    exact stringText_renderPoint (h n List.mem_cons_self)
      (ih fun m hm => h m (List.mem_cons_of_mem n hm))

theorem toList_renderString (s : CodePoints) :
    (renderString s).toList = '"' :: ((String.join (s.map renderPoint)).toList ++ ['"']) := by
  simp only [renderString, String.toList_append]
  rfl

end Strings

/-- Strings are made of code points, and number literals are numbers. -/
inductive Proper : Json → Prop
  | null : Proper .null
  | bool (b : Bool) : Proper (.bool b)
  | natural (n : Nat) : Proper (.natural n)
  | number {literal : List Char} : NumberText (.number literal) literal → Proper (.number literal)
  | string {s : CodePoints} : (∀ n ∈ s, n < 0x110000) → Proper (.string s)
  | array {js : List Json} : (∀ j ∈ js, Proper j) → Proper (.array js)
  | object {ms : List (CodePoints × Json)} : (∀ m ∈ ms, ∀ n ∈ m.1, n < 0x110000) →
      (∀ m ∈ ms, Proper m.2) → Proper (.object ms)

section Trees

theorem ValueText.element {j : Json} {cs : List Char} (h : ValueText j cs) : ElementText j cs := by
  simpa using ElementText.mk blanks_nil h blanks_nil

theorem elementsText_render {js : List Json} (hne : js ≠ [])
    (h : ∀ j ∈ js, ValueText j j.render.toList) : ElementsText js (renderItems js).toList := by
  induction js with
  | nil => exact absurd rfl hne
  | cons j js ih =>
    have hj := (h j List.mem_cons_self).element
    cases js with
    | nil => exact .one hj
    | cons j' js =>
      have hjs := ih (List.cons_ne_nil j' js) fun i hi => h i (List.mem_cons_of_mem j hi)
      simpa [renderItems] using ElementsText.more hj hjs

theorem memberText_render {key : CodePoints} {j : Json} (hkey : ∀ n ∈ key, n < 0x110000)
    (hj : ValueText j j.render.toList) :
    MemberText (key, j) (renderString key ++ ":" ++ j.render).toList := by
  simpa [toList_renderString] using
    MemberText.mk blanks_nil (stringText_render hkey) blanks_nil hj.element

theorem membersText_render {ms : List (CodePoints × Json)} (hne : ms ≠ [])
    (hkey : ∀ m ∈ ms, ∀ n ∈ m.1, n < 0x110000)
    (h : ∀ m ∈ ms, ValueText m.2 m.2.render.toList) :
    MembersText ms (renderMembers ms).toList := by
  induction ms with
  | nil => exact absurd rfl hne
  | cons m ms ih =>
    have hm := memberText_render (hkey m List.mem_cons_self) (h m List.mem_cons_self)
    cases ms with
    | nil => exact .one hm
    | cons m' ms =>
      have hms := ih (List.cons_ne_nil m' ms) (fun i hi => hkey i (List.mem_cons_of_mem m hi))
        fun i hi => h i (List.mem_cons_of_mem m hi)
      simpa [renderMembers] using MembersText.more hm hms

theorem Proper.valueText_render {j : Json} (h : Proper j) : ValueText j j.render.toList := by
  induction h with
  | null => exact .null
  | bool b =>
    cases b with
    | false => exact .bool_false
    | true => exact .bool_true
  | natural n => exact .number (numberText_toString n)
  | number hliteral =>
    rw [render, String.toList_ofList]
    exact .number hliteral
  | string hs =>
    rw [render, toList_renderString]
    exact .string (stringText_render hs)
  | @array js _ ih =>
    rw [render, String.toList_append, String.toList_append]
    rcases eq_or_ne js [] with rfl | hne
    · exact .emptyArray blanks_nil
    · exact .array (elementsText_render hne ih)
  | @object ms hkey _ ih =>
    rw [render, String.toList_append, String.toList_append]
    rcases eq_or_ne ms [] with rfl | hne
    · exact .emptyObject blanks_nil
    · exact .object (membersText_render hne hkey ih)

theorem Proper.parse_render {j : Json} (h : Proper j) : parse j.render = some j :=
  parse_of_elementText h.valueText_render.element

end Trees

end StackMachine.Json
