import Mathlib.Data.List.DropRight
import Mathlib.Data.List.TakeDrop
import StackMachine.Config.Json

/-! The grammar of JSON texts: the texts of a tree, with blanks between their tokens wherever these
may stand. Every reader takes exactly such a text off the front of its input, whatever ends the
value behind it, so every text of a tree is read as that tree. The allowance of the reader is
enough, since a nested value costs two steps and its text is longer by a character at least. -/

namespace StackMachine.Json

def Blanks (ws : List Char) : Prop := ∀ c ∈ ws, isBlank c = true

/-- What stands between the quotes of a string. -/
inductive StringText : CodePoints → List Char → Prop
  | nil : StringText [] []
  | plain {c : Char} {s : CodePoints} {cs : List Char} : 0x20 ≤ c.toNat → c ≠ '"' → c ≠ '\\' →
      StringText s cs → StringText (c.toNat :: s) (c :: cs)
  | escape {c : Char} {unit : Nat} {s : CodePoints} {cs : List Char} : escape? c = some unit →
      StringText s cs → StringText (unit :: s) ('\\' :: c :: cs)
  | unicode {a b c d : Char} {unit : Nat} {s : CodePoints} {cs : List Char} :
      hexDigits? a b c d = some unit → StringText s cs →
      StringText (unit :: s) ('\\' :: 'u' :: a :: b :: c :: d :: cs)

structure Digits (ds : List Char) : Prop where
  ne_nil : ds ≠ []
  isDigit : ∀ c ∈ ds, c.isDigit = true

/-- Digits with no zero in front of others. -/
structure Whole (ds : List Char) : Prop extends Digits ds where
  leading : ds.head? = some '0' → ds.length = 1

inductive Fraction : List Char → Prop
  | none : Fraction []
  | digits {ds : List Char} : Digits ds → Fraction ('.' :: ds)

inductive Exponent : List Char → Prop
  | none : Exponent []
  | unsigned {e : Char} {ds : List Char} : e = 'e' ∨ e = 'E' → Digits ds → Exponent (e :: ds)
  | signed {e sign : Char} {ds : List Char} : e = 'e' ∨ e = 'E' → sign = '+' ∨ sign = '-' →
      Digits ds → Exponent (e :: sign :: ds)

inductive NumberText : Json → List Char → Prop
  | natural {ds : List Char} : Whole ds → NumberText (.natural (digitsValue ds)) ds
  | other {sign whole fraction exponent : List Char} : sign = [] ∨ sign = ['-'] → Whole whole →
      Fraction fraction → Exponent exponent → sign ++ fraction ++ exponent ≠ [] →
      NumberText (.number (sign ++ whole ++ fraction ++ exponent))
        (sign ++ whole ++ fraction ++ exponent)

mutual

/-- The texts of a tree, from its first token to its last one. -/
inductive ValueText : Json → List Char → Prop
  | null : ValueText .null ['n', 'u', 'l', 'l']
  | bool_true : ValueText (.bool true) ['t', 'r', 'u', 'e']
  | bool_false : ValueText (.bool false) ['f', 'a', 'l', 's', 'e']
  | number {j : Json} {cs : List Char} : NumberText j cs → ValueText j cs
  | string {s : CodePoints} {cs : List Char} : StringText s cs →
      ValueText (.string s) ('"' :: (cs ++ ['"']))
  | emptyArray {ws : List Char} : Blanks ws → ValueText (.array []) ('[' :: (ws ++ [']']))
  | array {js : List Json} {cs : List Char} : ElementsText js cs →
      ValueText (.array js) ('[' :: (cs ++ [']']))
  | emptyObject {ws : List Char} : Blanks ws →
      ValueText (.object []) ('\x7b' :: (ws ++ ['\x7d']))
  | object {ms : List (CodePoints × Json)} {cs : List Char} : MembersText ms cs →
      ValueText (.object ms) ('\x7b' :: (cs ++ ['\x7d']))

/-- The same with blanks around. -/
inductive ElementText : Json → List Char → Prop
  | mk {j : Json} {before cs after : List Char} : Blanks before → ValueText j cs → Blanks after →
      ElementText j (before ++ (cs ++ after))

inductive ElementsText : List Json → List Char → Prop
  | one {j : Json} {cs : List Char} : ElementText j cs → ElementsText [j] cs
  | more {j : Json} {js : List Json} {cs rest : List Char} : ElementText j cs →
      ElementsText js rest → ElementsText (j :: js) (cs ++ ',' :: rest)

inductive MemberText : CodePoints × Json → List Char → Prop
  | mk {key : CodePoints} {j : Json} {before ks after cs : List Char} : Blanks before →
      StringText key ks → Blanks after → ElementText j cs →
      MemberText (key, j) (before ++ '"' :: (ks ++ '"' :: (after ++ ':' :: cs)))

inductive MembersText : List (CodePoints × Json) → List Char → Prop
  | one {m : CodePoints × Json} {cs : List Char} : MemberText m cs → MembersText [m] cs
  | more {m : CodePoints × Json} {ms : List (CodePoints × Json)} {cs rest : List Char} :
      MemberText m cs → MembersText ms rest → MembersText (m :: ms) (cs ++ ',' :: rest)

end

/-- What may follow a value. -/
def Ends (rest : List Char) : Prop :=
  ∀ c, rest.head? = some c → isBlank c = true ∨ c = ',' ∨ c = ']' ∨ c = '\x7d'

section Strings

theorem stringTail_plain {c : Char} (hlow : 0x20 ≤ c.toNat) (hquote : c ≠ '"') (hslash : c ≠ '\\')
    (rest : List Char) :
    stringTail (c :: rest) = (stringTail rest).map fun (s, rest) => (c.toNat :: s, rest) := by
  rw [stringTail, if_neg (Nat.not_lt.2 hlow)]
  · cases stringTail rest <;> rfl
  · exact hquote
  · rintro _ _ _ _ _ rfl
    exact absurd rfl hslash
  · rintro _ _ rfl
    exact absurd rfl hslash

theorem stringTail_escape {c : Char} {unit : Nat} (h : escape? c = some unit)
    (rest : List Char) :
    stringTail ('\\' :: c :: rest) =
      (stringTail rest).map fun (s, rest) => (unit :: s, rest) := by
  have hu : c ≠ 'u' := by
    rintro rfl
    cases h
  rw [stringTail, h]
  · cases stringTail rest <;> rfl
  · exact fun _ _ _ _ _ hc _ => hu hc

theorem stringTail_append {s : CodePoints} {cs : List Char} (h : StringText s cs)
    (rest : List Char) : stringTail (cs ++ '"' :: rest) = some (s, rest) := by
  induction h with
  | nil => simp only [List.nil_append, stringTail]
  | plain hlow hquote hslash _ ih =>
    rw [List.cons_append, stringTail_plain hlow hquote hslash, ih]
    rfl
  | escape hunit _ ih =>
    rw [List.cons_append, List.cons_append, stringTail_escape hunit, ih]
    rfl
  | unicode hunit _ ih =>
    simp only [List.cons_append, stringTail, hunit, ih]
    rfl

end Strings

section Numbers

theorem digits1_append {ds rest : List Char} (hds : Digits ds)
    (hrest : ∀ c, rest.head? = some c → c.isDigit = false) :
    digits1 (ds ++ rest) = some (ds, rest) := by
  have hspan : (ds ++ rest).span Char.isDigit = (ds, rest) := by
    rw [List.span_eq_takeWhile_dropWhile, List.takeWhile_append_of_pos hds.isDigit,
      List.dropWhile_append_of_pos hds.isDigit]
    cases rest with
    | nil => simp
    | cons c rest => simp [hrest c rfl]
  unfold digits1
  rw [hspan]
  cases ds with
  | nil => exact absurd rfl hds.ne_nil
  | cons => rfl

/-- What may stand behind a number does not go on with it. -/
theorem not_digit_of_ends {rest : List Char} (h : Ends rest) :
    ∀ c, rest.head? = some c → c.isDigit = false ∧ c ≠ '.' ∧ c ≠ 'e' ∧ c ≠ 'E' := by
  intro c hc
  rcases h c hc with hblank | rfl | rfl | rfl
  · simp only [isBlank, Bool.or_eq_true, beq_iff_eq] at hblank
    rcases hblank with ((rfl | rfl) | rfl) | rfl <;> decide
  all_goals decide

theorem integerPart_append {ds rest : List Char} (hds : Whole ds)
    (hrest : ∀ c, rest.head? = some c → c.isDigit = false) :
    integerPart (ds ++ rest) = some (ds, rest) := by
  have hnot : ¬ (ds.head? = some '0' ∧ ds.length ≠ 1) := fun ⟨hzero, hlen⟩ =>
    hlen (hds.leading hzero)
  simp only [integerPart, digits1_append hds.toDigits hrest, bind, Option.bind, if_neg hnot]

theorem fractionPart_append {fraction rest : List Char} (h : Fraction fraction)
    (hrest : ∀ c, rest.head? = some c → c.isDigit = false ∧ c ≠ '.') :
    fractionPart (fraction ++ rest) = some (fraction, rest) := by
  cases h with
  | none =>
    cases rest with
    | nil => rfl
    | cons c rest =>
      rw [List.nil_append, fractionPart]
      rintro rest' ⟨rfl, -⟩
      exact (hrest '.' rfl).2 rfl
  | digits hds =>
    rw [List.cons_append, fractionPart, digits1_append hds fun c hc => (hrest c hc).1]
    rfl

theorem exponentPart_append {exponent rest : List Char} (h : Exponent exponent)
    (hrest : ∀ c, rest.head? = some c → c.isDigit = false ∧ c ≠ 'e' ∧ c ≠ 'E') :
    exponentPart (exponent ++ rest) = some (exponent, rest) := by
  have hdigit : ∀ c, rest.head? = some c → c.isDigit = false := fun c hc => (hrest c hc).1
  cases h with
  | none =>
    cases rest with
    | nil => rfl
    | cons c rest =>
      obtain ⟨-, he, hE⟩ := hrest c rfl
      simp only [List.nil_append, exponentPart, if_neg (not_or.2 ⟨he, hE⟩)]
  | @unsigned e ds he hds =>
    obtain ⟨d, ds, rfl⟩ := List.exists_cons_of_ne_nil hds.ne_nil
    have hd : ¬ (d = '+' ∨ d = '-') := by
      rintro (rfl | rfl) <;> exact absurd (hds.isDigit _ List.mem_cons_self) (by decide)
    have hdigits := digits1_append hds hdigit
    rw [List.cons_append] at hdigits
    simp only [List.cons_append, exponentPart, if_pos he, if_neg hd, hdigits]
    rfl
  | @signed e sign ds he hsign hds =>
    simp only [List.cons_append, exponentPart, if_pos he, if_pos hsign, digits1_append hds hdigit]
    rfl

theorem head_fraction {fraction rest : List Char} (h : Fraction fraction) {c : Char}
    (hc : (fraction ++ rest).head? = some c) : c = '.' ∨ rest.head? = some c := by
  cases h with
  | none => exact .inr hc
  | digits => exact .inl (Option.some.inj hc).symm

theorem head_exponent {exponent rest : List Char} (h : Exponent exponent) {c : Char}
    (hc : (exponent ++ rest).head? = some c) : c = 'e' ∨ c = 'E' ∨ rest.head? = some c := by
  cases h with
  | none => exact .inr (.inr hc)
  | unsigned he | signed he =>
    obtain rfl := Option.some.inj hc
    exact he.imp_right .inl

theorem number?_parts {sign whole fraction exponent rest : List Char}
    (hsign : sign = [] ∨ sign = ['-']) (hwhole : Whole whole) (hfraction : Fraction fraction)
    (hexponent : Exponent exponent) (hrest : Ends rest) :
    number? (sign ++ (whole ++ (fraction ++ (exponent ++ rest)))) =
      match sign ++ fraction ++ exponent with
      | [] => some (.natural (digitsValue whole), rest)
      | _ => some (.number (sign ++ whole ++ fraction ++ exponent), rest) := by
  have hends := not_digit_of_ends hrest
  have hbehindFraction : ∀ c, (exponent ++ rest).head? = some c →
      c.isDigit = false ∧ c ≠ '.' := by
    intro c hc
    rcases head_exponent hexponent hc with rfl | rfl | hc
    · decide
    · decide
    · exact ⟨(hends c hc).1, (hends c hc).2.1⟩
  have hbehindWhole : ∀ c, (fraction ++ (exponent ++ rest)).head? = some c →
      c.isDigit = false := by
    intro c hc
    rcases head_fraction hfraction hc with rfl | hc
    · decide
    · exact (hbehindFraction c hc).1
  have hbehindExponent : ∀ c, rest.head? = some c → c.isDigit = false ∧ c ≠ 'e' ∧ c ≠ 'E' :=
    fun c hc => ⟨(hends c hc).1, (hends c hc).2.2⟩
  have hminus : ∀ tail, whole ++ (fraction ++ (exponent ++ rest)) ≠ '-' :: tail := by
    obtain ⟨d, ds, rfl⟩ := List.exists_cons_of_ne_nil hwhole.ne_nil
    rintro tail ⟨⟩
    exact absurd (hwhole.isDigit _ List.mem_cons_self) (by decide)
  unfold number?
  rcases hsign with rfl | rfl
  · split
    next hsplit =>
    split at hsplit
    next htail => exact absurd htail (hminus _)
    next =>
      cases hsplit
      simp only [List.nil_append, integerPart_append hwhole hbehindWhole,
        fractionPart_append hfraction hbehindFraction,
        exponentPart_append hexponent hbehindExponent, bind, Option.bind]
      rfl
  · simp only [List.cons_append, List.nil_append, integerPart_append hwhole hbehindWhole,
      fractionPart_append hfraction hbehindFraction, exponentPart_append hexponent hbehindExponent,
      bind, Option.bind]
    rfl

theorem number?_append {j : Json} {cs rest : List Char} (h : NumberText j cs) (hrest : Ends rest) :
    number? (cs ++ rest) = some (j, rest) := by
  cases h with
  | natural hds => exact number?_parts (.inl rfl) hds .none .none hrest
  | @other sign whole fraction exponent hsign hwhole hfraction hexponent hne =>
    have hparts := number?_parts hsign hwhole hfraction hexponent hrest
    obtain ⟨c, cs, hmarks⟩ := List.exists_cons_of_ne_nil hne
    rw [hmarks] at hparts
    simpa only [List.append_assoc] using hparts

end Numbers

section Blanks

variable {ws cs : List Char}

theorem blanks_nil : Blanks [] := by
  simp [Blanks]

theorem skipBlanks_append (h : Blanks ws) (cs : List Char) :
    skipBlanks (ws ++ cs) = skipBlanks cs :=
  List.dropWhile_append_of_pos h

theorem skipBlanks_cons {c : Char} (h : isBlank c = false) (cs : List Char) :
    skipBlanks (c :: cs) = c :: cs :=
  List.dropWhile_cons_of_neg (by simp [h])

theorem skipBlanks_skipBlanks (cs : List Char) : skipBlanks (skipBlanks cs) = skipBlanks cs :=
  List.dropWhile_idempotent isBlank cs

theorem value_skipBlanks (n : Nat) (cs : List Char) : value n (skipBlanks cs) = value n cs := by
  cases n with
  | zero => rfl
  | succ n => simp only [value, skipBlanks_skipBlanks]

theorem items_skipBlanks (n : Nat) (cs : List Char) : items n (skipBlanks cs) = items n cs := by
  cases n with
  | zero => rfl
  | succ n => simp only [items, value_skipBlanks]

theorem members_skipBlanks (n : Nat) (cs : List Char) :
    members n (skipBlanks cs) = members n cs := by
  cases n with
  | zero => rfl
  | succ n => simp only [members, skipBlanks_skipBlanks]

theorem Ends.append (h : Blanks ws) {rest : List Char} (hrest : Ends rest) : Ends (ws ++ rest) := by
  cases ws with
  | nil => exact hrest
  | cons c ws =>
    rintro _ ⟨⟩
    exact .inl (h c List.mem_cons_self)

end Blanks

theorem ElementText.skipBlanks {j : Json} {cs : List Char} (h : ElementText j cs)
    (rest : List Char) : ∃ vs after, ValueText j vs ∧ Blanks after ∧ vs.length ≤ cs.length ∧
      Json.skipBlanks (cs ++ rest) = Json.skipBlanks (vs ++ (after ++ rest)) := by
  obtain @⟨j, before, vs, after, hbefore, hvs, hafter⟩ := h
  refine ⟨vs, after, hvs, hafter, by simp only [List.length_append]; omega, ?_⟩
  simp only [List.append_assoc, skipBlanks_append hbefore]

section Values

variable {n : Nat} {rest : List Char}

theorem not_blank_of_digit {c : Char} (h : c.isDigit = true ∨ c = '-') : isBlank c = false := by
  rw [Bool.eq_false_iff]
  intro hblank
  simp only [isBlank, Bool.or_eq_true, beq_iff_eq] at hblank
  rcases hblank with ((rfl | rfl) | rfl) | rfl <;> exact absurd h (by decide)

/-- A number starts with a digit or a sign. -/
theorem NumberText.first {j : Json} {cs : List Char} (h : NumberText j cs) :
    ∃ c tail, cs = c :: tail ∧ (c.isDigit = true ∨ c = '-') := by
  have hwhole {whole : List Char} (h : Whole whole) (tail : List Char) :
      ∃ c tail', whole ++ tail = c :: tail' ∧ (c.isDigit = true ∨ c = '-') := by
    obtain ⟨d, ds, rfl⟩ := List.exists_cons_of_ne_nil h.ne_nil
    exact ⟨d, ds ++ tail, rfl, .inl (h.isDigit d List.mem_cons_self)⟩
  cases h with
  | natural hds => simpa using hwhole hds []
  | other hsign hds =>
    rcases hsign with rfl | rfl
    · simpa only [List.nil_append, List.append_assoc] using hwhole hds _
    · exact ⟨'-', _, rfl, .inr rfl⟩

theorem value_number {j : Json} {cs : List Char} (h : NumberText j cs) (rest : List Char) :
    value (n + 1) (cs ++ rest) = number? (cs ++ rest) := by
  obtain ⟨c, tail, rfl, hc⟩ := h.first
  rw [List.cons_append]
  generalize tail ++ rest = cs
  rw [value, skipBlanks_cons (not_blank_of_digit hc)]
  split
  case h_7 => rfl
  all_goals
    rename_i heq
    cases heq
    exact absurd hc (by decide)

theorem value_array (h : ∀ tail, skipBlanks rest ≠ ']' :: tail) :
    value (n + 1) ('[' :: rest) =
      (items n rest).map fun (js, rest) => (.array js, rest) := by
  rw [value, skipBlanks_cons rfl]
  simp only [items_skipBlanks]

theorem value_object (h : ∀ tail, skipBlanks rest ≠ '\x7d' :: tail) :
    value (n + 1) ('\x7b' :: rest) =
      (members n rest).map fun (ms, rest) => (.object ms, rest) := by
  rw [value, skipBlanks_cons rfl]
  simp only [members_skipBlanks]

/-- The first character of a value is no blank, and it closes nothing. -/
theorem ValueText.first {j : Json} {cs : List Char} (h : ValueText j cs) :
    ∃ c tail, cs = c :: tail ∧ isBlank c = false ∧ c ≠ ']' := by
  cases h with
  | number hnumber =>
    obtain ⟨c, tail, rfl, hc⟩ := hnumber.first
    refine ⟨c, tail, rfl, not_blank_of_digit hc, ?_⟩
    rintro rfl
    exact absurd hc (by decide)
  | _ => exact ⟨_, _, rfl, by decide, by decide⟩

theorem ElementText.not_closing {j : Json} {cs : List Char} (h : ElementText j cs)
    (rest tail : List Char) : Json.skipBlanks (cs ++ rest) ≠ ']' :: tail := by
  obtain ⟨vs, after, hvs, -, -, heq⟩ := h.skipBlanks rest
  obtain ⟨c, vs, rfl, hblank, hc⟩ := hvs.first
  rw [heq, List.cons_append, skipBlanks_cons hblank]
  rintro ⟨⟩
  exact hc rfl

theorem ElementsText.not_closing {js : List Json} {cs : List Char} (h : ElementsText js cs)
    (rest tail : List Char) : Json.skipBlanks (cs ++ rest) ≠ ']' :: tail := by
  cases h with
  | one h => exact h.not_closing rest tail
  | more h => simpa only [List.append_assoc] using h.not_closing _ tail

theorem MemberText.skipBlanks {key : CodePoints} {j : Json} {cs : List Char}
    (h : MemberText (key, j) cs) (rest : List Char) : ∃ ks after vs, StringText key ks ∧
      Blanks after ∧ ElementText j vs ∧ vs.length ≤ cs.length ∧
      Json.skipBlanks (cs ++ rest) = '"' :: (ks ++ '"' :: (after ++ ':' :: (vs ++ rest))) := by
  obtain @⟨key, j, before, ks, after, vs, hbefore, hks, hafter, hvs⟩ := h
  refine ⟨ks, after, vs, hks, hafter, hvs, ?_, ?_⟩
  · simp only [List.length_append, List.length_cons]
    omega
  · rw [List.append_assoc, skipBlanks_append hbefore, List.cons_append, skipBlanks_cons rfl]
    simp only [List.append_assoc, List.cons_append]

theorem MembersText.not_closing {ms : List (CodePoints × Json)} {cs : List Char}
    (h : MembersText ms cs) (rest tail : List Char) :
    Json.skipBlanks (cs ++ rest) ≠ '\x7d' :: tail := by
  have hmember {m : CodePoints × Json} {cs : List Char} (h : MemberText m cs)
      (rest : List Char) : Json.skipBlanks (cs ++ rest) ≠ '\x7d' :: tail := by
    obtain ⟨ks, after, vs, -, -, -, -, heq⟩ := h.skipBlanks rest
    rw [heq]
    rintro ⟨⟩
  cases h with
  | one h => exact hmember h rest
  | more h => simpa only [List.append_assoc] using hmember h _

end Values

section Reading

/-- With an allowance of `n` steps every text that is short enough is read. -/
structure Reads (n : Nat) : Prop where
  value : ∀ {j : Json} {cs rest : List Char}, ValueText j cs → 2 * cs.length + 1 ≤ n →
    Ends rest → value n (cs ++ rest) = some (j, rest)
  items : ∀ {js : List Json} {cs rest : List Char}, ElementsText js cs →
    2 * cs.length + 2 ≤ n → items n (cs ++ ']' :: rest) = some (js, rest)
  members : ∀ {ms : List (CodePoints × Json)} {cs rest : List Char}, MembersText ms cs →
    2 * cs.length + 2 ≤ n → members n (cs ++ '\x7d' :: rest) = some (ms, rest)

variable {n : Nat} {cs rest : List Char}

theorem Reads.element (h : Reads n) {j : Json} (hj : ElementText j cs)
    (hlen : 2 * cs.length + 1 ≤ n) (hrest : Ends rest) :
    ∃ left, Json.value n (cs ++ rest) = some (j, left) ∧ skipBlanks left = skipBlanks rest := by
  obtain ⟨vs, after, hvs, hafter, hle, heq⟩ := hj.skipBlanks rest
  refine ⟨after ++ rest, ?_, skipBlanks_append hafter rest⟩
  rw [← value_skipBlanks, heq, value_skipBlanks]
  exact h.value hvs (by omega) (.append hafter hrest)

theorem ends_comma (rest : List Char) : Ends (',' :: rest) := by
  rintro _ ⟨⟩
  exact .inr (.inl rfl)

theorem ends_bracket (rest : List Char) : Ends (']' :: rest) := by
  rintro _ ⟨⟩
  exact .inr (.inr (.inl rfl))

theorem ends_brace (rest : List Char) : Ends ('\x7d' :: rest) := by
  rintro _ ⟨⟩
  exact .inr (.inr (.inr rfl))

theorem Reads.value_succ (h : Reads n) {j : Json} (hj : ValueText j cs)
    (hlen : 2 * cs.length + 1 ≤ n + 1) (hrest : Ends rest) :
    Json.value (n + 1) (cs ++ rest) = some (j, rest) := by
  cases hj with
  | null | bool_true | bool_false => rfl
  | number hnumber => rw [value_number hnumber, number?_append hnumber hrest]
  | string hs =>
    rw [List.cons_append, List.append_assoc, Json.value, skipBlanks_cons rfl]
    simp only [List.cons_append, List.nil_append, stringTail_append hs]
    rfl
  | emptyArray hws =>
    rw [List.cons_append, List.append_assoc, Json.value, skipBlanks_cons rfl]
    simp only [skipBlanks_append hws]
    rfl
  | emptyObject hws =>
    rw [List.cons_append, List.append_assoc, Json.value, skipBlanks_cons rfl]
    simp only [skipBlanks_append hws]
    rfl
  | array hjs =>
    simp only [List.length_cons, List.length_append, List.length_nil] at hlen
    rw [List.cons_append, List.append_assoc, List.cons_append, List.nil_append,
      value_array (hjs.not_closing _), h.items hjs (by omega)]
    rfl
  | object hms =>
    simp only [List.length_cons, List.length_append, List.length_nil] at hlen
    rw [List.cons_append, List.append_assoc, List.cons_append, List.nil_append,
      value_object (hms.not_closing _), h.members hms (by omega)]
    rfl

theorem Reads.items_succ (h : Reads n) {js : List Json} (hjs : ElementsText js cs)
    (hlen : 2 * cs.length + 2 ≤ n + 1) :
    Json.items (n + 1) (cs ++ ']' :: rest) = some (js, rest) := by
  cases hjs with
  | one hj =>
    obtain ⟨left, hvalue, hleft⟩ := h.element hj (by omega) (ends_bracket rest)
    rw [Json.items, hvalue]
    simp only [bind, Option.bind, hleft, skipBlanks_cons (c := ']') rfl]
    rfl
  | @more j js cs tail hj hjs =>
    simp only [List.length_cons, List.length_append] at hlen
    rw [List.append_assoc, List.cons_append]
    obtain ⟨left, hvalue, hleft⟩ := h.element hj (by omega) (ends_comma (tail ++ ']' :: rest))
    rw [Json.items, hvalue]
    simp only [bind, Option.bind, hleft, skipBlanks_cons (c := ',') rfl, h.items hjs (by omega)]
    rfl

theorem Reads.members_succ (h : Reads n) {ms : List (CodePoints × Json)}
    (hms : MembersText ms cs) (hlen : 2 * cs.length + 2 ≤ n + 1) :
    Json.members (n + 1) (cs ++ '\x7d' :: rest) = some (ms, rest) := by
  cases hms with
  | one hm =>
    obtain ⟨ks, after, vs, hks, hafter, hvs, hle, hfront⟩ := hm.skipBlanks ('\x7d' :: rest)
    obtain ⟨left, hvalue, hleft⟩ := h.element hvs (by omega) (ends_brace rest)
    rw [Json.members, hfront]
    simp only [stringTail_append hks, skipBlanks_append hafter, skipBlanks_cons (c := ':') rfl,
      hvalue, hleft, skipBlanks_cons (c := '\x7d') rfl, bind, Option.bind]
    rfl
  | @more m ms cs tail hm hms =>
    simp only [List.length_cons, List.length_append] at hlen
    rw [List.append_assoc, List.cons_append]
    obtain ⟨ks, after, vs, hks, hafter, hvs, hle, hfront⟩ :=
      hm.skipBlanks (',' :: (tail ++ '\x7d' :: rest))
    obtain ⟨left, hvalue, hleft⟩ :=
      h.element hvs (by omega) (ends_comma (tail ++ '\x7d' :: rest))
    rw [Json.members, hfront]
    simp only [stringTail_append hks, skipBlanks_append hafter, skipBlanks_cons (c := ':') rfl,
      hvalue, hleft, skipBlanks_cons (c := ',') rfl, h.members hms (by omega), bind, Option.bind]
    rfl

theorem reads (n : Nat) : Reads n := by
  induction n with
  | zero => exact ⟨fun _ hlen => by omega, fun _ hlen => by omega, fun _ hlen => by omega⟩
  | succ n ih => exact ⟨ih.value_succ, ih.items_succ, ih.members_succ⟩

/-- A text of the tree is read as the tree. -/
theorem parse_of_elementText {j : Json} {text : String} (h : ElementText j text.toList) :
    parse text = some j := by
  have hend : Ends [] := by
    rintro _ ⟨⟩
  obtain ⟨left, hvalue, hleft⟩ := (reads _).element h le_rfl hend
  rw [List.append_nil] at hvalue
  simp only [parse, hvalue, hleft]
  rfl

end Reading

end StackMachine.Json
