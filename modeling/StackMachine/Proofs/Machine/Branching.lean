import StackMachine.Machine.Arith
import StackMachine.Proofs.Image.Views

/-! The six conditional jumps read one and the same order. What two values compare to does not
depend on the jump; it is a total preorder on the integers, and another one on the indices of
strings, where two indices of equal strings are alike. Each jump is a set of outcomes. -/

namespace StackMachine

open Image (textBytes)

namespace Relation

theorem holds_ne (o : Ordering) : ne.holds o = !eq.holds o := by cases o <;> rfl

theorem holds_ge (o : Ordering) : ge.holds o = !lt.holds o := by cases o <;> rfl

theorem holds_le (o : Ordering) : le.holds o = !gt.holds o := by cases o <;> rfl

theorem holds_le_eq_isLE (o : Ordering) : le.holds o = o.isLE := by cases o <;> rfl

theorem holds_gt_swap (o : Ordering) : gt.holds o.swap = lt.holds o := by cases o <;> rfl

/-- The jumps of which exactly one is taken. -/
def strict : List Relation := [.lt, .eq, .gt]

/-- The one that is taken on the outcome. -/
def ofOrdering : Ordering → Relation
  | .lt => .lt
  | .eq => .eq
  | .gt => .gt

theorem ofOrdering_mem (o : Ordering) : ofOrdering o ∈ strict := by cases o <;> decide

theorem holds_of_mem_strict {relation : Relation} (h : relation ∈ strict) (o : Ordering) :
    relation.holds o = decide (relation = ofOrdering o) := by
  revert relation
  cases o <;> decide

end Relation

namespace Arith

theorem compareBytes_eq_compareLex (as bs : List UInt8) :
    compareBytes as bs = as.compareLex (compareOn UInt8.toNat) bs := by
  fun_induction compareBytes as bs with
  | case1 | case2 | case3 => rfl
  | case4 a as b bs ih => rw [List.compareLex_cons_cons, ih, compareOn]

instance : Std.TransCmp compareBytes := by
  rw [funext₂ compareBytes_eq_compareLex]
  infer_instance

theorem compareBytes_eq_iff {as bs : List UInt8} : compareBytes as bs = .eq ↔ as = bs := by
  fun_induction compareBytes as bs with
  | case1 | case2 | case3 => simp
  | case4 a as b bs ih =>
    rw [Ordering.then_eq_eq, Nat.compare_eq_eq, UInt8.toNat_inj, ih, List.cons.injEq]

/-- The order of lists by their first difference, in which a proper beginning comes first. -/
theorem compareBytes_lt_iff {as bs : List UInt8} :
    compareBytes as bs = .lt ↔ List.Lex (fun a b => a.toNat < b.toNat) as bs := by
  fun_induction compareBytes as bs with
  | case1 | case2 | case3 => simp
  | case4 a as b bs ih =>
    rw [Ordering.then_eq_lt, Nat.compare_eq_lt, Nat.compare_eq_eq, UInt8.toNat_inj, ih,
      List.cons_lex_cons_iff]

end Arith

/-- Both are integers, or both are indices of strings that are there. -/
def Module.Comparable (m : Module) : Value → Value → Prop
  | .int48 _, .int48 _ => True
  | .uint48 i, .uint48 j => i.toNat < m.strings.length ∧ j.toNat < m.strings.length
  | _, _ => False

/-- What the values compare to. -/
inductive Module.Compared (m : Module) : Value → Value → Ordering → Prop
  | int (a b : Int64) : Compared m (.int48 a) (.int48 b) (compare a b)
  | string {i j : UInt64} {s t : String} :
      m.strings[i.toNat]? = some s → m.strings[j.toNat]? = some t →
      Compared m (.uint48 i) (.uint48 j) (Arith.compareBytes (textBytes s) (textBytes t))

namespace Module

variable {m : Module} {u v w : Value} {o o' : Ordering}

theorem Compared.unique (h : m.Compared u v o) (h' : m.Compared u v o') : o = o' := by
  cases h with
  | int a b =>
    cases h'
    rfl
  | string hs ht =>
    cases h' with
    | string hs' ht' =>
      rw [hs, Option.some.injEq] at hs'
      rw [ht, Option.some.injEq] at ht'
      rw [hs', ht']

theorem Compared.swap (h : m.Compared u v o) : m.Compared v u o.swap := by
  cases h with
  | int a b =>
    rw [← Std.OrientedCmp.eq_swap]
    exact .int b a
  | string hs ht =>
    rw [← Std.OrientedCmp.eq_swap]
    exact .string ht hs

theorem Compared.trans (h : m.Compared u v o) (h' : m.Compared v w o') (hle : o.isLE)
    (hle' : o'.isLE) : ∃ o'', m.Compared u w o'' ∧ o''.isLE := by
  cases h with
  | int a b =>
    cases h' with
    | int _ c => exact ⟨_, .int a c, Std.TransCmp.isLE_trans hle hle'⟩
  | string hs ht =>
    cases h' with
    | string ht' hr =>
      rw [ht, Option.some.injEq] at ht'
      subst ht'
      exact ⟨_, .string hs hr, Std.TransCmp.isLE_trans hle hle'⟩

theorem exists_compared_iff : (∃ o, m.Compared u v o) ↔ m.Comparable u v := by
  constructor
  · rintro ⟨o, h⟩
    cases h with
    | int => trivial
    | string hs ht => exact ⟨(List.getElem?_eq_some_iff.1 hs).1, (List.getElem?_eq_some_iff.1 ht).1⟩
  · intro h
    unfold Comparable at h
    split at h
    next a b => exact ⟨_, .int a b⟩
    next i j =>
      exact ⟨_, .string (List.getElem?_eq_getElem h.1) (List.getElem?_eq_getElem h.2)⟩
    next => exact h.elim

/-- Whether the jump is taken, on the image of the module. -/
abbrev branch (m : Module) (relation : Relation) (u v : Value) : Except Fault Bool :=
  Arith.jumpTaken (.branch relation) u v (.ofModule m)

section Small

variable (hm : ∀ s ∈ m.strings, s.utf8ByteSize < 0x100000000)
include hm

theorem stringBytes_ofModule {i : UInt64} {bytes : List UInt8} :
    Arith.stringBytes (.ofModule m) i = .ok bytes ↔
      ∃ s, m.strings[i.toNat]? = some s ∧ textBytes s = bytes := by
  unfold Arith.stringBytes
  cases hs : m.strings[i.toNat]? with
  | some s =>
    rw [(Arena.packed_ofModule m).string hs (hm s (List.mem_of_getElem? hs))]
    simp
  | none =>
    rw [Arena.string_of_le (Arena.packed_ofModule m) (List.getElem?_eq_none_iff.1 hs)]
    simp

theorem compareValues_eq_ok_iff (op : Opcode) :
    Arith.compareValues op u v (.ofModule m) = .ok o ↔ m.Compared u v o := by
  constructor
  · intro h
    unfold Arith.compareValues at h
    split at h
    next a b =>
      cases h
      exact .int a b
    next i j =>
      cases hi : Arith.stringBytes (.ofModule m) i with
      | error f =>
        rw [hi] at h
        cases h
      | ok as =>
        cases hj : Arith.stringBytes (.ofModule m) j with
        | error f =>
          rw [hi, hj] at h
          cases h
        | ok bs =>
          rw [hi, hj] at h
          cases h
          obtain ⟨s, hs, rfl⟩ := (stringBytes_ofModule hm).1 hi
          obtain ⟨t, ht, rfl⟩ := (stringBytes_ofModule hm).1 hj
          exact .string hs ht
    all_goals cases h
  · rintro (⟨a, b⟩ | ⟨hs, ht⟩)
    · rfl
    · simp only [Arith.compareValues, (stringBytes_ofModule hm).2 ⟨_, hs, rfl⟩,
        (stringBytes_ofModule hm).2 ⟨_, ht, rfl⟩]
      rfl

/-- The jump only chooses among the outcomes. -/
theorem branch_eq_ok_iff {relation : Relation} {b : Bool} :
    m.branch relation u v = .ok b ↔ ∃ o, m.Compared u v o ∧ relation.holds o = b := by
  have hcompare := fun o => @compareValues_eq_ok_iff m u v o hm (.branch relation)
  unfold branch Arith.jumpTaken
  cases h : Arith.compareValues (.branch relation) u v (.ofModule m) with
  | error f =>
    simp only [← hcompare, h]
    simp [bind, Except.bind]
  | ok o =>
    simp only [← hcompare, h]
    simp [bind, Except.bind, pure, Except.pure]

theorem exists_branch_iff (relation : Relation) :
    (∃ b, m.branch relation u v = .ok b) ↔ m.Comparable u v := by
  simp only [branch_eq_ok_iff hm, ← exists_compared_iff]
  constructor
  · rintro ⟨b, o, ho, -⟩
    exact ⟨o, ho⟩
  · rintro ⟨o, ho⟩
    exact ⟨_, o, ho, rfl⟩

/-- Two jumps, the one of which is taken just when the other one is not. -/
theorem branch_not {relation other : Relation} (h : ∀ o, relation.holds o = !other.holds o)
    (b : Bool) : m.branch relation u v = .ok b ↔ m.branch other u v = .ok !b := by
  simp only [branch_eq_ok_iff hm, h, Bool.not_eq_eq_eq_not]

theorem branch_swap (b : Bool) : m.branch .lt u v = .ok b ↔ m.branch .gt v u = .ok b := by
  simp only [branch_eq_ok_iff hm]
  constructor
  · rintro ⟨o, ho, rfl⟩
    exact ⟨o.swap, ho.swap, Relation.holds_gt_swap o⟩
  · rintro ⟨o, ho, rfl⟩
    exact ⟨o.swap, ho.swap, by rw [← Relation.holds_gt_swap, Ordering.swap_swap]⟩

theorem branch_le_trans (h : m.branch .le u v = .ok true) (h' : m.branch .le v w = .ok true) :
    m.branch .le u w = .ok true := by
  simp only [branch_eq_ok_iff hm, Relation.holds_le_eq_isLE] at h h' ⊢
  obtain ⟨o, ho, hle⟩ := h
  obtain ⟨o', ho', hle'⟩ := h'
  exact ho.trans ho' hle hle'

/-- Of the strict jumps the one is taken that the outcome says. -/
theorem branch_strict (h : m.Comparable u v) : ∃ taken ∈ Relation.strict,
    ∀ relation ∈ Relation.strict, m.branch relation u v = .ok (decide (relation = taken)) := by
  obtain ⟨o, ho⟩ := exists_compared_iff.2 h
  refine ⟨.ofOrdering o, Relation.ofOrdering_mem o, fun relation hrelation => ?_⟩
  exact (branch_eq_ok_iff hm).2 ⟨o, ho, Relation.holds_of_mem_strict hrelation o⟩

section Strings

variable {i j : UInt64} {s t : String} (hs : m.strings[i.toNat]? = some s)
  (ht : m.strings[j.toNat]? = some t)
include hs ht

theorem branch_strings (relation : Relation) (b : Bool) :
    m.branch relation (.uint48 i) (.uint48 j) = .ok b ↔
      relation.holds (Arith.compareBytes (textBytes s) (textBytes t)) = b := by
  rw [branch_eq_ok_iff hm]
  constructor
  · rintro ⟨o, ho, hb⟩
    rwa [ho.unique (.string hs ht)] at hb
  · intro hb
    exact ⟨_, .string hs ht, hb⟩

theorem branch_eq_strings : m.branch .eq (.uint48 i) (.uint48 j) = .ok true ↔
    textBytes s = textBytes t := by
  rw [branch_strings hm hs ht, ← Arith.compareBytes_eq_iff]
  exact beq_iff_eq

theorem branch_lt_strings : m.branch .lt (.uint48 i) (.uint48 j) = .ok true ↔
    List.Lex (fun a b => a.toNat < b.toNat) (textBytes s) (textBytes t) := by
  rw [branch_strings hm hs ht, ← Arith.compareBytes_lt_iff]
  exact beq_iff_eq

end Strings

end Small

/-- The conditional jumps share one total preorder: they compare the same pairs, two integers or
two indices of strings, of which the strict jumps take exactly one; the others are their negations,
and on strings the order is that of the bytes. -/
theorem branch_order {m : Module} (hm : ∀ s ∈ m.strings, s.utf8ByteSize < 0x100000000)
    (u v w : Value) :
    (∀ relation, (∃ b, m.branch relation u v = .ok b) ↔ m.Comparable u v) ∧
      (m.Comparable u v → ∃ taken ∈ Relation.strict, ∀ relation ∈ Relation.strict,
        m.branch relation u v = .ok (decide (relation = taken))) ∧
      (∀ b, (m.branch .ne u v = .ok b ↔ m.branch .eq u v = .ok !b) ∧
        (m.branch .ge u v = .ok b ↔ m.branch .lt u v = .ok !b) ∧
        (m.branch .le u v = .ok b ↔ m.branch .gt u v = .ok !b)) ∧
      (∀ b, m.branch .lt u v = .ok b ↔ m.branch .gt v u = .ok b) ∧
      (m.branch .le u v = .ok true → m.branch .le v w = .ok true →
        m.branch .le u w = .ok true) ∧
      ∀ (i j : UInt64) (s t : String), m.strings[i.toNat]? = some s →
        m.strings[j.toNat]? = some t →
        (m.branch .eq (.uint48 i) (.uint48 j) = .ok true ↔ textBytes s = textBytes t) ∧
        (m.branch .lt (.uint48 i) (.uint48 j) = .ok true ↔
          List.Lex (fun a b => a.toNat < b.toNat) (textBytes s) (textBytes t)) :=
  ⟨exists_branch_iff hm, branch_strict hm,
    fun b => ⟨branch_not hm Relation.holds_ne b, branch_not hm Relation.holds_ge b,
      branch_not hm Relation.holds_le b⟩,
    branch_swap hm, branch_le_trans hm,
    fun _ _ _ _ hs ht => ⟨branch_eq_strings hm hs ht, branch_lt_strings hm hs ht⟩⟩

/-- One string stands twice, and begins another one. -/
def words : Module where
  strings := ["b", "bé", "b", "a"]

theorem branch_order_words : (∀ s ∈ words.strings, s.utf8ByteSize < 0x100000000) ∧
    words.branch .eq (.uint48 0) (.uint48 2) = .ok true ∧
    words.branch .lt (.uint48 0) (.uint48 1) = .ok true ∧
    words.branch .gt (.uint48 0) (.uint48 3) = .ok true ∧
    words.branch .le (.uint48 3) (.uint48 1) = .ok true ∧
    words.branch .gt (.uint48 3) (.uint48 1) = .ok false ∧
    ¬ (∃ b, words.branch .le (.uint48 0) (.uint48 4) = .ok b) ∧
    ¬ ∃ b, words.branch .le (.uint48 0) (.int48 0) = .ok b := by
  have hm : ∀ s ∈ words.strings, s.utf8ByteSize < 0x100000000 := by decide
  obtain ⟨-, -, -, hswap, htrans, hstrings⟩ := branch_order hm (.uint48 3) (.uint48 0) (.uint48 1)
  obtain ⟨-, -, hnot, -⟩ := branch_order hm (.uint48 3) (.uint48 1) (.uint48 1)
  obtain ⟨hpast, -⟩ := branch_order hm (.uint48 0) (.uint48 4) (.uint48 0)
  obtain ⟨hmixed, -⟩ := branch_order hm (.uint48 0) (.int48 0) (.uint48 0)
  have heq := (hstrings 0 2 "b" "b" rfl rfl).1.2 rfl
  have hlt := (hstrings 0 1 "b" "bé" rfl rfl).2.2 (.cons .nil)
  have hless := (hstrings 3 0 "a" "b" rfl rfl).2.2 (.rel (by decide))
  have hle := htrans (by decide +kernel) (by decide +kernel)
  exact ⟨hm, heq, hlt, (hswap true).1 hless, hle, (hnot true).2.2.1 hle,
    mt (hpast .le).1 (by simp [Comparable, words]), mt (hmixed .le).1 id⟩

end Module

end StackMachine
