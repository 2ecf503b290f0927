import StackMachine.Proofs.Heap.History

/-! Layouts form a trie. A layout is the list of fields on the way to it, and no two layouts are the
same list. Nothing checks this when a layout is made: one is made only where no transition is
recorded, and every layout but the first is where a recorded transition leads. -/

namespace StackMachine

namespace Heap

structure Trie (h : Heap) : Prop where
  root : 0 < h.layouts.size ∧ (h.layout rootLayout).fields = []
  nodup : ∀ p, p < h.layouts.size → (h.layout p).fields.Nodup
  edge : ∀ p id t, p < h.layouts.size → (id, t) ∈ (h.layout p).transitions →
    t < h.layouts.size ∧ (h.layout t).fields = (h.layout p).fields ++ [id]
  /-- A layout with fields is where a transition from the layout without the last one leads. -/
  parent : ∀ t ids id, t < h.layouts.size → (h.layout t).fields = ids ++ [id] →
    ∃ p, p < h.layouts.size ∧ (h.layout p).fields = ids ∧
      (h.layout p).transitions.lookup id = some t
  distinct : ∀ p q, p < h.layouts.size → q < h.layouts.size →
    (h.layout p).fields = (h.layout q).fields → p = q

/-- The layouts of the first heap are layouts of the second one, with the same fields. -/
structure Grows (h h' : Heap) : Prop where
  size : h.layouts.size ≤ h'.layouts.size
  fields : ∀ p, p < h.layouts.size → (h'.layout p).fields = (h.layout p).fields

section Basics

variable {h h' h'' : Heap}

theorem trie_new (threshold : Nat) : (Heap.new threshold).Trie := by
  have hone : (Heap.new threshold).layouts.size = 1 := rfl
  have hroot : (Heap.new threshold).layout 0 = {} := rfl
  constructor
  · exact ⟨by omega, rfl⟩
  all_goals rw [hone]
  · intro p hp
    obtain rfl : p = 0 := by omega
    exact List.nodup_nil
  · intro p id t hp ht
    obtain rfl : p = 0 := by omega
    rw [hroot] at ht
    cases ht
  · intro t ids id ht hf
    obtain rfl : t = 0 := by omega
    rw [hroot] at hf
    exact absurd hf.symm (List.append_ne_nil_of_right_ne_nil _ (List.cons_ne_nil _ _))
  · omega

theorem Trie.of_layouts (ht : h.Trie) (hl : h'.layouts = h.layouts) : h'.Trie := by
  have hlayout : ∀ n, h'.layout n = h.layout n := fun n => by rw [layout, hl, layout]
  constructor
  · simpa only [hl, hlayout] using ht.root
  · simpa only [hl, hlayout] using ht.nodup
  · simpa only [hl, hlayout] using ht.edge
  · simpa only [hl, hlayout] using ht.parent
  · simpa only [hl, hlayout] using ht.distinct

theorem Grows.of_layouts (hl : h'.layouts = h.layouts) : h.Grows h' :=
  ⟨Nat.le_of_eq (by rw [hl]), fun p _ => by rw [layout, hl, layout]⟩

theorem Grows.trans (h₁ : h.Grows h') (h₂ : h'.Grows h'') : h.Grows h'' where
  size := Nat.le_trans h₁.size h₂.size
  fields p hp := (h₂.fields p (Nat.lt_of_lt_of_le hp h₁.size)).trans (h₁.fields p hp)

/-- What stands in front on the way to a layout is the way to another one. -/
theorem Trie.exists_of_prefix (ht : h.Trie) {q : Nat} (hq : q < h.layouts.size)
    {ids : List FieldId} (hids : ids <+: (h.layout q).fields) :
    ∃ p, p < h.layouts.size ∧ (h.layout p).fields = ids := by
  obtain ⟨rest, hrest⟩ := hids
  induction rest using List.reverseRecOn generalizing q with
  | nil => exact ⟨q, hq, by rw [← hrest, List.append_nil]⟩
  | append_singleton rest id ih =>
    obtain ⟨p, hp, hf, -⟩ := ht.parent q (ids ++ rest) id hq (by rw [← hrest, List.append_assoc])
    exact ih hp hf.symm

end Basics

section Grown

variable {h : Heap} {source : Nat} {id : FieldId}

theorem grows_grown (hs : source < h.layouts.size) : h.Grows (h.grown source id) where
  size := by
    rw [size_layouts_grown]
    exact Nat.le_succ _
  fields _ hp := fields_layout_grown hs hp

theorem fields_grown_new (hs : source < h.layouts.size) :
    ((h.grown source id).layout h.layouts.size).fields = (h.layout source).fields ++ [id] := by
  rw [layout_grown hs, if_neg (Nat.ne_of_gt hs), if_pos rfl]

theorem transitions_grown_source (hs : source < h.layouts.size) :
    ((h.grown source id).layout source).transitions =
      (id, h.layouts.size) :: (h.layout source).transitions := by
  rw [layout_grown hs, if_pos rfl]

theorem transitions_grown_new (hs : source < h.layouts.size) :
    ((h.grown source id).layout h.layouts.size).transitions = [] := by
  rw [layout_grown hs, if_neg (Nat.ne_of_gt hs), if_pos rfl]

theorem transitions_grown_of_ne (hs : source < h.layouts.size) {p : Nat} (hp : p ≠ source)
    (hlt : p < h.layouts.size) :
    ((h.grown source id).layout p).transitions = (h.layout p).transitions := by
  rw [layout_grown hs, if_neg hp, if_neg (Nat.ne_of_lt hlt)]

theorem lt_or_eq_of_grown {p : Nat} (hp : p < (h.grown source id).layouts.size) :
    p < h.layouts.size ∨ p = h.layouts.size := by
  rw [size_layouts_grown] at hp
  exact Nat.lt_succ_iff_lt_or_eq.1 hp

section Recorded

variable (ht : h.Trie) (hs : source < h.layouts.size)
include ht hs

theorem Trie.edge_grown {p t : Nat} {field : FieldId}
    (hp : p < (h.grown source id).layouts.size)
    (hmem : (field, t) ∈ ((h.grown source id).layout p).transitions) :
    t < (h.grown source id).layouts.size ∧
      ((h.grown source id).layout t).fields = ((h.grown source id).layout p).fields ++ [field] := by
  have hold : ∀ q, q < h.layouts.size → (field, t) ∈ (h.layout q).transitions →
      t < (h.grown source id).layouts.size ∧ ((h.grown source id).layout t).fields =
        ((h.grown source id).layout q).fields ++ [field] := by
    intro q hq hqt
    obtain ⟨hlt, hf⟩ := ht.edge q field t hq hqt
    refine ⟨Nat.lt_of_lt_of_le hlt (grows_grown hs).size, ?_⟩
    rw [fields_layout_grown hs hlt, fields_layout_grown hs hq, hf]
  rcases lt_or_eq_of_grown hp with hp | rfl
  · by_cases hps : p = source
    · subst hps
      rw [transitions_grown_source hs] at hmem
      rcases List.mem_cons.1 hmem with hnew | hmem
      · obtain ⟨rfl, rfl⟩ := Prod.mk.inj hnew
        rw [fields_grown_new hs, fields_layout_grown hs hs, size_layouts_grown]
        exact ⟨Nat.lt_succ_self _, rfl⟩
      · exact hold p hs hmem
    · rw [transitions_grown_of_ne hs hps hp] at hmem
      exact hold p hp hmem
  · rw [transitions_grown_new hs] at hmem
    cases hmem

variable (hn : (h.layout source).transitions.lookup id = none)
include hn

/-- Where no transition is recorded there is no layout that it could lead to. -/
theorem Trie.ne_of_lookup_none {t : Nat} (hlt : t < h.layouts.size) :
    (h.layout t).fields ≠ (h.layout source).fields ++ [id] := by
  intro hf
  obtain ⟨p, hp, hpf, hpt⟩ := ht.parent t _ id hlt hf
  rw [ht.distinct p source hp hs hpf, hn] at hpt
  cases hpt

theorem Trie.distinct_grown {p q : Nat} (hp : p < (h.grown source id).layouts.size)
    (hq : q < (h.grown source id).layouts.size)
    (hf : ((h.grown source id).layout p).fields = ((h.grown source id).layout q).fields) :
    p = q := by
  rcases lt_or_eq_of_grown hp with hp | rfl <;> rcases lt_or_eq_of_grown hq with hq | rfl
  · rw [fields_layout_grown hs hp, fields_layout_grown hs hq] at hf
    exact ht.distinct p q hp hq hf
  · rw [fields_layout_grown hs hp, fields_grown_new hs] at hf
    exact absurd hf (ht.ne_of_lookup_none hs hn hp)
  · rw [fields_layout_grown hs hq, fields_grown_new hs] at hf
    exact absurd hf.symm (ht.ne_of_lookup_none hs hn hq)
  · rfl

theorem Trie.parent_grown {t : Nat} {ids : List FieldId} {last : FieldId}
    (hlt : t < (h.grown source id).layouts.size)
    (hf : ((h.grown source id).layout t).fields = ids ++ [last]) :
    ∃ p, p < (h.grown source id).layouts.size ∧ ((h.grown source id).layout p).fields = ids ∧
      ((h.grown source id).layout p).transitions.lookup last = some t := by
  rcases lt_or_eq_of_grown hlt with hlt | rfl
  · rw [fields_layout_grown hs hlt] at hf
    obtain ⟨p, hp, hpf, hpt⟩ := ht.parent t ids last hlt hf
    refine ⟨p, Nat.lt_of_lt_of_le hp (grows_grown hs).size,
      (fields_layout_grown hs hp).trans hpf, ?_⟩
    by_cases hps : p = source
    · -- the transition recorded last has another field, since this one was recorded before
      have hne : last ≠ id := by
        rintro rfl
        rw [hps, hn] at hpt
        cases hpt
      rw [hps] at hpt ⊢
      rw [transitions_grown_source hs, List.lookup_cons, beq_eq_false_iff_ne.2 hne]
      exact hpt
    · rw [transitions_grown_of_ne hs hps hp]
      exact hpt
  · rw [fields_grown_new hs] at hf
    obtain ⟨rfl, hlast⟩ := List.append_inj' hf rfl
    obtain rfl := List.singleton_inj.1 hlast
    refine ⟨source, Nat.lt_of_lt_of_le hs (grows_grown hs).size, fields_layout_grown hs hs, ?_⟩
    rw [transitions_grown_source hs, List.lookup_cons_self]

theorem Trie.grown (hid : id ∉ (h.layout source).fields) : (h.grown source id).Trie where
  root := by
    refine ⟨Nat.lt_of_lt_of_le ht.root.1 (grows_grown hs).size, ?_⟩
    rw [rootLayout, fields_layout_grown hs ht.root.1]
    exact ht.root.2
  nodup p hp := by
    rcases lt_or_eq_of_grown hp with hp | rfl
    · rw [fields_layout_grown hs hp]
      exact ht.nodup p hp
    · rw [fields_grown_new hs, ← List.concat_eq_append]
      exact (ht.nodup source hs).concat hid
  edge _ _ _ := ht.edge_grown hs
  parent _ _ _ := ht.parent_grown hs hn
  distinct _ _ := ht.distinct_grown hs hn

end Recorded

end Grown

/-- The second heap has the layout `target`, one field beyond `source`. It has no other layout that
the first heap had not, and the same slots. -/
structure Extended (h h' : Heap) (source : Nat) (id : FieldId) (target : Nat) : Prop where
  trie : h'.Trie
  grows : h.Grows h'
  slots : h'.slots = h.slots
  lt : target < h'.layouts.size
  fields : (h'.layout target).fields = (h.layout source).fields ++ [id]
  only : ∀ p, p < h'.layouts.size → p < h.layouts.size ∨ p = target

section Operations

variable {h : Heap} {id : FieldId}

theorem Trie.extendLayout (ht : h.Trie) {source : Nat} (hs : source < h.layouts.size)
    (hid : id ∉ (h.layout source).fields) :
    Extended h (h.extendLayout source id).2 source id (h.extendLayout source id).1 := by
  cases hl : (h.layout source).transitions.lookup id with
  | some target =>
    rw [extendLayout_of_some hl]
    obtain ⟨front, rest, hmem, -⟩ := List.lookup_eq_some_iff.1 hl
    obtain ⟨hlt, hf⟩ := ht.edge source id target hs (hmem ▸ List.mem_append_cons_self)
    exact ⟨ht, .of_layouts rfl, rfl, hlt, hf, fun _ => .inl⟩
  | none =>
    rw [extendLayout_of_none hl]
    refine ⟨ht.grown hs hl hid, grows_grown hs, rfl, ?_, fields_grown_new hs,
      fun _ => lt_or_eq_of_grown⟩
    rw [size_layouts_grown]
    exact Nat.lt_succ_self _

/-- An object that has the field stays as it is; another one takes the layout one field further. -/
theorem addField_cases (hr : h.Regular) (ht : h.Trie) (r : ObjectRef) (id : FieldId) :
    left (addField r id h) = h ∧
        (∀ o, h.resolve? r = some o → id ∈ (h.layout o.layout).fields) ∨
      ∃ (o o' : HeapObject) (h' : Heap), h.resolve? r = some o ∧
        id ∉ (h.layout o.layout).fields ∧ Extended h h' o.layout id o'.layout ∧
        left (addField r id h) = h'.setObject r.index o' := by
  cases ho : h.resolve? r with
  | none => exact .inl ⟨by simp only [addField, ho, left], fun o he => by cases he⟩
  | some o =>
    cases hslot : (h.layout o.layout).slot? id with
    | some slot =>
      refine .inl ⟨by rw [addField_of_some ho hslot, left], fun o' he => ?_⟩
      obtain rfl := Option.some.inj he
      by_contra hid
      rw [Layout.slot?, List.idxOf?_eq_none_iff.2 hid] at hslot
      cases hslot
    | none =>
      have hid := List.idxOf?_eq_none_iff.1 hslot
      have hext := ht.extendLayout (hr.fits_of_resolve? ho).1 hid
      refine .inr ⟨o, { o with
        layout := (h.extendLayout o.layout id).1
        fields := o.fields.push .zero }, _, rfl, hid, hext, ?_⟩
      simp only [addField, ho, hslot]
      rfl

theorem layouts_left_setField (r : ObjectRef) (slot : Nat) (v : Value) :
    (left (setField r slot v h)).layouts = h.layouts := by
  unfold setField
  split
  · rfl
  · split
    · exact layouts_setObject _ _ _
    · rfl

theorem layouts_allocate (hr : h.Regular) (roots : Array Value) :
    (h.allocate roots).2.1.layouts = h.layouts := by
  change (h.makeRoom roots).1.place.2.layouts = h.layouts
  rw [layouts_place, makeRoom_eq]
  split
  · exact layouts_collect hr.clear
  · rfl

theorem Trie.apply (ht : h.Trie) (hr : h.Regular) (op : Operation) :
    (op.apply h).Trie ∧ h.Grows (op.apply h) := by
  have hsame : ∀ {h'}, h'.layouts = h.layouts → h'.Trie ∧ h.Grows h' :=
    fun hl => ⟨ht.of_layouts hl, .of_layouts hl⟩
  cases op with
  | allocate roots => exact hsame (layouts_allocate hr roots)
  | setField r slot v => exact hsame (layouts_left_setField r slot v)
  | collect roots => exact hsame (layouts_collect hr.clear)
  | addField r id =>
    rcases addField_cases hr ht r id with ⟨he, -⟩ | ⟨o, o', h', -, -, hext, he⟩
    · exact hsame (congrArg layouts he)
    · have hl : (Operation.apply h (.addField r id)).layouts = h'.layouts := by
        rw [Operation.apply, he, layouts_setObject]
      exact ⟨hext.trie.of_layouts hl, hext.grows.trans (.of_layouts hl)⟩

theorem Trie.foldl (ht : h.Trie) (hr : h.Regular) (ops : List Operation) :
    (ops.foldl Operation.apply h).Trie ∧ h.Grows (ops.foldl Operation.apply h) := by
  induction ops generalizing h with
  | nil => exact ⟨ht, .of_layouts rfl⟩
  | cons op ops ih =>
    obtain ⟨hop, hgrows⟩ := ht.apply hr op
    obtain ⟨hlast, hrest⟩ := ih hop (hr.apply op)
    exact ⟨hlast, hgrows.trans hrest⟩

theorem Reachable.trie (hh : h.Reachable) : h.Trie := by
  obtain ⟨threshold, ops, rfl⟩ := hh
  exact ((trie_new threshold).foldl (regular_new threshold) ops).1

end Operations

end Heap

end StackMachine
