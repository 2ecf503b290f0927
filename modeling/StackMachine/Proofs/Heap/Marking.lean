import StackMachine.Proofs.Heap.View

/-! Marking finds exactly what the roots reach. `Reaches` is the least set of live objects that
holds the targets of the roots and is closed under the handles stored in its members; `Marking`
is what every step of the marker keeps. -/

namespace StackMachine

namespace Heap

inductive Reaches (h : Heap) (roots : Array Value) : ObjectRef → Prop
  | root {r : ObjectRef} {o : HeapObject} :
      Value.ref r ∈ roots → h.resolve? r = some o → Reaches h roots r
  | field {p r : ObjectRef} {o o' : HeapObject} :
      Reaches h roots p → h.resolve? p = some o → Value.ref r ∈ o.fields →
      h.resolve? r = some o' → Reaches h roots r

theorem Reaches.resolves {h : Heap} {roots : Array Value} {r : ObjectRef}
    (hr : h.Reaches roots r) : ∃ o, h.resolve? r = some o := by
  cases hr with
  | root _ ho => exact ⟨_, ho⟩
  | field _ _ _ ho => exact ⟨_, ho⟩

def Marked (h : Heap) (r : ObjectRef) : Prop := ∃ o, h.resolve? r = some o ∧ o.marked = true

def Resolves (h : Heap) (r : ObjectRef) : Prop := ∃ o, h.resolve? r = some o

theorem resolves_clear {h : Heap} {r : ObjectRef} : h.clear.Resolves r ↔ h.Resolves r := by
  unfold Resolves
  rw [resolve?_clear]
  cases h.resolve? r <;> simp

theorem resolves_markGray {h : Heap} {r q : ObjectRef} :
    (h.markGray r).Resolves q ↔ h.Resolves q := by
  rw [← resolves_clear, clear_markGray, resolves_clear]

theorem resolve?_markGray (h : Heap) (r q : ObjectRef) :
    (h.markGray r).resolve? q =
      if q = r then (h.resolve? r).map fun o => { o with marked := true } else h.resolve? q := by
  unfold markGray
  split
  next o ho =>
    split
    next hm =>
      by_cases hq : q = r
      · subst hq
        simp [ho, ← hm]
      · simp [hq]
    next =>
      rw [ho]
      exact resolve?_setObject ho _ q
  next hn =>
    by_cases hq : q = r
    · simp [hq, hn]
    · simp [hq]

theorem marked_markGray {h : Heap} {r q : ObjectRef} :
    (h.markGray r).Marked q ↔ h.Marked q ∨ q = r ∧ h.Resolves r := by
  unfold Marked Resolves
  rw [resolve?_markGray]
  by_cases hq : q = r
  · subst hq
    cases h.resolve? q <;> simp
  · simp [hq]

theorem marked_foldl_markGray (rs : List ObjectRef) {h : Heap} {q : ObjectRef} :
    (rs.foldl markGray h).Marked q ↔ h.Marked q ∨ q ∈ rs ∧ h.Resolves q := by
  induction rs generalizing h with
  | nil => simp
  | cons r rs ih =>
    rw [List.foldl_cons, ih, marked_markGray, resolves_markGray, List.mem_cons]
    constructor
    · rintro ((hq | ⟨rfl, hr⟩) | ⟨hq, hr⟩)
      · exact .inl hq
      · exact .inr ⟨.inl rfl, hr⟩
      · exact .inr ⟨.inr hq, hr⟩
    · rintro (hq | ⟨rfl | hq, hr⟩)
      · exact .inl (.inl hq)
      · exact .inl (.inr ⟨rfl, hr⟩)
      · exact .inr ⟨hq, hr⟩

theorem propagate_of_nil {h : Heap} (hg : h.gray = []) : h.propagate = h := by
  rw [propagate]
  split
  next => rfl
  next hr => simp [hg] at hr

theorem propagate_of_some {h : Heap} {r : ObjectRef} {rest : List ObjectRef} {o : HeapObject}
    (hg : h.gray = r :: rest) (ho : ({ h with gray := rest } : Heap).resolve? r = some o) :
    h.propagate = (o.refs.foldl markGray { h with gray := rest }).propagate := by
  rw [propagate]
  split
  next hr => simp [hg] at hr
  next q rest' hr =>
    obtain ⟨rfl, rfl⟩ : r = q ∧ rest = rest' := by simpa [hg] using hr
    simp only [ho]

theorem propagate_of_none {h : Heap} {r : ObjectRef} {rest : List ObjectRef}
    (hg : h.gray = r :: rest) (hn : ({ h with gray := rest } : Heap).resolve? r = none) :
    h.propagate = ({ h with gray := rest } : Heap).propagate := by
  rw [propagate]
  split
  next hr => simp [hg] at hr
  next q rest' hr =>
    obtain ⟨rfl, rfl⟩ : r = q ∧ rest = rest' := by simpa [hg] using hr
    simp only [hn]

/-- What is true while the heap `h₀` is being marked from `roots`. Marked objects whose fields were
not looked at yet are in the work list or in `pending`. -/
structure Marking (h₀ : Heap) (roots : Array Value) (pending : List ObjectRef) (h : Heap) :
    Prop where
  clear : h.clear = h₀
  gray : ∀ r ∈ h.gray, h₀.Reaches roots r
  /-- A marked slot has a handle that can be reached; it is also below the handles' bound. -/
  sound : ∀ i g o, h.slots[i]? = some ⟨g, some o⟩ → o.marked = true →
    ∃ r : ObjectRef, r.index.toNat = i ∧ r.generation = g ∧ h₀.Reaches roots r
  done : ∀ p o r, h.Marked p → p ∉ h.gray → p ∉ pending → h₀.resolve? p = some o →
    Value.ref r ∈ o.fields → h₀.Resolves r → h.Marked r

namespace Marking

variable {h₀ h : Heap} {roots : Array Value} {pending : List ObjectRef}

theorem resolves (hm : Marking h₀ roots pending h) {r : ObjectRef} :
    h₀.Resolves r ↔ h.Resolves r := by
  rw [← hm.clear, resolves_clear]

theorem marked_reaches (hm : Marking h₀ roots pending h) {r : ObjectRef} (hr : h.Marked r) :
    h₀.Reaches roots r := by
  obtain ⟨o, ho, hmark⟩ := hr
  obtain ⟨q, hi, hg, hq⟩ := hm.sound _ _ _ (resolve?_eq_some_iff.1 ho) hmark
  have hqr : q = r := by
    cases q; cases r
    simp_all [UInt32.toNat_inj]
  exact hqr ▸ hq

theorem markGray (hm : Marking h₀ roots pending h) {r : ObjectRef}
    (hr : h₀.Resolves r → h₀.Reaches roots r) : Marking h₀ roots pending (h.markGray r) := by
  have hmark := @marked_markGray h r
  have hclear := clear_markGray h r
  unfold Heap.markGray at hmark hclear ⊢
  split
  next o ho =>
    have hreach := hr (hm.resolves.2 ⟨o, ho⟩)
    split
    next => exact hm
    next hunmarked =>
      simp only [ho, hunmarked] at hmark hclear
      refine ⟨hclear.trans hm.clear, ?_, ?_, ?_⟩
      · intro q hq
        rcases List.mem_cons.1 hq with rfl | hq
        · exact hreach
        · exact hm.gray q (by simpa using hq)
      · intro i g x hx hmarked
        rw [getElem?_setObject] at hx
        split at hx
        next hi =>
          rw [← hi, resolve?_eq_some_iff.1 ho] at hx
          obtain ⟨rfl, -⟩ : r.generation = g ∧ _ := by simpa using hx
          exact ⟨r, hi, rfl, hreach⟩
        next => exact hm.sound i g x hx hmarked
      · intro p x q hp hgray hpending hpx hq hqr
        obtain ⟨hne, hgray⟩ : p ≠ r ∧ p ∉ h.gray := by simpa using hgray
        -- `r` itself owes its fields now, so only objects marked before have paid
        have hold : h.Marked p := (hmark.1 hp).resolve_right fun hpr => hne hpr.1
        exact hmark.2 (.inl (hm.done p x q hold hgray hpending hpx hq hqr))
  next => exact hm

theorem foldl (hm : Marking h₀ roots pending h) (rs : List ObjectRef)
    (hr : ∀ r ∈ rs, h₀.Resolves r → h₀.Reaches roots r) :
    Marking h₀ roots pending (rs.foldl Heap.markGray h) := by
  induction rs generalizing h with
  | nil => exact hm
  | cons r rs ih =>
    exact ih (hm.markGray (hr r List.mem_cons_self)) fun q hq => hr q (List.mem_cons_of_mem _ hq)

theorem pop (hm : Marking h₀ roots [] h) {r : ObjectRef} {rest : List ObjectRef}
    (hg : h.gray = r :: rest) : Marking h₀ roots [r] { h with gray := rest } where
  clear := hm.clear
  gray q hq := hm.gray q (hg ▸ List.mem_cons_of_mem _ hq)
  sound := hm.sound
  done p o q hp hgray hpending := by
    refine hm.done p o q hp ?_ List.not_mem_nil
    rw [hg, List.mem_cons]
    rintro (hpr | hp)
    · exact hpending (by simp [hpr])
    · exact hgray hp

theorem settle {r : ObjectRef} (hm : Marking h₀ roots [r] h)
    (hr : ∀ o q, h₀.resolve? r = some o → Value.ref q ∈ o.fields → h₀.Resolves q → h.Marked q) :
    Marking h₀ roots [] h where
  clear := hm.clear
  gray := hm.gray
  sound := hm.sound
  done p o q hp hgray _ hpo hq hres := by
    by_cases hpr : p = r
    · exact hr o q (hpr ▸ hpo) hq hres
    · exact hm.done p o q hp hgray (by simp [hpr]) hpo hq hres

theorem propagate (hm : Marking h₀ roots [] h) :
    Marking h₀ roots [] h.propagate ∧ h.propagate.gray = [] := by
  -- along the work list: the entry taken off owes its fields until they are on the list
  induction h using propagate.induct with
  | case1 h hg =>
    rw [propagate_of_nil hg]
    exact ⟨hm, hg⟩
  | case2 h r rest hg h' o ho ih =>
    rw [propagate_of_some hg ho]
    have hpop : Marking h₀ roots [r] h' := hm.pop hg
    have hreach : h₀.Reaches roots r := hm.gray r (hg ▸ List.mem_cons_self)
    have ho₀ : h₀.resolve? r = some o.clear := by
      rw [← hpop.clear, resolve?_clear, ho]
      rfl
    have hfold : Marking h₀ roots [r] (o.refs.foldl Heap.markGray h') := by
      refine hpop.foldl _ fun q hq ⟨x, hx⟩ => ?_
      exact .field hreach ho₀ (HeapObject.mem_refs.1 hq) hx
    refine ih (hfold.settle fun x q hx hq hres => ?_)
    rw [ho₀] at hx
    cases hx
    exact (marked_foldl_markGray _).2 (.inr ⟨HeapObject.mem_refs.2 hq, hpop.resolves.1 hres⟩)
  | case3 h r rest hg h' hn ih =>
    rw [propagate_of_none hg hn]
    have hpop : Marking h₀ roots [r] h' := hm.pop hg
    refine ih (hpop.settle fun x q hx _ _ => ?_)
    obtain ⟨y, hy⟩ := hpop.resolves.1 ⟨x, hx⟩
    simp [hn] at hy

end Marking

theorem marked_propagate {h : Heap} {r : ObjectRef} (hr : h.Marked r) : h.propagate.Marked r := by
  induction h using propagate.induct with
  | case1 h hg =>
    rwa [propagate_of_nil hg]
  | case2 h q rest hg h' o ho ih =>
    rw [propagate_of_some hg ho]
    exact ih ((marked_foldl_markGray _).2 (.inl hr))
  | case3 h q rest hg h' hn ih =>
    rw [propagate_of_none hg hn]
    exact ih hr

/-- Between collections nothing is marked, and marking begins. -/
theorem marking_of_clear {h : Heap} (hc : h.clear = h) (roots : Array Value) :
    Marking h roots [] h := by
  have hunmarked : ∀ (i : Nat) (g : UInt32) (o : HeapObject),
      h.slots[i]? = some ⟨g, some o⟩ → o.marked ≠ true := by
    intro i g o ho
    rw [← hc] at ho
    simp only [clear, Array.getElem?_map, Option.map_eq_some_iff] at ho
    obtain ⟨⟨g', x⟩, -, hx⟩ := ho
    cases x with
    | none => simp [Slot.clear] at hx
    | some x =>
      obtain ⟨-, rfl⟩ : g' = g ∧ x.clear = o := by simpa [Slot.clear] using hx
      simp [HeapObject.clear]
  have hgray : h.gray = [] := by rw [← hc]; rfl
  refine ⟨hc, by simp [hgray], fun i g o ho hm => absurd hm (hunmarked i g o ho), ?_⟩
  rintro p o r ⟨x, hx, hm⟩
  exact absurd hm (hunmarked _ _ _ (resolve?_eq_some_iff.1 hx))

theorem marking_mark {h : Heap} (hc : h.clear = h) (roots : Array Value) :
    Marking h roots [] (h.mark roots) ∧ (h.mark roots).gray = [] := by
  refine Marking.propagate ((marking_of_clear hc roots).foldl _ fun r hr ⟨o, ho⟩ => ?_)
  obtain ⟨v, hv, hvr⟩ := List.mem_filterMap.1 hr
  cases v <;> simp only [Value.asRef?, Option.some.injEq, reduceCtorEq] at hvr
  exact .root (hvr ▸ Array.mem_toList_iff.1 hv) ho

theorem marked_mark {h : Heap} (hc : h.clear = h) {roots : Array Value} {r : ObjectRef} :
    (h.mark roots).Marked r ↔ h.Reaches roots r := by
  obtain ⟨hm, hgray⟩ := marking_mark hc roots
  refine ⟨hm.marked_reaches, fun hr => ?_⟩
  -- with an empty work list no marked object owes its fields, so marks follow every path
  induction hr with
  | root hr ho =>
    apply marked_propagate
    rw [marked_foldl_markGray]
    exact .inr ⟨List.mem_filterMap.2 ⟨_, Array.mem_toList_iff.2 hr, rfl⟩, ⟨_, ho⟩⟩
  | field _ hp hr ho ih =>
    exact hm.done _ _ _ ih (by simp [hgray]) List.not_mem_nil hp hr ⟨_, ho⟩

end Heap

end StackMachine
