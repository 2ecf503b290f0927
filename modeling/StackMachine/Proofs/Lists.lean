import Mathlib.Data.List.Forall2

/-! Lists whose entries at the same positions are related, optional values that are, tables without
entries, lengths of joined lists, lists that a map leaves alone, the first entry of a list with a
property, look-ups by keys that do not repeat, and sequences of computations that may fail. -/

namespace StackMachine

theorem forall₂_getElem? {α β : Type} {R : α → β → Prop} {xs : List α} {ys : List β}
    (h : List.Forall₂ R xs ys) (i : Nat) : Option.Rel R xs[i]? ys[i]? := by
  induction h generalizing i with
  | nil => exact .none
  | cons h _ ih =>
    cases i with
    | zero => exact .some h
    | succ i => exact ih i

theorem forall₂_set {α β : Type} {R : α → β → Prop} {xs : List α} {ys : List β} {x : α} {y : β}
    (h : List.Forall₂ R xs ys) (hxy : R x y) (i : Nat) :
    List.Forall₂ R (xs.set i x) (ys.set i y) := by
  induction h generalizing i with
  | nil => exact .nil
  | cons h hs ih =>
    cases i with
    | zero => exact .cons hxy hs
    | succ i => exact .cons h (ih i)

theorem forall₂_of_mem {α β : Type} {R S : α → β → Prop} {xs : List α} {ys : List β}
    (h : List.Forall₂ R xs ys) (himp : ∀ x ∈ xs, ∀ y ∈ ys, R x y → S x y) :
    List.Forall₂ S xs ys := by
  obtain ⟨hlen, hzip⟩ := List.forall₂_iff_zip.1 h
  refine List.forall₂_iff_zip.2 ⟨hlen, fun hmem => ?_⟩
  obtain ⟨hx, hy⟩ := List.of_mem_zip hmem
  exact himp _ hx _ hy (hzip hmem)

theorem exists_of_forall₂ {α β : Type} {R : α → β → Prop} {xs : List α} {ys : List β}
    (h : List.Forall₂ R xs ys) {x : α} (hx : x ∈ xs) : ∃ y ∈ ys, R x y := by
  induction h with
  | nil => cases hx
  | cons hxy _ ih =>
    rcases List.mem_cons.1 hx with rfl | hx
    · exact ⟨_, List.mem_cons_self, hxy⟩
    · obtain ⟨y, hy, hxy⟩ := ih hx
      exact ⟨y, List.mem_cons_of_mem _ hy, hxy⟩

theorem exists_forall₂ {α β : Type} {R : α → β → Prop} {xs : List α}
    (h : ∀ x ∈ xs, ∃ y, R x y) : ∃ ys, List.Forall₂ R xs ys := by
  induction xs with
  | nil => exact ⟨[], .nil⟩
  | cons x xs ih =>
    obtain ⟨⟨y, hy⟩, h⟩ := List.forall_mem_cons.1 h
    obtain ⟨ys, hys⟩ := ih h
    exact ⟨y :: ys, .cons hy hys⟩

theorem option_rel_imp {α β : Type} {R S : α → β → Prop} {x : Option α} {y : Option β}
    (h : Option.Rel R x y) (himp : ∀ a b, R a b → S a b) : Option.Rel S x y := by
  cases h with
  | none => exact .none
  | some h => exact .some (himp _ _ h)

theorem join_getElem?_replicate {α : Type} (n i : Nat) :
    ((Array.replicate n (none : Option α))[i]?).join = none := by
  rw [Array.getElem?_replicate]
  split <;> rfl

theorem shrink_append_extract {α : Type} (xs : Array α) (n : Nat) :
    xs.shrink n ++ xs.extract n xs.size = xs := by
  rw [Array.shrink_eq_take, Array.take_eq_extract, Array.extract_append_extract, Nat.zero_min,
    Array.extract_eq_self_of_le (Nat.le_max_right n xs.size)]

theorem getElem?_of_prefix {α : Type} {xs ys : Array α} (h : xs.toList <+: ys.toList) {i : Nat}
    {x : α} (hi : xs[i]? = some x) : ys[i]? = some x := by
  rw [← Array.getElem?_toList] at hi ⊢
  obtain ⟨added, hadded⟩ := h
  obtain ⟨hlt, -⟩ := List.getElem?_eq_some_iff.1 hi
  rw [← hadded, List.getElem?_append_left hlt, hi]

theorem length_le_flatMap {α β : Type} {f : α → List β} (h : ∀ x, 0 < (f x).length)
    (xs : List α) : xs.length ≤ (xs.flatMap f).length := by
  induction xs with
  | nil => exact Nat.le_refl _
  | cons x xs ih =>
    have hpos := h x
    rw [List.flatMap_cons, List.length_append, List.length_cons]
    omega

theorem length_le_flatMap_of_mem {α β : Type} {f : α → List β} {x : α} {xs : List α}
    (hx : x ∈ xs) : (f x).length ≤ (xs.flatMap f).length := by
  induction xs with
  | nil => cases hx
  | cons y xs ih =>
    rw [List.flatMap_cons, List.length_append]
    rcases List.mem_cons.1 hx with rfl | hx
    · omega
    · have := ih hx
      omega

theorem map_eq_self_iff {α : Type} {g : α → α} {xs : List α} :
    xs.map g = xs ↔ ∀ x ∈ xs, g x = x := by
  simpa only [List.map_id, id_eq] using @List.map_inj_left α α xs g id

theorem getElem?_concat_eq_some_iff {α : Type} {xs : List α} {x y : α} {j : Nat} :
    (xs ++ [x])[j]? = some y ↔ xs[j]? = some y ∨ j = xs.length ∧ y = x := by
  grind

def FirstOf {α : Type} (p : α → Prop) (xs : List α) (x : α) : Prop :=
  ∃ before after, xs = before ++ x :: after ∧ p x ∧ ∀ y ∈ before, ¬ p y

theorem firstOf_cons {α : Type} {p : α → Prop} {x y : α} {xs : List α} :
    FirstOf p (x :: xs) y ↔ (p x ∧ y = x) ∨ (¬ p x ∧ FirstOf p xs y) := by
  constructor
  · rintro ⟨_ | ⟨z, before⟩, after, hall, hy, hbefore⟩
    · obtain ⟨rfl, -⟩ := List.cons.inj hall
      exact .inl ⟨hy, rfl⟩
    · obtain ⟨rfl, hxs⟩ := List.cons.inj hall
      obtain ⟨hx, hbefore⟩ := List.forall_mem_cons.1 hbefore
      exact .inr ⟨hx, before, after, hxs, hy, hbefore⟩
  · rintro (⟨hx, rfl⟩ | ⟨hx, before, after, rfl, hy, hbefore⟩)
    · exact ⟨[], xs, rfl, hx, nofun⟩
    · exact ⟨x :: before, after, rfl, hy, List.forall_mem_cons.2 ⟨hx, hbefore⟩⟩

theorem findSome?_zipIdx_eq_some_iff {α β : Type} {g : α × Nat → Option β} {xs : List α} {b : β} :
    xs.zipIdx.findSome? g = some b ↔ ∃ n x, xs[n]? = some x ∧ g (x, n) = some b ∧
      ∀ k y, k < n → xs[k]? = some y → g (y, k) = none := by
  rw [List.findSome?_eq_some_iff]
  have hget (k : Nat) (y : α × Nat) : xs.zipIdx[k]? = some y ↔ xs[k]? = some y.1 ∧ y.2 = k := by
    rw [List.getElem?_zipIdx, Option.map_eq_some_iff]
    simp only [Nat.zero_add, Prod.ext_iff]
    grind
  constructor
  · rintro ⟨before, ⟨x, n⟩, after, hall, hb, hbefore⟩
    have hx : xs.zipIdx[before.length]? = some (x, n) := by
      rw [hall, List.getElem?_append_right (Nat.le_refl _), Nat.sub_self]
      rfl
    obtain ⟨hx, rfl⟩ := (hget _ _).1 hx
    refine ⟨_, x, hx, hb, fun k y hk hy => hbefore _ (List.mem_of_getElem? (i := k) ?_)⟩
    rw [← List.getElem?_append_left hk, ← hall, (hget k (y, k)).2 ⟨hy, rfl⟩]
  · rintro ⟨n, x, hx, hb, hbefore⟩
    have hx := (hget n (x, n)).2 ⟨hx, rfl⟩
    obtain ⟨hn, hat⟩ := List.getElem?_eq_some_iff.1 hx
    refine ⟨xs.zipIdx.take n, (x, n), xs.zipIdx.drop (n + 1), ?_, hb, fun ⟨y, k⟩ hy => ?_⟩
    · rw [← hat, List.getElem_cons_drop, List.take_append_drop]
    · obtain ⟨j, hj⟩ := List.mem_iff_getElem?.1 hy
      rw [List.getElem?_take] at hj
      split at hj
      next hjn =>
        obtain ⟨hy, rfl⟩ := (hget j _).1 hj
        exact hbefore _ y hjn hy
      next => cases hj

/-- The error of a sequence is that of the first action which fails. -/
theorem forM_eq_error_iff {ε α : Type} {act : α → Except ε Unit} {xs : List α} {e : ε} :
    xs.forM act = .error e ↔ ∃ x, FirstOf (act · ≠ .ok ()) xs x ∧ act x = .error e := by
  induction xs with
  | nil => exact ⟨nofun, fun ⟨_, ⟨before, after, hnil, _⟩, _⟩ => by simp at hnil⟩
  | cons x xs ih =>
    change (act x >>= fun _ => xs.forM act) = .error e ↔ _
    simp only [firstOf_cons]
    cases hx : act x with
    | ok u =>
      change xs.forM act = .error e ↔ _
      simpa using ih
    | error e' =>
      constructor
      · rintro ⟨⟩
        exact ⟨x, .inl ⟨nofun, rfl⟩, hx⟩
      · rintro ⟨y, ⟨-, rfl⟩ | ⟨hx, -⟩, hy⟩
        · rw [← hx, hy]
          rfl
        · exact absurd nofun hx

theorem bind_eq_ok_iff {ε α β : Type} {x : Except ε α} {f : α → Except ε β} {b : β} :
    (x >>= f) = .ok b ↔ ∃ a, x = .ok a ∧ f a = .ok b := by
  cases x <;> simp [bind, Except.bind]

theorem mapM_eq_ok_iff {ε α β : Type} {f : α → Except ε β} {xs : List α} {ys : List β} :
    xs.mapM f = .ok ys ↔ List.Forall₂ (fun x y => f x = .ok y) xs ys := by
  induction xs generalizing ys with
  | nil => cases ys <;> simp [pure, Except.pure]
  | cons x xs ih =>
    rw [List.mapM_cons]
    cases hx : f x with
    | error e => cases ys <;> simp [bind, Except.bind, hx]
    | ok y =>
      cases hxs : xs.mapM f with
      | error e => cases ys <;> simp [bind, Except.bind, ← ih, hxs, hx]
      | ok rest => cases ys <;> simp [bind, Except.bind, pure, Except.pure, ← ih, hxs, hx]

theorem lookup_eq_some_iff_of_nodup {α β : Type} [BEq α] [LawfulBEq α] {xs : List (α × β)}
    (h : (xs.map Prod.fst).Nodup) {k : α} {v : β} : xs.lookup k = some v ↔ (k, v) ∈ xs := by
  induction xs with
  | nil => simp
  | cons x xs ih =>
    obtain ⟨k', v'⟩ := x
    obtain ⟨hfresh, h⟩ := List.nodup_cons.1 h
    by_cases hk : k = k'
    · subst hk
      have hnot : (k, v) ∉ xs := fun hmem => hfresh (List.mem_map.2 ⟨_, hmem, rfl⟩)
      simp [hnot, eq_comm]
    · rw [List.lookup_cons, beq_eq_false_iff_ne.2 hk]
      simp [hk, ih h]

theorem bind_of_ok {ε σ α β : Type} {x : EStateM ε σ α} {f : α → EStateM ε σ β} {s s' : σ} {a : α}
    (hx : x s = .ok a s') : (x >>= f) s = f a s' := by
  simp only [bind, EStateM.bind, hx]

theorem bind_get {ε σ β : Type} (f : σ → EStateM ε σ β) (s : σ) : (get >>= f) s = f s s := rfl

theorem bind_of_error {ε σ α β : Type} {x : EStateM ε σ α} {f : α → EStateM ε σ β} {s s' : σ}
    {e : ε} (hx : x s = .error e s') : (x >>= f) s = .error e s' := by
  simp only [bind, EStateM.bind, hx]

theorem error_of_bind {ε σ α β : Type} {x : EStateM ε σ α} {f : α → EStateM ε σ β} {s s' : σ}
    {e : ε} (h : (x >>= f) s = .error e s') :
    x s = .error e s' ∨ ∃ a t, x s = .ok a t ∧ f a t = .error e s' := by
  simp only [bind, EStateM.bind] at h
  split at h
  · exact .inr ⟨_, _, by assumption, h⟩
  · cases h
    exact .inl (by assumption)

theorem ok_of_bind {ε σ α β : Type} {x : EStateM ε σ α} {f : α → EStateM ε σ β} {s s' : σ} {b : β}
    (h : (x >>= f) s = .ok b s') : ∃ a t, x s = .ok a t ∧ f a t = .ok b s' := by
  simp only [bind, EStateM.bind] at h
  split at h
  · exact ⟨_, _, by assumption, h⟩
  · cases h

end StackMachine
