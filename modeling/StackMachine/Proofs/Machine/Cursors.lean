import StackMachine.Proofs.Lists
import StackMachine.Proofs.Machine.Invariants

/-! Cursors into the operand stack. A cursor is a bare height and may outlive the values over which
it was taken. Whatever an operation does, it cuts values off the top, puts values on it within the
limit or overwrites some in place; so the values below a cursor are those of its time as long as the
height has stayed at the cursor or above and nothing was written below it. -/

namespace StackMachine

namespace Stack

inductive Operation where
  | push (v : Value)
  | pop
  | popTwo
  | peek
  | pushZeros (n : Nat)
  | top
  | cursorAt (height : Nat)
  | restore (cursor : Nat)
  | get (index : Nat)
  | set (index : Nat) (v : Value)
  | edit (f : Array Value → Nat → Value)

namespace Operation

/-- What the operation does, without its result. -/
def act : Operation → StackOp Unit
  | .push v => Stack.push v
  | .pop => discard Stack.pop
  | .popTwo => discard Stack.popTwo
  | .peek => discard Stack.peek
  | .pushZeros n => Stack.pushZeros n
  | .top => discard Stack.top
  | .cursorAt height => discard (Stack.cursorAt height)
  | .restore cursor => Stack.restore cursor
  | .get index => discard (Stack.get index)
  | .set index v => Stack.set index v
  | .edit f => Stack.edit f

/-- The stack after the operation, which may have failed. -/
def apply (s : Stack) (op : Operation) : Stack :=
  match op.act s with
  | .ok _ t => t
  | .error _ t => t

/-- The operation writes to a slot below `k`. An edit in place writes where it changes something. -/
def Touches (k : Nat) (s : Stack) : Operation → Prop
  | .set index _ => index < k
  | .edit f => ∃ i v, i < k ∧ s.values[i]? = some v ∧ f s.values i ≠ v
  | _ => False

/-- All that an operation can do to a stack. -/
inductive Change (op : Operation) (s : Stack) : Stack → Prop
  | cut {vs : Array Value} : vs.toList <+: s.values.toList → Change op s { s with values := vs }
  | grown {vs : Array Value} : vs.size ≤ s.limit - s.height →
      Change op s { s with values := s.values ++ vs }
  | overwritten {vs : Array Value} : vs.size = s.height →
      (∀ k i, i < k → ¬ op.Touches k s → vs[i]? = s.values[i]?) →
      Change op s { s with values := vs }

/-- In the course of these operations the height stays at `k` or above, and nothing is written to a
slot below `k`. -/
structure Undisturbed (k : Nat) (s : Stack) (ops : List Operation) : Prop where
  height : ∀ done, done <+: ops → k ≤ (done.foldl apply s).height
  spared : ∀ done op, done ++ [op] <+: ops → ¬ op.Touches k (done.foldl apply s)

end Operation

/-- A cursor to the height `k` can be taken. -/
def Takes (s : Stack) (k : Nat) : Prop := top s = .ok k s ∨ ∃ height, cursorAt height s = .ok k s

open Operation

variable {s t : Stack} {op : Operation} {e : Fault} {k limit : Nat}

section Step

theorem ok_of_discard {α : Type} {x : StackOp α} (h : (discard x : StackOp Unit) s = .ok () t) :
    ∃ a, x s = .ok a t := by
  obtain ⟨a, t', hx, ⟨⟩⟩ := ok_of_bind (f := fun _ => pure ()) h
  exact ⟨a, hx⟩

theorem error_of_discard {α : Type} {x : StackOp α}
    (h : (discard x : StackOp Unit) s = .error e t) : x s = .error e t := by
  rcases error_of_bind (f := fun _ => pure ()) h with h | ⟨a, t', -, ⟨⟩⟩
  exact h

theorem ok_of_pop {v : Value} (h : pop s = .ok v t) :
    0 < s.height ∧ t = { s with values := s.values.pop } := by
  unfold pop at h
  split at h
  next w hback =>
    cases h
    obtain ⟨vs, hvs⟩ := Array.back?_eq_some_iff.1 hback
    refine ⟨?_, rfl⟩
    rw [height, hvs, Array.size_push]
    exact Nat.succ_pos _
  next => cases h

theorem error_of_pop (h : pop s = .error e t) : s.height = 0 ∧ t = s := by
  unfold pop at h
  split at h
  next => cases h
  next hback =>
    cases h
    exact ⟨Array.size_eq_zero_iff.2 (Array.back?_eq_none_iff.1 hback), rfl⟩

theorem prefix_pop (vs : Array Value) : vs.pop.toList <+: vs.toList := by
  rw [Array.toList_pop]
  exact List.dropLast_prefix _

theorem change_of_ok (h : op.act s = .ok () t) : op.Change s t := by
  cases op with
  | push v =>
    simp only [act, Stack.push] at h
    split at h
    next hroom =>
      cases h
      rw [← Array.append_singleton]
      exact .grown (Nat.sub_pos_of_lt hroom)
    next => cases h
  | pop =>
    obtain ⟨v, hpop⟩ := ok_of_discard h
    obtain ⟨-, rfl⟩ := ok_of_pop hpop
    exact .cut (prefix_pop _)
  | popTwo =>
    obtain ⟨v, hpop⟩ := ok_of_discard h
    obtain ⟨right, s', hright, hpop⟩ := ok_of_bind hpop
    obtain ⟨left, s'', hleft, ⟨⟩⟩ := ok_of_bind hpop
    obtain ⟨-, rfl⟩ := ok_of_pop hright
    obtain ⟨-, rfl⟩ := ok_of_pop hleft
    exact .cut ((prefix_pop _).trans (prefix_pop _))
  | pushZeros n =>
    simp only [act, Stack.pushZeros] at h
    split at h
    next hroom =>
      cases h
      exact .grown (by rwa [Array.size_replicate])
    next => cases h
  | top =>
    obtain ⟨v, ⟨⟩⟩ := ok_of_discard h
    exact .cut (List.prefix_refl _)
  | restore cursor =>
    simp only [act, Stack.restore] at h
    split at h
    next hle =>
      cases h
      refine .cut ?_
      rw [Array.toList_shrink]
      exact List.take_prefix _ _
    next => cases h
  | peek | cursorAt | get =>
    obtain ⟨v, hread⟩ := ok_of_discard h
    simp only [Stack.peek, Stack.cursorAt, Stack.get] at hread
    split at hread <;> cases hread
    exact .cut (List.prefix_refl _)
  | set index v =>
    simp only [act, Stack.set] at h
    split at h
    next hlt =>
      cases h
      refine .overwritten (Array.size_setIfInBounds ..) fun k i hi hspared => ?_
      rw [Array.getElem?_setIfInBounds_ne]
      rintro rfl
      exact hspared hi
    next => cases h
  | edit f =>
    cases h
    refine .overwritten (Array.size_mapIdx ..) fun k i hi hspared => ?_
    rw [Array.getElem?_mapIdx]
    cases hv : s.values[i]? with
    | none => rfl
    | some v =>
      by_contra hne
      exact hspared ⟨i, v, hi, hv, fun heq => hne (congrArg some heq)⟩

/-- Only `popTwo` can fail with an effect: it takes the single value that there is. -/
theorem eq_or_popTwo_of_error (h : op.act s = .error e t) :
    t = s ∨ op = .popTwo ∧ s.height = 1 ∧ t = { s with values := #[] } := by
  cases op with
  | popTwo =>
    rcases error_of_bind (error_of_discard h) with hright | ⟨right, s', hright, hrest⟩
    · exact .inl (error_of_pop hright).2
    · obtain ⟨hpos, rfl⟩ := ok_of_pop hright
      rcases error_of_bind hrest with hleft | ⟨left, s'', -, ⟨⟩⟩
      obtain ⟨hempty, rfl⟩ := error_of_pop hleft
      have hpopped : s.values.pop = #[] := Array.size_eq_zero_iff.1 hempty
      rw [height, Array.size_pop] at hempty
      rw [height] at hpos
      refine .inr ⟨rfl, ?_, by rw [hpopped]⟩
      rw [height]
      omega
  | pop => exact .inl (error_of_pop (error_of_discard h)).2
  | top => cases error_of_discard h
  | edit f => cases h
  | peek | cursorAt | get =>
    have h := error_of_discard h
    simp only [Stack.peek, Stack.cursorAt, Stack.get] at h
    split at h <;> cases h
    exact .inl rfl
  | push | pushZeros | restore | set =>
    simp only [act, Stack.push, Stack.pushZeros, Stack.restore, Stack.set] at h
    split at h <;> cases h
    exact .inl rfl

theorem change_apply (op : Operation) (s : Stack) : op.Change s (op.apply s) := by
  unfold Operation.apply
  cases h : op.act s with
  | ok u t => exact change_of_ok h
  | error e t =>
    rcases eq_or_popTwo_of_error h with rfl | ⟨-, -, rfl⟩
    · exact .cut (List.prefix_refl _)
    · exact .cut (List.nil_prefix)

theorem Operation.Change.within (h : op.Change s t) (hs : s.Within limit) : t.Within limit := by
  obtain ⟨rfl, hheight⟩ := hs
  refine ⟨by cases h <;> rfl, ?_⟩
  cases h with
  | cut hprefix => exact Nat.le_trans hprefix.length_le hheight
  | grown hroom =>
    -- the room is the true difference, since the height was within the limit
    rw [height, Array.size_append]
    exact Nat.add_le_of_le_sub' hheight hroom
  | overwritten hsize =>
    rw [height, hsize]
    exact hheight

theorem Operation.Change.take (h : op.Change s t) (hs : k ≤ s.height) (ht : k ≤ t.height)
    (hspared : ¬ op.Touches k s) : t.values.toList.take k = s.values.toList.take k := by
  cases h with
  | cut hprefix =>
    obtain ⟨rest, hrest⟩ := hprefix
    rw [← hrest, List.take_append_of_le_length ht]
  | grown => rw [Array.toList_append, List.take_append_of_le_length hs]
  | overwritten _ hsame =>
    refine List.ext_getElem? fun i => ?_
    rw [List.getElem?_take, List.getElem?_take]
    split
    next hi => simpa only [Array.getElem?_toList] using hsame k i hi hspared
    next => rfl

end Step

section History

variable {ops : List Operation}

theorem within_foldl (h : s.Within limit) (ops : List Operation) :
    (ops.foldl Operation.apply s).Within limit := by
  induction ops generalizing s with
  | nil => exact h
  | cons op ops ih => exact ih ((change_apply op s).within h)

theorem undisturbed_nil : Undisturbed k s [] ↔ k ≤ s.height := by
  constructor
  · intro h
    exact h.height [] (List.prefix_refl _)
  · intro h
    refine ⟨fun done hdone => ?_, fun done op hdone => ?_⟩
    · rw [List.prefix_nil.1 hdone]
      exact h
    · simp at hdone

theorem undisturbed_cons : Undisturbed k s (op :: ops) ↔
    k ≤ s.height ∧ ¬ op.Touches k s ∧ Undisturbed k (op.apply s) ops := by
  constructor
  · intro h
    refine ⟨h.height [] List.nil_prefix, h.spared [] op (by simp), fun done hdone => ?_,
      fun done op' hdone => ?_⟩
    · exact h.height (op :: done) (List.cons_prefix_cons.2 ⟨rfl, hdone⟩)
    · exact h.spared (op :: done) op' (List.cons_prefix_cons.2 ⟨rfl, hdone⟩)
  · rintro ⟨hheight, hspared, h⟩
    refine ⟨fun done hdone => ?_, fun done op' hdone => ?_⟩
    · cases done with
      | nil => exact hheight
      | cons op' done =>
        obtain ⟨rfl, hlater⟩ := List.cons_prefix_cons.1 hdone
        exact h.height done hlater
    · cases done with
      | nil =>
        obtain ⟨rfl, -⟩ := List.cons_prefix_cons.1 hdone
        exact hspared
      | cons op'' done =>
        obtain ⟨rfl, hlater⟩ := List.cons_prefix_cons.1 hdone
        exact h.spared done op' hlater

theorem take_foldl (h : Undisturbed k s ops) :
    (ops.foldl Operation.apply s).values.toList.take k = s.values.toList.take k := by
  induction ops generalizing s with
  | nil => rfl
  | cons op ops ih =>
    obtain ⟨hheight, hspared, hrest⟩ := undisturbed_cons.1 h
    have hafter := hrest.height [] List.nil_prefix
    rw [List.foldl_cons, ih hrest, (change_apply op s).take hheight hafter hspared]

end History

theorem restore_eq_ok_iff {u : Stack} :
    restore k t = .ok () u ↔ k ≤ t.height ∧ u = { t with values := t.values.take k } := by
  unfold restore
  split
  next hle => simp [hle, eq_comm, Array.shrink_eq_take]
  next hgt => simp [hgt]

theorem takes_iff : s.Takes k ↔ k ≤ s.height := by
  constructor
  · rintro (⟨⟨⟩⟩ | ⟨height, hcursor⟩)
    · exact Nat.le_refl _
    · unfold cursorAt at hcursor
      split at hcursor <;> cases hcursor
      assumption
  · intro hk
    exact .inr ⟨k, if_pos hk⟩

/-- In any history the height stays within the limit, a failure has no effect but for that of
`popTwo` on a single value, and a cursor can be restored as long as the height is not below it. That
leaves the values below the cursor, which are those of its time if the height never went below it
and nothing was written there. -/
theorem restore_of_history (limit : Nat) (before since : List Operation) :
    let s := before.foldl Operation.apply (empty limit)
    let t := since.foldl Operation.apply s
    t.Within limit ∧
      (∀ op e u, Operation.act op t = .error e u →
        u = t ∨ op = .popTwo ∧ t.height = 1 ∧ u = { t with values := #[] }) ∧
      (∀ k, s.Takes k ↔ k ≤ s.height) ∧
      (∀ k, (∃ u, restore k t = .ok () u) ↔ k ≤ t.height) ∧
      (∀ k u, restore k t = .ok () u → u = { t with values := t.values.take k }) ∧
      ∀ k, Undisturbed k s since →
        restore k t = .ok () { s with values := s.values.take k } ∧
          (k = s.height → restore k t = .ok () s) := by
  intro s t
  have hempty : (empty limit).Within limit := ⟨rfl, Nat.zero_le _⟩
  have hs : s.Within limit := within_foldl hempty before
  have ht : t.Within limit := within_foldl hs since
  refine ⟨ht, fun op e u => eq_or_popTwo_of_error, fun k => takes_iff, fun k => ?_,
    fun k u hu => (restore_eq_ok_iff.1 hu).2, fun k h => ?_⟩
  · simp only [restore_eq_ok_iff, exists_and_left, exists_eq, and_true]
  · have hvalues : t.values.take k = s.values.take k := by
      apply Array.toList_inj.1
      rw [← Array.shrink_eq_take, ← Array.shrink_eq_take, Array.toList_shrink,
        Array.toList_shrink]
      exact take_foldl h
    have hlimit : t.limit = s.limit := ht.1.trans hs.1.symm
    have hrestore : restore k t = .ok () { s with values := s.values.take k } :=
      restore_eq_ok_iff.2 ⟨h.height since (List.prefix_refl _), by rw [hvalues, hlimit]⟩
    refine ⟨hrestore, ?_⟩
    rintro rfl
    rw [hrestore, height, Array.take_eq_extract, Array.extract_size]

def pair : List Operation := [.push (.int48 1), .push (.uint48 2)]

/-- Above the pair slots are added, one of them is overwritten, a push fails for want of room, and
the two slots are exchanged before they are taken. -/
def abovePair : List Operation :=
  [.pushZeros 2, .set 3 (.int48 7), .push .zero,
    .edit fun vs i => vs.getD (if i < 2 then i else 5 - i) .zero, .popTwo, .push (.raw64 9)]

theorem restore_of_history_abovePair :
    let s := pair.foldl Operation.apply (empty 4)
    let t := abovePair.foldl Operation.apply s
    let single := Operation.apply s (.restore 1)
    Undisturbed 2 s abovePair ∧ t.values = #[.int48 1, .uint48 2, .raw64 9] ∧
      restore 2 t = .ok () s ∧ ¬ (∃ u, restore 4 t = .ok () u) ∧
      Operation.act .popTwo single = .error .stackUnderflow (empty 4) ∧ single.height = 1 := by
  intro s t single
  obtain ⟨-, -, -, hrestores, -, hkept⟩ := restore_of_history 4 pair abovePair
  obtain ⟨-, hfailed, -, -, -, -⟩ := restore_of_history 4 pair [.restore 1]
  have hundisturbed : Undisturbed 2 s abovePair := by
    simp only [abovePair, undisturbed_cons, undisturbed_nil]
    refine ⟨by decide, nofun, by decide, by simp [Touches], by decide, nofun, by decide, ?_,
      by decide, nofun, by decide, nofun, by decide⟩
    rintro ⟨i, v, hi, hv, hne⟩
    exact hne (by simp only [if_pos hi, Array.getD_eq_getD_getElem?, hv, Option.getD_some])
  have hfails : Operation.act .popTwo single = .error .stackUnderflow (empty 4) := rfl
  refine ⟨hundisturbed, by decide, (hkept 2 hundisturbed).2 (by decide), ?_, hfails, ?_⟩
  · exact mt (hrestores 4).1 (by decide)
  · rcases hfailed .popTwo _ _ hfails with hsame | ⟨-, hheight, -⟩
    · exact absurd hsame (by decide)
    · exact hheight

end Stack

end StackMachine
