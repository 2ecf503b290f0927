import StackMachine.Proofs.Heap.Contents
import StackMachine.Proofs.Lists

/-! Heaps that are the same up to the names of their objects. A renaming pairs handles of one heap
with handles of another, one to one, so that paired objects have the same field names and paired
values. It says nothing about objects outside it, so it may shrink at any time; that is how it
outlives a collection. -/

namespace StackMachine

/-- Equal, but that handles are paired. Of the other values those in `word` occur. -/
inductive Value.Renamed (word : Value → Prop) (pairs : ObjectRef → ObjectRef → Prop) :
    Value → Value → Prop
  | word {v : Value} : v.asRef? = none → word v → Renamed word pairs v v
  | ref {r₁ r₂ : ObjectRef} : pairs r₁ r₂ → Renamed word pairs (.ref r₁) (.ref r₂)

theorem Value.Renamed.mono {word : Value → Prop} {pairs pairs' : ObjectRef → ObjectRef → Prop}
    {v₁ v₂ : Value} (hv : Value.Renamed word pairs v₁ v₂)
    (hp : ∀ r₁ r₂, pairs r₁ r₂ → pairs' r₁ r₂) : Value.Renamed word pairs' v₁ v₂ := by
  cases hv with
  | word hn hw => exact .word hn hw
  | ref h => exact .ref (hp _ _ h)

namespace Heap

structure Renaming (word : Value → Prop) (pairs : ObjectRef → ObjectRef → Prop) (h₁ h₂ : Heap) :
    Prop where
  oneToOne : ∀ {p₁ p₂ q₁ q₂}, pairs p₁ p₂ → pairs q₁ q₂ → (p₁ = q₁ ↔ p₂ = q₂)
  contents : ∀ {r₁ r₂}, pairs r₁ r₂ → ∃ names vs₁ vs₂, h₁.contents? r₁ = some ⟨names, vs₁⟩ ∧
    h₂.contents? r₂ = some ⟨names, vs₂⟩ ∧ List.Forall₂ (Value.Renamed word pairs) vs₁ vs₂

variable {word : Value → Prop} {pairs : ObjectRef → ObjectRef → Prop}
  {h₁ h₂ h₁' h₂' : Heap}

theorem renaming_empty (h₁ h₂ : Heap) : Renaming word (fun _ _ => False) h₁ h₂ where
  oneToOne h := h.elim
  contents h := h.elim

theorem Renaming.updated (hr : Renaming word pairs h₁ h₂) {r₁ r₂ : ObjectRef} (hp : pairs r₁ r₂)
    {names : List FieldId} {vs₁ vs₂ : List Value} (hu₁ : Updated h₁ h₁' r₁ ⟨names, vs₁⟩)
    (hu₂ : Updated h₂ h₂' r₂ ⟨names, vs₂⟩)
    (hvs : List.Forall₂ (Value.Renamed word pairs) vs₁ vs₂) :
    Renaming word pairs h₁' h₂' where
  oneToOne := hr.oneToOne
  contents {q₁ q₂} hq := by
    rw [hu₁.contents, hu₂.contents]
    by_cases h : q₁ = r₁
    · rw [if_pos h, if_pos ((hr.oneToOne hq hp).1 h)]
      exact ⟨names, vs₁, vs₂, rfl, rfl, hvs⟩
    · rw [if_neg h, if_neg (mt (hr.oneToOne hq hp).2 h)]
      exact hr.contents hq

def reached (pairs : ObjectRef → ObjectRef → Prop) (h₁ h₂ : Heap) (roots₁ roots₂ : Array Value)
    (r₁ r₂ : ObjectRef) : Prop :=
  pairs r₁ r₂ ∧ h₁.Reaches roots₁ r₁ ∧ h₂.Reaches roots₂ r₂

section Reached

variable {roots₁ roots₂ : Array Value}

theorem renamed_reached_of_root (hr : Renaming word pairs h₁ h₂) {v₁ v₂ : Value}
    (hv₁ : v₁ ∈ roots₁) (hv₂ : v₂ ∈ roots₂) (hv : Value.Renamed word pairs v₁ v₂) :
    Value.Renamed word (reached pairs h₁ h₂ roots₁ roots₂) v₁ v₂ := by
  cases hv with
  | word hn hw => exact .word hn hw
  | ref hp =>
    obtain ⟨names, vs₁, vs₂, hc₁, hc₂, -⟩ := hr.contents hp
    exact .ref ⟨hp, .of_root hv₁ hc₁, .of_root hv₂ hc₂⟩

/-- What the roots reach is all that a renaming needs. -/
theorem Renaming.reached (hr : Renaming word pairs h₁ h₂) (roots₁ roots₂ : Array Value) :
    Renaming word (Heap.reached pairs h₁ h₂ roots₁ roots₂) h₁ h₂ where
  oneToOne hp hq := hr.oneToOne hp.1 hq.1
  contents {r₁ r₂} hp := by
    obtain ⟨hp, hr₁, hr₂⟩ := hp
    obtain ⟨names, vs₁, vs₂, hc₁, hc₂, hvs⟩ := hr.contents hp
    refine ⟨names, vs₁, vs₂, hc₁, hc₂, forall₂_of_mem hvs fun v₁ hv₁ v₂ hv₂ hv => ?_⟩
    cases hv with
    | word hn hw => exact .word hn hw
    | ref hq =>
      obtain ⟨_, _, _, hd₁, hd₂, -⟩ := hr.contents hq
      exact .ref ⟨hq, hr₁.of_values hc₁ hv₁ hd₁, hr₂.of_values hc₂ hv₂ hd₂⟩

end Reached

theorem Renaming.of_contents (hr : Renaming word pairs h₁ h₂)
    (hc₁ : ∀ {r₁ r₂}, pairs r₁ r₂ → h₁'.contents? r₁ = h₁.contents? r₁)
    (hc₂ : ∀ {r₁ r₂}, pairs r₁ r₂ → h₂'.contents? r₂ = h₂.contents? r₂) :
    Renaming word pairs h₁' h₂' where
  oneToOne := hr.oneToOne
  contents hp := by
    rw [hc₁ hp, hc₂ hp]
    exact hr.contents hp

def extended (pairs : ObjectRef → ObjectRef → Prop) (p₁ p₂ r₁ r₂ : ObjectRef) : Prop :=
  pairs r₁ r₂ ∨ r₁ = p₁ ∧ r₂ = p₂

theorem Renaming.extended (hr : Renaming word pairs h₁ h₂) {p₁ p₂ : ObjectRef}
    (hnew₁ : ∀ {r₁ r₂}, pairs r₁ r₂ → r₁ ≠ p₁) (hnew₂ : ∀ {r₁ r₂}, pairs r₁ r₂ → r₂ ≠ p₂)
    (hc₁ : h₁.contents? p₁ = some ⟨[], []⟩) (hc₂ : h₂.contents? p₂ = some ⟨[], []⟩) :
    Renaming word (Heap.extended pairs p₁ p₂) h₁ h₂ where
  oneToOne {a₁ a₂ b₁ b₂} ha hb := by
    rcases ha with ha | ⟨rfl, rfl⟩ <;> rcases hb with hb | ⟨rfl, rfl⟩
    · exact hr.oneToOne ha hb
    · exact iff_of_false (hnew₁ ha) (hnew₂ ha)
    · exact iff_of_false (hnew₁ hb).symm (hnew₂ hb).symm
    · exact iff_of_true rfl rfl
  contents {r₁ r₂} hp := by
    rcases hp with hp | ⟨rfl, rfl⟩
    · obtain ⟨names, vs₁, vs₂, hd₁, hd₂, hvs⟩ := hr.contents hp
      exact ⟨names, vs₁, vs₂, hd₁, hd₂, hvs.imp fun _ _ hv => hv.mono fun _ _ => .inl⟩
    · exact ⟨[], [], [], hc₁, hc₂, .nil⟩

end Heap

end StackMachine
