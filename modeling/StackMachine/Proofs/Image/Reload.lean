import StackMachine.Proofs.Image.Saving
import StackMachine.Proofs.Image.Sealed
import StackMachine.Proofs.Lists

/-! Saving a decoded module and loading it again. This always succeeds, and it is harmless when no
text of the module ends with NUL. The first decoding drops one NUL only, so a text may still end
with one; the encoder then drops a second and the second decoding a third. -/

namespace StackMachine

theorem Text.length_dropNul_le (s : String) :
    (Text.dropNul s).toList.length ≤ s.toList.length := by
  unfold Text.dropNul
  split
  · rw [String.toList_ofList, List.length_dropLast]
    omega
  · exact Nat.le_refl _

theorem Text.dropNul_of_ne {s : String} (hs : s.toList.getLast? ≠ some '\x00') :
    Text.dropNul s = s := if_neg hs

theorem Text.dropNul_dropNul_eq_iff (s : String) :
    Text.dropNul (Text.dropNul s) = s ↔ s.toList.getLast? ≠ some '\x00' := by
  constructor
  · intro h hlast
    have houter := Text.length_dropNul_le (Text.dropNul s)
    have hinner : (Text.dropNul s).toList.length = s.toList.length - 1 := by
      rw [Text.dropNul, if_pos hlast, String.toList_ofList, List.length_dropLast]
    have hpos : 0 < s.toList.length := by
      apply List.length_pos_iff.2
      intro hnil
      rw [hnil] at hlast
      cases hlast
    rw [h] at houter
    omega
  · intro hs
    rw [Text.dropNul_of_ne hs, Text.dropNul_of_ne hs]

theorem Module.dropNuls_dropNuls_eq_iff (m : Module) :
    m.dropNuls.dropNuls = m ↔ ∀ s ∈ m.texts, s.toList.getLast? ≠ some '\x00' := by
  obtain ⟨fs, ss⟩ := m
  simp only [Module.dropNuls, Module.texts, Module.mk.injEq, List.map_map, map_eq_self_iff,
    List.mem_append, List.mem_map]
  constructor
  · rintro ⟨hf, hs⟩ s (⟨f, hmem, rfl⟩ | hmem)
    · exact (Text.dropNul_dropNul_eq_iff _).1 (congrArg Func.name (hf f hmem))
    · exact (Text.dropNul_dropNul_eq_iff s).1 (hs s hmem)
  · intro h
    refine ⟨fun f hf => ?_, fun s hs => (Text.dropNul_dropNul_eq_iff s).2 (h s (.inr hs))⟩
    have hname := (Text.dropNul_dropNul_eq_iff f.name).2 (h _ (.inl ⟨f, hf, rfl⟩))
    simp only [Function.comp_apply, hname]

namespace Image

theorem ended_dropNuls {m : Module} (hm : ∀ f ∈ m.functions, Ended f.code) :
    ∀ f ∈ m.dropNuls.functions, Ended f.code := by
  intro f hf
  obtain ⟨g, hg, rfl⟩ := List.mem_map.1 hf
  exact hm g hg

theorem written_of_ended {m : Module} (hm : ∀ f ∈ m.functions, Ended f.code) :
    m.written = m.dropNuls := by
  have hfunctions : m.functions.map Func.written = m.dropNuls.functions := by
    apply List.map_congr_left
    intro f hf
    rw [Func.written, body_ended (hm f hf)]
  rw [Module.written, hfunctions]
  rfl

/-- A decoded module can be encoded, and what comes back has two NULs less at the end of each text
that ends with them. It is the same module just when no text ends with NUL. -/
theorem decode_encode_of_decode {b : List UInt8} {m : Module} {a : Arena}
    (h : decode b = .ok (m, a)) (hsize : (payload m.dropNuls).length < 0x100000000) :
    ∃ bytes, encode m = .ok bytes ∧
      decode bytes = .ok (m.dropNuls.dropNuls, .ofModule m.dropNuls.dropNuls) ∧
      (m.dropNuls.dropNuls = m ↔ ∀ s ∈ m.texts, s.toList.getLast? ≠ some '\x00') := by
  have hended := ended_of_decode h
  have hfits : Fits m.dropNuls := ⟨ended_dropNuls hended, hsize⟩
  have hwritten := written_of_ended hended
  have hencode := encode_of_fits (m := m) (by rwa [hwritten])
  rw [hwritten] at hencode
  exact ⟨_, hencode, decode_payload _ hfits, m.dropNuls_dropNuls_eq_iff⟩

def doubleNul : List UInt8 :=
  [23, 0, 0, 0, 98, 57, 109, 111, 100, 117, 108, 101, 2, 0, 0, 0, 1, 0, 0, 0,
   3, 0, 0, 0, 97, 0, 0]

theorem decode_doubleNul :
    decode doubleNul = .ok (⟨[], ["a\x00"]⟩, .ofModule ⟨[], ["a\x00"]⟩) := rfl

theorem decode_encode_of_decode_doubleNul :
    decode doubleNul = .ok (⟨[], ["a\x00"]⟩, .ofModule ⟨[], ["a\x00"]⟩) ∧
    (payload (Module.dropNuls ⟨[], ["a\x00"]⟩)).length < 0x100000000 ∧
    ∃ bytes, encode ⟨[], ["a\x00"]⟩ = .ok bytes ∧
      decode bytes = .ok (⟨[], ["a"]⟩, .ofModule ⟨[], ["a"]⟩) := by
  have hsize : (payload (Module.dropNuls ⟨[], ["a\x00"]⟩)).length < 0x100000000 := by decide
  have hnuls : (Module.dropNuls ⟨[], ["a\x00"]⟩).dropNuls = ⟨[], ["a"]⟩ := by decide
  obtain ⟨bytes, hencode, hreload, -⟩ := decode_encode_of_decode decode_doubleNul hsize
  rw [hnuls] at hreload
  exact ⟨decode_doubleNul, hsize, bytes, hencode, hreload⟩

/-- Not every decoded module comes back as it was. -/
theorem not_decode_encode : ¬ ∀ b m a, decode b = .ok (m, a) →
    (payload m.dropNuls).length < 0x100000000 →
    ∃ bytes a', encode m = .ok bytes ∧ decode bytes = .ok (m, a') := by
  intro h
  obtain ⟨bytes, a, hencode, hreload⟩ := h _ _ _ decode_doubleNul (by decide)
  have hbytes : encode ⟨[], ["a\x00"]⟩ = .ok
      [21, 0, 0, 0, 98, 57, 109, 111, 100, 117, 108, 101, 2, 0, 0, 0, 1, 0, 0, 0,
       1, 0, 0, 0, 97] := rfl
  rw [hbytes, Except.ok.injEq] at hencode
  have hstripped : decode bytes = .ok (⟨[], ["a"]⟩, .ofModule ⟨[], ["a"]⟩) := by
    rw [← hencode]
    rfl
  rw [hstripped] at hreload
  simp at hreload

end Image

end StackMachine
