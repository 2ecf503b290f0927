import StackMachine.Proofs.Image.Recognition

/-! What the decoder gives can be written again: the records of a file have their sentinels and
lengths that fit into a word, and a text that loses a NUL gets no longer. -/

namespace StackMachine.Image

theorem length_stripNul_le (bs : List UInt8) : (stripNul bs).length ≤ bs.length := by
  unfold stripNul
  split
  · rw [List.length_dropLast]
    omega
  · exact Nat.le_refl _

theorem size_dropNul_le (s : String) : (Text.dropNul s).utf8ByteSize ≤ s.utf8ByteSize := by
  rw [← length_textBytes, ← length_textBytes, ← stripNul_textBytes]
  exact length_stripNul_le _

theorem writable_dropNul {r : Record} (h : r.Writable) : r.dropNul.Writable := by
  cases r with
  | function f => exact ⟨h.1, Nat.lt_of_le_of_lt (size_dropNul_le f.name) h.2⟩
  | string s => exact Nat.lt_of_le_of_lt (size_dropNul_le s) h

theorem mem_of_mem_records {rs : List Record} {r : Record}
    (h : r ∈ (Module.ofRecords rs).records) : r ∈ rs := by
  simp only [Module.records, Module.ofRecords, List.mem_append, List.mem_map,
    List.mem_filterMap] at h
  obtain ⟨f, ⟨q, hq, hqf⟩, rfl⟩ | ⟨t, ⟨q, hq, hqt⟩, rfl⟩ := h
  · cases q <;> cases hqf
    exact hq
  · cases q <;> cases hqt
    exact hq

theorem writable_of_decode {b : List UInt8} {m : Module} {a : Arena} (h : decode b = .ok (m, a)) :
    ∀ r ∈ m.records, r.Writable := by
  obtain ⟨front, ss, hfile⟩ := exists_isFile_of_decode h
  obtain ⟨size, rfl⟩ := exists_wordBytes hfile.length_front
  rw [hfile.bytes, decode_sections size hfile.sections] at h
  cases h
  intro r hr
  obtain ⟨q, hq, rfl⟩ := List.mem_map.1 (mem_of_mem_records hr)
  obtain ⟨s, hs, hq⟩ := List.mem_flatMap.1 hq
  exact writable_dropNul ((hfile.sections s hs).1 q hq)

theorem ended_of_decode {b : List UInt8} {m : Module} {a : Arena} (h : decode b = .ok (m, a)) :
    ∀ f ∈ m.functions, Ended f.code := fun _ hf =>
  (writable_of_decode h _ (List.mem_append_left _ (List.mem_map_of_mem hf))).1

end StackMachine.Image
