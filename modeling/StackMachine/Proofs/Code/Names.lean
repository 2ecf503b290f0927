import Mathlib.Data.List.Induction
import Mathlib.Logic.Function.Basic
import StackMachine.Proofs.Image.Unambiguous

/-! Names of functions. A table of names that is filled function by function, the later one taking
a name over, finds the last function with a name; what stood in the table before is the closest
earlier function with it, so each function that repeats a name is reported once, with that one. -/

namespace StackMachine

/-- The greatest index of a function with the name. -/
structure IsLastNamed (fs : List Func) (name : String) (i : Nat) : Prop where
  named : ∃ f, fs[i]? = some f ∧ f.name = name
  last : ∀ j f, i < j → fs[j]? = some f → f.name ≠ name

namespace Func

variable {name : String} {fs : List Func} {f : Func} {i : Nat}

theorem lastNamed?_append (name : String) (fs gs : List Func) :
    lastNamed? name (fs ++ gs) =
      ((lastNamed? name gs).map (fs.length + ·)).or (lastNamed? name fs) := by
  simp only [lastNamed?, List.zipIdx_append, Nat.zero_add, List.filter_append,
    List.getLast?_append, Option.map_or, Option.map_map]
  rw [List.zipIdx_eq_map_add, List.filter_map, List.getLast?_map, Option.map_map]
  rfl

theorem lastNamed?_concat (name : String) (fs : List Func) (f : Func) :
    lastNamed? name (fs ++ [f]) = if f.name = name then some fs.length else lastNamed? name fs := by
  rw [lastNamed?_append]
  by_cases hname : f.name = name <;> simp [lastNamed?, hname]

theorem isLastNamed_concat_of_named (hf : f.name = name) :
    IsLastNamed (fs ++ [f]) name i ↔ i = fs.length := by
  constructor
  · rintro ⟨⟨g, hg, -⟩, hlast⟩
    rcases getElem?_concat_eq_some_iff.1 hg with hi | ⟨rfl, -⟩
    · have hlt := (List.getElem?_eq_some_iff.1 hi).1
      exact absurd hf (hlast _ f hlt List.getElem?_concat_length)
    · rfl
  · rintro rfl
    refine ⟨⟨f, List.getElem?_concat_length, hf⟩, fun j g hj hg => ?_⟩
    have hlt := (List.getElem?_eq_some_iff.1 hg).1
    rw [List.length_append, List.length_singleton] at hlt
    omega

theorem isLastNamed_concat_of_ne (hf : f.name ≠ name) :
    IsLastNamed (fs ++ [f]) name i ↔ IsLastNamed fs name i := by
  constructor
  · rintro ⟨⟨g, hg, hname⟩, hlast⟩
    rcases getElem?_concat_eq_some_iff.1 hg with hi | ⟨-, rfl⟩
    · exact ⟨⟨g, hi, hname⟩, fun j h hj hh =>
        hlast j h hj (getElem?_concat_eq_some_iff.2 (.inl hh))⟩
    · exact absurd hname hf
  · rintro ⟨⟨g, hg, hname⟩, hlast⟩
    refine ⟨⟨g, getElem?_concat_eq_some_iff.2 (.inl hg), hname⟩, fun j h hj hh => ?_⟩
    rcases getElem?_concat_eq_some_iff.1 hh with hh | ⟨-, rfl⟩
    · exact hlast j h hj hh
    · exact hf

/-- The look-up finds the last function with the name. -/
theorem lastNamed?_eq_some_iff : lastNamed? name fs = some i ↔ IsLastNamed fs name i := by
  induction fs using List.reverseRecOn with
  | nil => exact ⟨nofun, fun ⟨⟨_, hnil, _⟩, _⟩ => by simp at hnil⟩
  | append_singleton fs f ih =>
    rw [lastNamed?_concat]
    split
    next hf => exact Option.some_inj.trans (eq_comm.trans (isLastNamed_concat_of_named hf).symm)
    next hf => exact ih.trans (isLastNamed_concat_of_ne hf).symm

theorem lastNamed?_eq_none_iff : lastNamed? name fs = none ↔ ∀ f ∈ fs, f.name ≠ name := by
  induction fs using List.reverseRecOn with
  | nil => simp [lastNamed?]
  | append_singleton fs f ih =>
    rw [lastNamed?_concat]
    by_cases hname : f.name = name <;> simp [hname, ih, or_imp, forall_and]

end Func

/-- The names that the functions have so far, and the repetitions among them. -/
structure NameTable where
  index : String → Option Nat := fun _ => none
  repeats : List Duplicate := []

/-- The function takes its name; whoever had it before is reported. -/
def NameTable.enter (t : NameTable) (f : Func) (index : Nat) : NameTable where
  index := Function.update t.index f.name (some index)
  repeats := t.repeats ++
    ((t.index f.name).map fun previous => { name := f.name, previous, index }).toList

namespace Module

/-- The table that is filled function by function. -/
def nameTable (m : Module) : NameTable :=
  m.functions.zipIdx.foldl (fun t (f, index) => t.enter f index) {}

/-- A function with a name that an earlier one has, and the closest one of these. -/
structure IsRepeat (m : Module) (d : Duplicate) : Prop where
  index : ∃ f, m.functions[d.index]? = some f ∧ f.name = d.name
  previous : IsLastNamed (m.functions.take d.index) d.name d.previous

variable {m : Module} {fs : List Func} {ss : List String}

theorem duplicates_concat (fs : List Func) (f : Func) (ss : List String) :
    duplicates ⟨fs ++ [f], ss⟩ = duplicates ⟨fs, ss⟩ ++
      ((Func.lastNamed? f.name fs).map fun previous =>
        { name := f.name, previous, index := fs.length }).toList := by
  simp only [duplicates, List.zipIdx_append, List.filterMap_append]
  congr 1
  · refine List.filterMap_congr fun ⟨g, index⟩ hmem => ?_
    have hlt := (List.getElem?_eq_some_iff.1 (List.mk_mem_zipIdx_iff_getElem?.1 hmem)).1
    rw [List.take_append_of_le_length (Nat.le_of_lt hlt)]
  · cases h : Func.lastNamed? f.name fs <;> simp [h]

/-- Looking for the last function with a name and looking into the table is the same, and what
stood in the table before is what is reported. -/
theorem nameTable_eq (m : Module) :
    m.nameTable = ⟨fun name => Func.lastNamed? name m.functions, m.duplicates⟩ := by
  obtain ⟨fs, ss⟩ := m
  induction fs using List.reverseRecOn with
  | nil => rfl
  | append_singleton fs f ih =>
    have hstep : nameTable ⟨fs ++ [f], ss⟩ = (nameTable ⟨fs, ss⟩).enter f fs.length := by
      simp [nameTable, List.zipIdx_append]
    rw [hstep, ih, duplicates_concat]
    simp only [NameTable.enter, Func.lastNamed?_concat, NameTable.mk.injEq, and_true]
    funext name
    simp only [Function.update_apply, @eq_comm _ name f.name]

theorem mem_duplicates_iff {d : Duplicate} : d ∈ m.duplicates ↔ m.IsRepeat d := by
  rw [duplicates, List.mem_filterMap]
  simp only [Option.map_eq_some_iff, Func.lastNamed?_eq_some_iff]
  constructor
  · rintro ⟨⟨f, index⟩, hmem, previous, hlast, rfl⟩
    exact ⟨⟨f, List.mk_mem_zipIdx_iff_getElem?.1 hmem, rfl⟩, hlast⟩
  · obtain ⟨name, previous, index⟩ := d
    rintro ⟨⟨f, hf, rfl⟩, hlast⟩
    exact ⟨(f, index), List.mk_mem_zipIdx_iff_getElem?.2 hf, previous, hlast, rfl⟩

/-- The repetitions come in the order of the functions, at most one for each. -/
theorem duplicates_pairwise (m : Module) :
    m.duplicates.Pairwise fun d e => d.index < e.index := by
  obtain ⟨fs, ss⟩ := m
  induction fs using List.reverseRecOn with
  | nil => exact .nil
  | append_singleton fs f ih =>
    rw [duplicates_concat, List.pairwise_append]
    refine ⟨ih, ?_, fun d hd e he => ?_⟩
    · cases Func.lastNamed? f.name fs <;> simp
    · obtain ⟨⟨g, hg, -⟩, -⟩ := mem_duplicates_iff.1 hd
      obtain ⟨previous, -, rfl⟩ := Option.map_eq_some_iff.1 (Option.mem_toList.1 he)
      exact (List.getElem?_eq_some_iff.1 hg).1

/-- The function has the name of an earlier one. -/
def RepeatsName (m : Module) (i : Nat) : Prop :=
  ∃ j f g, j < i ∧ m.functions[j]? = some f ∧ m.functions[i]? = some g ∧ f.name = g.name

theorem exists_duplicate_iff {i : Nat} :
    (∃ d ∈ m.duplicates, d.index = i) ↔ m.RepeatsName i := by
  simp only [mem_duplicates_iff]
  constructor
  · rintro ⟨d, ⟨⟨g, hg, hname⟩, ⟨f, hf, hf'⟩, -⟩, rfl⟩
    rw [List.getElem?_take, Option.ite_none_right_eq_some] at hf
    exact ⟨d.previous, f, g, hf.1, hf.2, hg, hf'.trans hname.symm⟩
  · rintro ⟨j, f, g, hlt, hf, hg, hname⟩
    have hmem : f ∈ m.functions.take i :=
      List.mem_of_getElem? (i := j) (by rw [List.getElem?_take, if_pos hlt, hf])
    cases hlast : Func.lastNamed? g.name (m.functions.take i) with
    | none => exact absurd hname (Func.lastNamed?_eq_none_iff.1 hlast f hmem)
    | some previous =>
      exact ⟨⟨g.name, previous, i⟩, ⟨⟨g, hg, rfl⟩, Func.lastNamed?_eq_some_iff.1 hlast⟩, rfl⟩

/-- Names stand for functions as they should, and of repeated names the warnings speak. -/
structure ResolvesNames (m : Module) (warnings : List Event) : Prop where
  found : ∀ name i, m.functionIndex name = .ok i ↔ IsLastNamed m.functions name i
  missing : ∀ name e, m.functionIndex name = .error e ↔
    e = .functionNotFound name ∧ ∀ f ∈ m.functions, f.name ≠ name
  reachable : ∀ i f, m.function i = .ok f ↔ m.functions[i]? = some f
  declared : ∀ f ∈ m.functions, ∃ i g,
    m.functionIndex f.name = .ok i ∧ m.function i = .ok g ∧ g.name = f.name
  warned : ∃ ds : List Duplicate,
    warnings = ds.map (fun d => .duplicateName d.name d.previous d.index) ∧
      ds.Pairwise (fun d e => d.index < e.index) ∧ (∀ d, d ∈ ds ↔ m.IsRepeat d) ∧
      ∀ i, (∃ d ∈ ds, d.index = i) ↔ m.RepeatsName i

theorem functionIndex_eq_ok_iff {name : String} {i : Nat} :
    m.functionIndex name = .ok i ↔ IsLastNamed m.functions name i := by
  rw [← Func.lastNamed?_eq_some_iff]
  unfold functionIndex
  cases Func.lastNamed? name m.functions <;> simp

theorem functionIndex_eq_error_iff {name : String} {e : ModuleError} :
    m.functionIndex name = .error e ↔
      e = .functionNotFound name ∧ ∀ f ∈ m.functions, f.name ≠ name := by
  rw [← Func.lastNamed?_eq_none_iff]
  unfold functionIndex
  cases Func.lastNamed? name m.functions <;> simp [eq_comm]

theorem function_eq_ok_iff {i : Nat} {f : Func} :
    m.function i = .ok f ↔ m.functions[i]? = some f := by
  unfold function
  cases m.functions[i]? <;> simp

theorem resolvesNames (m : Module) : m.ResolvesNames m.warnings where
  found _ _ := functionIndex_eq_ok_iff
  missing _ _ := functionIndex_eq_error_iff
  reachable _ _ := function_eq_ok_iff
  declared f hf := by
    cases hindex : m.functionIndex f.name with
    | error e => exact absurd rfl ((functionIndex_eq_error_iff.1 hindex).2 f hf)
    | ok i =>
      obtain ⟨g, hg, hname⟩ := (functionIndex_eq_ok_iff.1 hindex).named
      exact ⟨i, g, rfl, function_eq_ok_iff.2 hg, hname⟩
  warned := ⟨m.duplicates, rfl, m.duplicates_pairwise, fun _ => mem_duplicates_iff,
    fun _ => exists_duplicate_iff⟩

end Module

def Event.isDuplicateName : Event → Bool
  | .duplicateName .. => true
  | _ => false

namespace Image

variable {b : List UInt8} {m : Module} {a : Arena}

/-- Of repeated names nothing is said while a file is read, and then what the module warns of. -/
theorem filter_events_of_decode (h : decode b = .ok (m, a)) :
    (decodeWithEvents b).events.filter Event.isDuplicateName = m.warnings := by
  unfold decode at h
  unfold decodeWithEvents at h ⊢
  split at h
  · cases h
  next size s hfile =>
    cases h
    dsimp only
    have hread : (readEvents s.records.toList).filter Event.isDuplicateName = [] := by
      refine List.filter_eq_nil_iff.2 fun e he => ?_
      obtain ⟨r, -, hr⟩ := List.mem_filterMap.1 he
      cases r <;> cases hr
      exact Bool.false_ne_true
    have hwarnings (m : Module) : m.warnings.filter Event.isDuplicateName = m.warnings := by
      refine List.filter_eq_self.2 fun e he => ?_
      obtain ⟨d, -, rfl⟩ := List.mem_map.1 he
      rfl
    rw [List.filter_append, List.filter_append, List.filter_append, hread, hwarnings]
    split <;> exact List.append_nil _

/-- The names of a decoded module are those in the file, less one NUL each. -/
theorem names_of_decode (h : decode b = .ok (m, a)) : ∃ front ss, IsFile front ss b ∧
    m.functions.map Func.name =
      (Module.join (ss.map Section.contents)).functions.map fun f => Text.dropNul f.name := by
  obtain ⟨front, ss, hfile⟩ := exists_isFile_of_decode h
  have hdecode := hfile.decode.symm.trans h
  rw [Except.ok.injEq, Prod.mk.injEq] at hdecode
  refine ⟨front, ss, hfile, ?_⟩
  rw [← hdecode.1, Module.dropNuls, List.map_map]
  rfl

end Image

/-- Names resolve to their last declarations, in a module that is made from its functions, where
they are entered into a table one after the other, and in one that is read from a file, where a NUL
at the end of a name does not count. -/
theorem names_resolved :
    (∀ m : Module, m.ResolvesNames m.warnings ∧
      (∀ name, m.nameTable.index name = (m.functionIndex name).toOption) ∧
      m.warnings = m.nameTable.repeats.map fun d => .duplicateName d.name d.previous d.index) ∧
    ∀ b m a, Image.decode b = .ok (m, a) →
      m.ResolvesNames ((Image.decodeWithEvents b).events.filter Event.isDuplicateName) ∧
      ∃ front ss, Image.IsFile front ss b ∧ m.functions.map Func.name =
        (Module.join (ss.map Image.Section.contents)).functions.map
          fun f => Text.dropNul f.name := by
  refine ⟨fun m => ⟨m.resolvesNames, fun name => ?_, ?_⟩, fun b m a h => ⟨?_, ?_⟩⟩
  · simp only [Module.nameTable_eq, Module.functionIndex]
    cases Func.lastNamed? name m.functions <;> rfl
  · rw [Module.nameTable_eq, Module.warnings]
  · rw [Image.filter_events_of_decode h]
    exact m.resolvesNames
  · exact Image.names_of_decode h

open Image

/-- The first name ends in NUL, and without it is the second one. -/
def echo : List Section :=
  [.functions [⟨"f\x00", 0, 0, [.endSection]⟩], .strings [],
    .functions [⟨"f", 1, 0, [.endSection]⟩]]

def echoFile : List UInt8 := [0, 0, 0, 0] ++ (magic ++ echo.flatMap Section.bytes)

theorem isFile_echo : IsFile [0, 0, 0, 0] echo echoFile where
  length_front := rfl
  bytes := rfl
  sections := by
    have hcode : Ended [.endSection] := ⟨[], rfl, nofun⟩
    simp only [echo, List.mem_cons, List.not_mem_nil, or_false, forall_eq_or_imp, forall_eq,
      Section.Writable, Section.records, List.map_cons, List.map_nil, Record.Writable]
    exact ⟨⟨⟨hcode, by decide⟩, by decide⟩, by simp, ⟨hcode, by decide⟩, by decide⟩

theorem names_resolved_echo : ∃ m a, decode echoFile = .ok (m, a) ∧
    m.functionIndex "f" = .ok 1 ∧ m.functionIndex "g" = .error (.functionNotFound "g") ∧
    .duplicateName "f" 0 1 ∈ (decodeWithEvents echoFile).events.filter Event.isDuplicateName := by
  have hdecode := isFile_echo.decode
  obtain ⟨hresolves, -⟩ := names_resolved.2 _ _ _ hdecode
  refine ⟨_, _, hdecode, (hresolves.found _ _).2 ?_, (hresolves.missing _ _).2 ⟨rfl, by decide⟩, ?_⟩
  · exact Func.lastNamed?_eq_some_iff.1 (by decide)
  · obtain ⟨ds, hds, -, hmem, -⟩ := hresolves.warned
    rw [hds]
    refine List.mem_map.2 ⟨⟨"f", 0, 1⟩, (hmem _).2 ⟨⟨_, rfl, by decide⟩, ?_⟩, rfl⟩
    exact Func.lastNamed?_eq_some_iff.1 (by decide)

end StackMachine
