import Mathlib.Data.List.Perm.Subperm
import StackMachine.Config.Settings
import StackMachine.Proofs.Config.Rendering
import StackMachine.Proofs.Lists

/-! Settings that are written to a file and read back. A group of settings is read from any of its
members, in any order: a setting that is named has its value there, and any other one has its
default. The settings of the machine may stand anywhere among the other members of the file. -/

namespace StackMachine

namespace CodePoints

theorem chars?_map_toNat (cs : List Char) : chars? (cs.map Char.toNat) = some cs := by
  induction cs with
  | nil => rfl
  | cons c cs ih =>
    have hvalid : c.toNat.isValidChar := c.valid
    cases cs with
    | nil => simp [chars?, hvalid]
    | cons d cs =>
      have hnot : ¬ (0xd800 ≤ c.toNat ∧ c.toNat < 0xdc00 ∧ 0xdc00 ≤ d.toNat ∧
          d.toNat < 0xe000) := by
        simp only [Nat.isValidChar] at hvalid
        omega
      rw [List.map_cons] at ih
      simp only [List.map_cons, chars?, if_neg hnot, if_pos hvalid, ih, Option.map_some,
        Char.ofNat_toNat]

theorem text?_ofString (s : String) : (ofString s).text? = some s := by
  rw [text?, ofString, chars?_map_toNat, Option.map_some, String.ofList_toList]

theorem lt_of_mem_ofString {s : String} {n : Nat} (h : n ∈ ofString s) : n < 0x110000 := by
  obtain ⟨c, -, rfl⟩ := List.mem_map.1 h
  have hvalid : c.toNat.isValidChar := c.valid
  simp only [Nat.isValidChar] at hvalid
  omega

end CodePoints

namespace Json

section Groups

variable {names : List String}

def named? (members : List (CodePoints × Json)) : Option (List (String × Json)) :=
  members.mapM fun (key, j) => key.text?.map fun name => (name, j)

theorem named?_cons {key : CodePoints} {j : Json} {members : List (CodePoints × Json)}
    {named : List (String × Json)} : named? ((key, j) :: members) = some named ↔
      ∃ name rest, key.text? = some name ∧ named? members = some rest ∧
        named = (name, j) :: rest := by
  rw [named?, List.mapM_cons, ← named?]
  simp only [bind, Option.bind_eq_some_iff, Option.map_eq_some_iff, pure, Option.some.injEq]
  grind

theorem named?_append {before after : List (CodePoints × Json)} {named : List (String × Json)} :
    named? (before ++ after) = some named ↔ ∃ first rest, named? before = some first ∧
      named? after = some rest ∧ named = first ++ rest := by
  rw [named?, List.mapM_append, ← named?, ← named?]
  simp only [bind, Option.bind_eq_some_iff, pure, Option.some.injEq]
  grind

theorem named?_ofMembers (ms : List (String × Json)) :
    named? (ms.map fun (name, j) => (CodePoints.ofString name, j)) = some ms := by
  induction ms with
  | nil => rfl
  | cons m ms ih => exact named?_cons.2 ⟨m.1, ms, CodePoints.text?_ofString m.1, ih, rfl⟩

theorem exists_of_mem_named? {members : List (CodePoints × Json)} {named : List (String × Json)}
    (h : named? members = some named) {name : String} (hname : name ∈ named.map Prod.fst) :
    ∃ m ∈ members, m.1.text? = some name := by
  induction members generalizing named with
  | nil =>
    cases h
    cases hname
  | cons m members ih =>
    obtain ⟨name', rest, hkey, hrest, rfl⟩ := named?_cons.1 h
    rw [List.map_cons, List.mem_cons] at hname
    rcases hname with rfl | hname
    · exact ⟨m, List.mem_cons_self, hkey⟩
    · obtain ⟨m', hm', htext⟩ := ih hrest hname
      exact ⟨m', List.mem_cons_of_mem m hm', htext⟩

theorem group?_object_eq_some_iff {members : List (CodePoints × Json)}
    {group : List (String × Json)} :
    group? names (.object members) = some group ↔ ∃ named, named? members = some named ∧
      group = named.filter (fun m => m.1 ∈ names) ∧ (group.map Prod.fst).Nodup := by
  rw [group?]
  change (named? members >>= _) = _ ↔ _
  simp only [bind, Option.bind_eq_some_iff, Option.ite_none_right_eq_some, Option.some.injEq]
  grind

theorem group?_ofMembers {ms : List (String × Json)} (hnodup : (ms.map Prod.fst).Nodup)
    (hnames : ∀ m ∈ ms, m.1 ∈ names) : group? names (.ofMembers ms) = some ms := by
  refine group?_object_eq_some_iff.2 ⟨ms, named?_ofMembers ms, ?_, hnodup⟩
  rw [List.filter_eq_self.2 fun m hm => decide_eq_true (hnames m hm)]

/-- One more member of a name that the group does not have yet. -/
theorem group?_insert {before after : List (CodePoints × Json)} {group : List (String × Json)}
    (h : group? names (.object (before ++ after)) = some group) {name : String}
    (hname : name ∈ names) (hfresh : ∀ m ∈ before ++ after, m.1.text? ≠ some name) (j : Json) :
    ∃ extended, group? names (.object (before ++ (.ofString name, j) :: after)) = some extended ∧
      extended.lookup name = some j ∧
      ∀ other ≠ name, extended.lookup other = group.lookup other := by
  obtain ⟨named, hnamed, rfl, hnodup⟩ := group?_object_eq_some_iff.1 h
  obtain ⟨first, rest, hfirst, hrest, rfl⟩ := named?_append.1 hnamed
  have hnot : name ∉ (first ++ rest).map Prod.fst := fun hmem =>
    have ⟨m, hm, htext⟩ := exists_of_mem_named? hnamed hmem
    hfresh m hm htext
  have hkept : (first ++ (name, j) :: rest).filter (fun m => m.1 ∈ names) =
      first.filter (fun m => m.1 ∈ names) ++
        (name, j) :: rest.filter (fun m => m.1 ∈ names) := by
    rw [List.filter_append, List.filter_cons_of_pos (by simpa using hname)]
  have hnotKept : name ∉ ((first ++ rest).filter fun m => m.1 ∈ names).map Prod.fst := fun hmem =>
    hnot (List.Sublist.subset (List.filter_sublist.map Prod.fst) hmem)
  rw [List.filter_append] at hnodup hnotKept
  have hnodup' : ((first.filter (fun m => m.1 ∈ names) ++
      (name, j) :: rest.filter (fun m => m.1 ∈ names)).map Prod.fst).Nodup := by
    rw [(List.perm_middle.map Prod.fst).nodup_iff, List.map_cons]
    exact List.nodup_cons.2 ⟨hnotKept, hnodup⟩
  refine ⟨_, group?_object_eq_some_iff.2 ⟨_, named?_append.2 ⟨first, _, hfirst,
    named?_cons.2 ⟨name, rest, CodePoints.text?_ofString name, hrest, rfl⟩, rfl⟩, hkept.symm,
    hnodup'⟩, ?_, fun other hother => ?_⟩
  · exact (lookup_eq_some_iff_of_nodup hnodup').2 (List.mem_append_right _ List.mem_cons_self)
  · rw [List.filter_append, List.lookup_append, List.lookup_append, List.lookup_cons,
      beq_eq_false_iff_ne.2 hother]

end Groups

section Members

variable {group all : List (String × Json)} {name : String} {j : Json} {α : Type} {default x : α}
  {read : Json → Option α}

theorem member?_of_mem (hnodup : (group.map Prod.fst).Nodup) (h : (name, j) ∈ group) :
    member? group name default read = read j := by
  rw [member?, (lookup_eq_some_iff_of_nodup hnodup).2 h]

theorem member?_of_notMem (h : name ∉ group.map Prod.fst) :
    member? group name default read = some default := by
  have hnone : group.lookup name = none := List.lookup_eq_none_iff.2 fun m hm =>
    bne_iff_ne.2 fun heq => h (List.mem_map.2 ⟨m, hm, heq.symm⟩)
  rw [member?, hnone]

theorem nodup_of_subperm (h : group.Subperm all) (hall : (all.map Prod.fst).Nodup) :
    (group.map Prod.fst).Nodup := by
  obtain ⟨l, hperm, hsub⟩ := h
  exact (hperm.map Prod.fst).nodup_iff.1 (hall.sublist (hsub.map Prod.fst))

theorem group?_of_subperm (h : group.Subperm all) (hall : (all.map Prod.fst).Nodup) :
    group? (all.map Prod.fst) (.ofMembers group) = some group :=
  group?_ofMembers (nodup_of_subperm h hall) fun _ hm => List.mem_map_of_mem (h.subset hm)

/-- A member that is left out has its default, and any other one its value. -/
theorem member?_of_subperm (h : group.Subperm all) (hall : (all.map Prod.fst).Nodup)
    (hj : (name, j) ∈ all) (hread : read j = some x) :
    member? group name default read =
      some (if name ∈ group.map Prod.fst then x else default) := by
  split_ifs with hname
  · obtain ⟨⟨name, j'⟩, hm, rfl⟩ := List.mem_map.1 hname
    have hlookup := (lookup_eq_some_iff_of_nodup hall).2 (h.subset hm)
    obtain rfl : j' = j :=
      Option.some.inj (hlookup.symm.trans ((lookup_eq_some_iff_of_nodup hall).2 hj))
    rw [member?_of_mem (nodup_of_subperm h hall) hm, hread]
  · exact member?_of_notMem hname

theorem size?_natural (n : UInt64) : size? (.natural n.toNat) = some n := by
  rw [size?, if_pos n.toNat_lt, UInt64.ofNat_toNat]

end Members

end Json

section Groups

open Json

def Limits.members (l : Limits) : List (String × Json) :=
  [("max_stack_size", .natural l.maxStackSize.toNat),
    ("max_recursion_depth", .natural l.maxRecursionDepth.toNat)]

def HeapConfig.members (h : HeapConfig) : List (String × Json) :=
  [("collect_threshold", .natural h.collectThreshold.toNat)]

/-- The members of the settings, of which the groups are written with the members given. -/
def Config.members (c : Config) (limits heap : List (String × Json)) : List (String × Json) :=
  [("debug", .bool c.debug), ("verify_on_load", .bool c.verifyOnLoad),
    ("limits", .ofMembers limits), ("heap", .ofMembers heap)]

/-- The settings that are named, and the defaults of the others. -/
def Limits.kept (l : Limits) (names : List String) : Limits where
  maxStackSize :=
    if "max_stack_size" ∈ names then l.maxStackSize else Limits.standard.maxStackSize
  maxRecursionDepth :=
    if "max_recursion_depth" ∈ names then l.maxRecursionDepth else Limits.standard.maxRecursionDepth

def HeapConfig.kept (h : HeapConfig) (names : List String) : HeapConfig where
  collectThreshold :=
    if "collect_threshold" ∈ names then h.collectThreshold else HeapConfig.standard.collectThreshold

def Config.kept (c : Config) (names limits heap : List String) : Config where
  debug := if "debug" ∈ names then c.debug else false
  verifyOnLoad := if "verify_on_load" ∈ names then c.verifyOnLoad else false
  limits := if "limits" ∈ names then c.limits.kept limits else .standard
  heap := if "heap" ∈ names then c.heap.kept heap else .standard

variable {group limits heap : List (String × Json)}

theorem limits?_of_subperm {l : Limits} (h : group.Subperm l.members) :
    limits? (.ofMembers group) = some (l.kept (group.map Prod.fst)) := by
  have hall : (l.members.map Prod.fst).Nodup := by simp [Limits.members]
  have hstack : member? group "max_stack_size" Limits.standard.maxStackSize size? =
      some (l.kept (group.map Prod.fst)).maxStackSize :=
    member?_of_subperm h hall (.head _) (size?_natural _)
  have hdepth : member? group "max_recursion_depth" Limits.standard.maxRecursionDepth size? =
      some (l.kept (group.map Prod.fst)).maxRecursionDepth :=
    member?_of_subperm h hall (.tail _ (.head _)) (size?_natural _)
  change (group? (l.members.map Prod.fst) (.ofMembers group) >>= _) = _
  rw [group?_of_subperm h hall]
  simp only [bind, Option.bind, hstack, hdepth, pure]

theorem heap?_of_subperm {h : HeapConfig} (hgroup : group.Subperm h.members) :
    heap? (.ofMembers group) = some (h.kept (group.map Prod.fst)) := by
  have hall : (h.members.map Prod.fst).Nodup := by simp [HeapConfig.members]
  have hthreshold : member? group "collect_threshold" HeapConfig.standard.collectThreshold size? =
      some (h.kept (group.map Prod.fst)).collectThreshold :=
    member?_of_subperm hgroup hall (.head _) (size?_natural _)
  change (group? (h.members.map Prod.fst) (.ofMembers group) >>= _) = _
  rw [group?_of_subperm hgroup hall]
  simp only [bind, Option.bind, hthreshold, pure]

theorem config?_of_subperm {c : Config} (hlimits : limits.Subperm c.limits.members)
    (hheap : heap.Subperm c.heap.members) (h : group.Subperm (c.members limits heap)) :
    config? (.ofMembers group) =
      some (c.kept (group.map Prod.fst) (limits.map Prod.fst) (heap.map Prod.fst)) := by
  have hall : ((c.members limits heap).map Prod.fst).Nodup := by simp [Config.members]
  let kept := c.kept (group.map Prod.fst) (limits.map Prod.fst) (heap.map Prod.fst)
  have hdebug : member? group "debug" false bool? = some kept.debug :=
    member?_of_subperm h hall (.head _) rfl
  have hverify : member? group "verify_on_load" false bool? = some kept.verifyOnLoad :=
    member?_of_subperm h hall (.tail _ (.head _)) rfl
  have hl : member? group "limits" .standard limits? = some kept.limits :=
    member?_of_subperm h hall (.tail _ (.tail _ (.head _))) (limits?_of_subperm hlimits)
  have hh : member? group "heap" .standard heap? = some kept.heap :=
    member?_of_subperm h hall (.tail _ (.tail _ (.tail _ (.head _)))) (heap?_of_subperm hheap)
  change (group? ((c.members limits heap).map Prod.fst) (.ofMembers group) >>= _) = _
  rw [group?_of_subperm h hall]
  simp only [bind, Option.bind, hdebug, hverify, hl, hh, pure]
  rfl

theorem Config.kept_all (c : Config) :
    c.kept ((c.members limits heap).map Prod.fst) (c.limits.members.map Prod.fst)
      (c.heap.members.map Prod.fst) = c := by
  simp [kept, members, Limits.kept, Limits.members, HeapConfig.kept, HeapConfig.members]

theorem config?_toJson (c : Config) : config? c.toJson = some c := by
  have h := config?_of_subperm (.refl c.limits.members) (.refl c.heap.members)
    (.refl (c.members c.limits.members c.heap.members))
  rwa [c.kept_all] at h

end Groups

section Files

open Json

/-- Members of a file that say `f` when no settings of the machine stand among them. -/
structure FileConfig.Around (f : FileConfig) (before after : List (CodePoints × Json)) : Prop where
  reads : fileConfig? (.object (before ++ after)) = some f
  fresh : ∀ m ∈ before ++ after, m.1.text? ≠ some "vm"

/-- The text of a file in which the settings of the machine stand among other members. -/
def Config.FileText (before after : List (CodePoints × Json)) (settings : Json) (text : String) :
    Prop :=
  ElementText (.object (before ++ (.ofString "vm", settings) :: after)) text.toList

variable {f : FileConfig} {before after : List (CodePoints × Json)} {c : Config}

theorem FileConfig.Around.fileConfig? (h : f.Around before after) {settings : Json}
    (hsettings : config? settings = some c) :
    Json.fileConfig? (.object (before ++ (.ofString "vm", settings) :: after)) =
      some { f with vm := c } := by
  have hreads := h.reads
  simp only [Json.fileConfig?, bind, Option.bind_eq_some_iff] at hreads
  obtain ⟨group, hgroup, vm, -, log, hlog, hf⟩ := hreads
  cases hf
  obtain ⟨extended, hextended, hvm, hother⟩ :=
    group?_insert hgroup List.mem_cons_self h.fresh settings
  have hlogExtended : member? extended "log" {} logSection? = some log := by
    rw [member?, hother "log" (by decide), ← member?]
    exact hlog
  have hvmExtended : member? extended "vm" {} config? = some c := by
    rw [member?, hvm]
    exact hsettings
  simp only [Json.fileConfig?, hextended, hvmExtended, hlogExtended, bind, Option.bind, pure]

theorem FileConfig.parse_of_fileText (h : f.Around before after) {settings : Json}
    (hsettings : config? settings = some c) {text : String}
    (htext : Config.FileText before after settings text) :
    FileConfig.parse text = some { f with vm := c } := by
  rw [FileConfig.parse, parse_of_elementText htext]
  exact h.fileConfig? hsettings

theorem Json.proper_ofMembers {ms : List (String × Json)} (h : ∀ m ∈ ms, Proper m.2) :
    Proper (.ofMembers ms) := by
  have hmem (m : CodePoints × Json)
      (hm : m ∈ ms.map fun (name, j) => (CodePoints.ofString name, j)) :
      ∃ m' ∈ ms, (CodePoints.ofString m'.1, m'.2) = m := List.mem_map.1 hm
  refine .object (fun m hm n hn => ?_) fun m hm => ?_
  · obtain ⟨m', -, rfl⟩ := hmem m hm
    exact CodePoints.lt_of_mem_ofString hn
  · obtain ⟨m', hm', rfl⟩ := hmem m hm
    exact h m' hm'

theorem Config.proper_toJson (c : Config) : c.toJson.Proper := by
  have hlimits : c.limits.toJson.Proper := proper_ofMembers (by simp [Proper.natural])
  have hheap : c.heap.toJson.Proper := proper_ofMembers (by simp [Proper.natural])
  exact proper_ofMembers (by simp [Proper.bool, hlimits, hheap])

theorem Config.parse_text (c : Config) : Config.parse c.text = some c := by
  rw [Config.parse, Config.text, c.proper_toJson.parse_render]
  exact config?_toJson c

theorem Config.fileText_vm (c : Config) :
    Config.FileText [] [] c.toJson ("\x7b\"vm\":" ++ c.text ++ "\x7d") := by
  have hproper : Proper (.ofMembers [("vm", c.toJson)]) := proper_ofMembers fun m hm => by
    rw [List.mem_singleton.1 hm]
    exact c.proper_toJson
  have hkey : "\x7b" ++ renderString (.ofString "vm") ++ ":" = "\x7b\"vm\":" := by decide
  have htext : render (.ofMembers [("vm", c.toJson)]) = "\x7b\"vm\":" ++ c.text ++ "\x7d" := by
    rw [← hkey, ofMembers, List.map_singleton, render, renderMembers, Config.text]
    simp only [String.append_assoc]
  rw [← htext]
  exact hproper.valueText_render.element

/-- A file with only the settings of the machine starts from the defaults. -/
theorem FileConfig.around_nil : FileConfig.Around {} [] [] where
  reads := rfl
  fresh _ hm := by cases hm

/-- The settings of a machine are read back from the text written for them, alone and in a file of
their own, and from every spelling of it among other members of a file. When some of them are left
out, in a group or as a whole group, and the others are written in any order, those have their
defaults and these are read back. -/
theorem settings_read_back (c : Config) :
    Config.parse c.text = some c ∧
    FileConfig.parse ("\x7b\"vm\":" ++ c.text ++ "\x7d") = some { vm := c } ∧
    (∀ (f : FileConfig) (before after : List (CodePoints × Json)) (text : String),
      f.Around before after → Config.FileText before after c.toJson text →
      FileConfig.parse text = some { f with vm := c }) ∧
    ∀ (limits heap group : List (String × Json)) (f : FileConfig)
      (before after : List (CodePoints × Json)) (text : String),
      limits.Subperm c.limits.members → heap.Subperm c.heap.members →
      group.Subperm (c.members limits heap) → f.Around before after →
      Config.FileText before after (.ofMembers group) text →
      FileConfig.parse text = some { f with
        vm := c.kept (group.map Prod.fst) (limits.map Prod.fst) (heap.map Prod.fst) } := by
  refine ⟨c.parse_text, ?_, ?_, ?_⟩
  · exact FileConfig.parse_of_fileText FileConfig.around_nil (config?_toJson c) c.fileText_vm
  · intro f before after text hf htext
    exact FileConfig.parse_of_fileText hf (config?_toJson c) htext
  · intro limits heap group f before after text hlimits hheap hgroup hf htext
    exact FileConfig.parse_of_fileText hf (config?_of_subperm hlimits hheap hgroup) htext

/-- A file with a level of the log, and with half of the limits in front of another setting. -/
theorem settings_read_back_partial :
    FileConfig.parse ("\x7b\"log\":\x7b\"level\":\"debug\"\x7d,\"vm\":\x7b\"limits\":" ++
      "\x7b\"max_recursion_depth\":7\x7d,\"debug\":true\x7d\x7d") =
      some {
        vm := { debug := true, limits := { maxRecursionDepth := 7 } }
        log := { level := some "debug" } } := by
  let c : Config := { debug := true, verifyOnLoad := true, limits := ⟨1, 7⟩, heap := ⟨2⟩ }
  let limits : List (String × Json) := [("max_recursion_depth", .natural 7)]
  let group : List (String × Json) := [("limits", .ofMembers limits), ("debug", .bool true)]
  let log : Json := .ofMembers [("level", .string (.ofString "debug"))]
  have hlimits : limits.Subperm c.limits.members := (List.sublist_cons_self _ _).subperm
  have hgroup : group.Subperm (c.members limits []) :=
    ⟨group.reverse, group.reverse_perm, .cons_cons _ (.cons _ (.cons_cons _ (.cons _ .slnil)))⟩
  have hf : FileConfig.Around { log := { level := some "debug" } } [(.ofString "log", log)] [] :=
    ⟨rfl, by simp only [List.append_nil, List.mem_singleton, forall_eq]; decide⟩
  have hproper : (ofMembers [("log", log), ("vm", .ofMembers group)]).Proper := by
    have hstring : (Json.string (.ofString "debug")).Proper :=
      .string fun _ hn => CodePoints.lt_of_mem_ofString hn
    have hlog : log.Proper := proper_ofMembers (by simp [hstring])
    have hlimits : (ofMembers limits).Proper := proper_ofMembers (by simp [limits, Proper.natural])
    have hgroup : (ofMembers group).Proper :=
      proper_ofMembers (by simp [group, hlimits, Proper.bool])
    exact proper_ofMembers (by simp [hlog, hgroup])
  exact (settings_read_back c).2.2.2 limits [] group _ _ [] _ hlimits List.nil_subperm hgroup hf
    hproper.valueText_render.element

end Files

end StackMachine
