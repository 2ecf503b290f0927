import Mathlib.Data.List.Nodup
import Mathlib.Data.List.Perm.Basic
import StackMachine.Config.LogLevels
import StackMachine.Proofs.Lists

/-! Levels of a log, from what the file and the command line say of them. Every text that counts
must spell a level; the command line's hides the file's, and a phase's own level counts always. No
two entries are of one phase, so the order in which they are visited does not matter. -/

namespace StackMachine

/-- A small letter as it is or as its capital. -/
def SpellsLetter (c letter : Char) : Prop := c = letter ∨ c = letter.toUpper

/-- The word, whatever the case of each letter. -/
def SpellsWord (s word : String) : Prop := List.Forall₂ SpellsLetter s.toList word.toList

instance : DecidableRel SpellsLetter := fun _ _ => inferInstanceAs (Decidable (_ ∨ _))

instance : DecidableRel SpellsWord := fun _ _ => inferInstanceAs (Decidable (List.Forall₂ ..))

def IsSmall (c : Char) : Prop := 'a' ≤ c ∧ c ≤ 'z'

instance (c : Char) : Decidable (IsSmall c) := inferInstanceAs (Decidable (_ ∧ _))

theorem toLower_eq_iff {c letter : Char} (h : IsSmall letter) :
    c.toLower = letter ↔ SpellsLetter c letter := by
  have hdown : ('a'.val - 'A'.val).toNat = 32 := rfl
  have hup : ('A'.val - 'a'.val).toNat = 0x100000000 - 32 := rfl
  have hA : 'A'.val.toNat = 65 := rfl
  have hZ : 'Z'.val.toNat = 90 := rfl
  have ha : 'a'.val.toNat = 97 := rfl
  have hz : 'z'.val.toNat = 122 := rfl
  obtain ⟨hlow, hhigh⟩ := h
  rw [Char.le_def] at hlow hhigh
  delta SpellsLetter Char.toUpper Char.toLower
  simp only [hlow, hhigh, and_self, dite_true]
  rw [UInt32.le_iff_toNat_le] at hlow hhigh
  split
  all_goals
    rename_i hc
    simp only [ge_iff_le, UInt32.le_iff_toNat_le] at hc
    simp only [← Char.val_inj, ← UInt32.toNat_inj, UInt32.toNat_add]
    omega

theorem toLower_eq_word_iff {s word : String} (h : ∀ c ∈ word.toList, IsSmall c) :
    s.toLower = word ↔ SpellsWord s word := by
  have hmap : s.toLower.toList = s.toList.map Char.toLower := String.toList_map
  rw [← String.toList_inj, hmap, ← List.forall₂_eq_eq_eq, List.forall₂_map_left_iff]
  constructor
  · exact fun hs => forall₂_of_mem hs fun _ _ c hc heq => (toLower_eq_iff (h c hc)).1 heq
  · exact fun hs => forall₂_of_mem hs fun _ _ c hc heq => (toLower_eq_iff (h c hc)).2 heq

namespace Level

/-- The words for levels. A silent log still has errors. -/
inductive Names : String → Level → Prop
  | silent : Names "silent" .error
  | error : Names "error" .error
  | warn : Names "warn" .warn
  | info : Names "info" .info
  | debug : Names "debug" .debug
  | trace : Names "trace" .trace

/-- The text is one of the words for the level, whatever the case of its letters. -/
def Denotes (s : String) (l : Level) : Prop := ∃ word, Names word l ∧ SpellsWord s word

variable {s word : String} {l l' : Level}

theorem Names.isSmall (h : Names word l) : ∀ c ∈ word.toList, IsSmall c := by
  cases h <;> simp [IsSmall]

theorem Names.toLower_iff (h : Names word l) : s.toLower = word ↔ SpellsWord s word :=
  toLower_eq_word_iff h.isSmall

theorem parse_eq_ok_iff : Level.parse s = .ok l ↔ Denotes s l := by
  constructor
  · intro h
    unfold Level.parse at h
    split at h
    all_goals cases h
    next hs => exact ⟨_, .silent, Names.silent.toLower_iff.1 hs⟩
    next hs => exact ⟨_, .error, Names.error.toLower_iff.1 hs⟩
    next hs => exact ⟨_, .warn, Names.warn.toLower_iff.1 hs⟩
    next hs => exact ⟨_, .info, Names.info.toLower_iff.1 hs⟩
    next hs => exact ⟨_, .debug, Names.debug.toLower_iff.1 hs⟩
    next hs => exact ⟨_, .trace, Names.trace.toLower_iff.1 hs⟩
  · rintro ⟨word, hword, hs⟩
    rw [Level.parse, hword.toLower_iff.2 hs]
    cases hword <;> rfl

/-- The level that a text spells, and `warn` without one. -/
def ofText? : Option String → Except InvalidLevel Level
  | some s => Level.parse s
  | none => .ok .warn

theorem ofText?_eq_ok_iff {text : Option String} : ofText? text = .ok l ↔
    (∀ s, text = some s → Denotes s l) ∧ (text = none → l = .warn) := by
  cases text with
  | none => simp [ofText?, eq_comm]
  | some s => simp [ofText?, parse_eq_ok_iff]

theorem Denotes.unique (h : Denotes s l) (h' : Denotes s l') : l = l' :=
  Except.ok.inj ((parse_eq_ok_iff.2 h).symm.trans (parse_eq_ok_iff.2 h'))

end Level

/-- No phase has two entries. -/
def LogSection.IsMap (log : LogSection) : Prop := (log.phases.map Prod.fst).Nodup

section Files

open Json

theorem eq_default_or_of_member? {α : Type} {group : List (String × Json)} {name : String}
    {default x : α} {read : Json → Option α} (h : member? group name default read = some x) :
    x = default ∨ ∃ j, read j = some x := by
  unfold member? at h
  split at h
  · exact .inr ⟨_, h⟩
  · exact .inl (Option.some.inj h).symm

theorem nodup_of_phases? {j : Json} {phases : List (Phase × String)}
    (h : phases? j = some phases) : (phases.map Prod.fst).Nodup := by
  unfold phases? at h
  split at h
  · simp only [bind, Option.bind_eq_some_iff, pure, Option.some.injEq] at h
    obtain ⟨named, -, rfl⟩ := h
    rw [List.map_filterMap]
    refine List.Nodup.filterMap (fun p q r hp hq => ?_) (by decide)
    simp only [Option.map_map, Option.mem_def, Option.map_eq_some_iff] at hp hq
    obtain ⟨_, -, rfl⟩ := hp
    obtain ⟨_, -, hq⟩ := hq
    exact hq.symm
  · cases h

/-- The file itself never says the level of a phase twice. -/
theorem isMap_of_parse {text : String} {c : FileConfig} (h : FileConfig.parse text = some c) :
    c.log.IsMap := by
  simp only [FileConfig.parse, fileConfig?, bind, Option.bind_eq_some_iff, pure,
    Option.some.injEq] at h
  obtain ⟨_, -, _, -, _, -, log, hlog, rfl⟩ := h
  rcases eq_default_or_of_member? hlog with rfl | ⟨_, hsection⟩
  · exact List.nodup_nil
  · simp only [logSection?, bind, Option.bind_eq_some_iff, pure, Option.some.injEq] at hsection
    obtain ⟨_, -, _, -, phases, hphases, rfl⟩ := hsection
    rcases eq_default_or_of_member? hphases with rfl | ⟨_, hread⟩
    · exact List.nodup_nil
    · exact nodup_of_phases? hread

end Files

namespace FileConfig

/-- Every text that counts spells a level: the one for all phases, which is the command line's if
that has one, and those of single phases. -/
structure Legible (c : FileConfig) (commandLine : Option String) : Prop where
  global : ∀ s, commandLine.or c.log.level = some s → ∃ l, Level.Denotes s l
  phases : ∀ p s, (p, s) ∈ c.log.phases → ∃ l, Level.Denotes s l

/-- The levels are those that the texts spell, and `warn` where there is none. -/
structure Resolves (c : FileConfig) (commandLine : Option String) (r : LogConfig) : Prop where
  global : ∀ s, commandLine.or c.log.level = some s → Level.Denotes s r.global
  standard : commandLine.or c.log.level = none → r.global = .warn
  own : ∀ p s, (p, s) ∈ c.log.phases → Level.Denotes s (r.levelFor p)
  others : ∀ p, p ∉ c.log.phases.map Prod.fst → r.levelFor p = r.global

variable {c c' : FileConfig} {commandLine : Option String} {r r' : LogConfig}

theorem logConfig_eq (c : FileConfig) (commandLine : Option String) :
    c.logConfig commandLine = Level.ofText? (commandLine.or c.log.level) >>= fun global =>
      c.log.phases.mapM (fun entry => Level.parse entry.2 >>= fun l => pure (entry.1, l)) >>=
        fun phases => pure { global, phases } := by
  unfold logConfig
  cases commandLine.or c.log.level <;> rfl

theorem logConfig_eq_ok_iff : c.logConfig commandLine = .ok r ↔
    ((∀ s, commandLine.or c.log.level = some s → Level.Denotes s r.global) ∧
      (commandLine.or c.log.level = none → r.global = .warn)) ∧
      List.Forall₂ (fun entry level => level.1 = entry.1 ∧ Level.Denotes entry.2 level.2)
        c.log.phases r.phases := by
  have hentry (entry : Phase × String) (level : Phase × Level) :
      (∃ l, Level.Denotes entry.2 l ∧ (entry.1, l) = level) ↔
        level.1 = entry.1 ∧ Level.Denotes entry.2 level.2 := by
    constructor
    · rintro ⟨l, hl, rfl⟩
      exact ⟨rfl, hl⟩
    · rintro ⟨hp, hl⟩
      exact ⟨level.2, hl, by rw [← hp]⟩
  obtain ⟨global, phases⟩ := r
  simp only [logConfig_eq, bind_eq_ok_iff, Level.ofText?_eq_ok_iff, mapM_eq_ok_iff,
    Level.parse_eq_ok_iff, pure, Except.pure, Except.ok.injEq, LogConfig.mk.injEq, hentry]
  constructor
  · rintro ⟨_, hglobal, _, hphases, rfl, rfl⟩
    exact ⟨hglobal, hphases⟩
  · rintro ⟨hglobal, hphases⟩
    exact ⟨global, hglobal, phases, hphases, rfl, rfl⟩

theorem resolves_of_logConfig (hmap : c.log.IsMap) (h : c.logConfig commandLine = .ok r) :
    c.Resolves commandLine r := by
  obtain ⟨⟨hglobal, hstandard⟩, hphases⟩ := logConfig_eq_ok_iff.1 h
  have hkeys : c.log.phases.map Prod.fst = r.phases.map Prod.fst := by
    rw [← List.forall₂_eq_eq_eq, List.forall₂_map_left_iff, List.forall₂_map_right_iff]
    exact hphases.imp fun _ _ hentry => hentry.1.symm
  refine ⟨hglobal, hstandard, fun p s hs => ?_, fun p hp => ?_⟩
  · obtain ⟨⟨_, l⟩, hl, rfl, hdenotes⟩ := exists_of_forall₂ hphases hs
    rw [LogConfig.levelFor, (lookup_eq_some_iff_of_nodup (hkeys ▸ hmap)).2 hl]
    exact hdenotes
  · have hnone : r.phases.lookup p = none := by
      refine List.lookup_eq_none_iff.2 fun level hlevel => bne_iff_ne.2 ?_
      rintro rfl
      exact hp (hkeys ▸ List.mem_map_of_mem hlevel)
    rw [LogConfig.levelFor, hnone]
    rfl

theorem exists_logConfig_iff :
    (∃ r, c.logConfig commandLine = .ok r) ↔ c.Legible commandLine := by
  constructor
  · rintro ⟨r, h⟩
    obtain ⟨⟨hglobal, -⟩, hphases⟩ := logConfig_eq_ok_iff.1 h
    refine ⟨fun s hs => ⟨_, hglobal s hs⟩, fun p s hs => ?_⟩
    obtain ⟨level, -, -, hl⟩ := exists_of_forall₂ hphases hs
    exact ⟨_, hl⟩
  · rintro ⟨hglobal, hphases⟩
    have hentry : ∀ entry ∈ c.log.phases, ∃ level : Phase × Level,
        level.1 = entry.1 ∧ Level.Denotes entry.2 level.2 := by
      intro entry hentry
      obtain ⟨l, hl⟩ := hphases entry.1 entry.2 hentry
      exact ⟨(entry.1, l), rfl, hl⟩
    obtain ⟨levels, hlevels⟩ := exists_forall₂ hentry
    cases htext : commandLine.or c.log.level with
    | none => exact ⟨⟨.warn, levels⟩, logConfig_eq_ok_iff.2 ⟨by simp [htext], hlevels⟩⟩
    | some s =>
      obtain ⟨l, hl⟩ := hglobal s htext
      exact ⟨⟨l, levels⟩, logConfig_eq_ok_iff.2 ⟨by simp [htext, hl], hlevels⟩⟩

/-- The levels depend on the entries and not on their order. -/
theorem Resolves.unique (h : c.Resolves commandLine r) (h' : c'.Resolves commandLine r')
    (hlevel : c'.log.level = c.log.level) (hphases : c'.log.phases.Perm c.log.phases) :
    r'.global = r.global ∧ ∀ p, r'.levelFor p = r.levelFor p := by
  have hglobal : r'.global = r.global := by
    cases htext : commandLine.or c.log.level with
    | none => rw [h.standard htext, h'.standard (hlevel ▸ htext)]
    | some s => exact (h'.global s (hlevel ▸ htext)).unique (h.global s htext)
  refine ⟨hglobal, fun p => ?_⟩
  by_cases hp : p ∈ c.log.phases.map Prod.fst
  · obtain ⟨⟨p, s⟩, hmem, rfl⟩ := List.mem_map.1 hp
    exact (h'.own p s (hphases.mem_iff.2 hmem)).unique (h.own p s hmem)
  · rw [h.others p hp, h'.others p (mt (hphases.map _).mem_iff.1 hp), hglobal]

theorem legible_perm (hlevel : c'.log.level = c.log.level)
    (hphases : c'.log.phases.Perm c.log.phases) :
    c'.Legible commandLine ↔ c.Legible commandLine := by
  constructor
  · rintro ⟨hglobal, hentries⟩
    exact ⟨hlevel ▸ hglobal, fun p s hs => hentries p s (hphases.mem_iff.2 hs)⟩
  · rintro ⟨hglobal, hentries⟩
    exact ⟨hlevel ▸ hglobal, fun p s hs => hentries p s (hphases.mem_iff.1 hs)⟩

end FileConfig

/-- Resolving the levels of a log succeeds just when every text that counts spells a level. The
file's own level does not count beside the command line's; each phase has the level that is spelled
for it, or else the one for all. The order of the entries does not matter. -/
theorem levels_resolved (c : FileConfig) (hmap : c.log.IsMap) (commandLine : Option String) :
    ((∃ r, c.logConfig commandLine = .ok r) ↔ c.Legible commandLine) ∧
      (∀ s level, FileConfig.logConfig { c with log := { c.log with level } } (some s) =
        c.logConfig (some s)) ∧
      (∀ p s, (p, s) ∈ c.log.phases → (¬ ∃ l, Level.Denotes s l) →
        ∀ r, c.logConfig commandLine ≠ .ok r) ∧
      (∀ r, c.logConfig commandLine = .ok r → c.Resolves commandLine r) ∧
      ∀ phases, phases.Perm c.log.phases →
        ((∃ r, FileConfig.logConfig { c with log := { c.log with phases } } commandLine = .ok r) ↔
          ∃ r, c.logConfig commandLine = .ok r) ∧
        ∀ r r', c.logConfig commandLine = .ok r →
          FileConfig.logConfig { c with log := { c.log with phases } } commandLine = .ok r' →
          r'.global = r.global ∧ ∀ p, r'.levelFor p = r.levelFor p := by
  refine ⟨FileConfig.exists_logConfig_iff, fun _ _ => rfl, fun p s hs hnot r hr => ?_,
    fun r => FileConfig.resolves_of_logConfig hmap, fun phases hperm => ⟨?_, fun r r' h h' => ?_⟩⟩
  · exact hnot ((FileConfig.exists_logConfig_iff.1 ⟨r, hr⟩).phases p s hs)
  · rw [FileConfig.exists_logConfig_iff, FileConfig.exists_logConfig_iff]
    exact FileConfig.legible_perm rfl hperm
  · have hmap' : LogSection.IsMap { c.log with phases } := (hperm.map Prod.fst).nodup_iff.2 hmap
    exact (FileConfig.resolves_of_logConfig hmap h).unique
      (FileConfig.resolves_of_logConfig hmap' h') rfl hperm

/-- The level for all phases is none. -/
def patchy : FileConfig where
  log := { level := some "loud", phases := [(.interp, "TRACE"), (.loader, "Silent")] }

theorem levels_resolved_patchy : patchy.log.IsMap ∧
    (∀ r, patchy.logConfig none ≠ .ok r) ∧
    ∃ r r', patchy.logConfig (some "iNFo") = .ok r ∧
      FileConfig.logConfig
        { patchy with log := { patchy.log with phases := patchy.log.phases.reverse } }
        (some "iNFo") = .ok r' ∧
      r.levelFor .interp = .trace ∧ r.levelFor .loader = .error ∧ r.levelFor .vm = .info ∧
      ∀ p, r'.levelFor p = r.levelFor p := by
  have hmap : patchy.log.IsMap := by unfold LogSection.IsMap; decide
  have hinfo : Level.Denotes "iNFo" .info := ⟨_, .info, by decide⟩
  have htrace : Level.Denotes "TRACE" .trace := ⟨_, .trace, by decide⟩
  have hsilent : Level.Denotes "Silent" .error := ⟨_, .silent, by decide⟩
  have hloud : ¬ ∃ l, Level.Denotes "loud" l := by
    rintro ⟨_, word, hword, hs⟩
    cases hword <;> exact absurd hs (by decide)
  obtain ⟨hlegible, -, -, hresolves, horder⟩ := levels_resolved patchy hmap (some "iNFo")
  obtain ⟨hlegible', -⟩ := levels_resolved patchy hmap none
  have hreads : patchy.Legible (some "iNFo") := by
    refine ⟨fun s hs => ⟨.info, Option.some.inj hs ▸ hinfo⟩, fun p s hs => ?_⟩
    simp only [patchy, List.mem_cons, List.not_mem_nil, or_false, Prod.mk.injEq] at hs
    rcases hs with ⟨-, rfl⟩ | ⟨-, rfl⟩
    · exact ⟨_, htrace⟩
    · exact ⟨_, hsilent⟩
  obtain ⟨r, hr⟩ := hlegible.2 hreads
  obtain ⟨hsame, heq⟩ := horder patchy.log.phases.reverse (List.reverse_perm _)
  obtain ⟨r', hr'⟩ := hsame.2 ⟨r, hr⟩
  have hlevels := hresolves r hr
  refine ⟨hmap, fun s hs => hloud ((hlegible'.1 ⟨s, hs⟩).global "loud" rfl), r, r', hr, hr',
    (hlevels.own _ _ List.mem_cons_self).unique htrace,
    (hlevels.own .loader "Silent" (by decide)).unique hsilent, ?_, (heq r r' hr hr').2⟩
  rw [hlevels.others .vm (by decide)]
  exact (hlevels.global _ rfl).unique hinfo

end StackMachine
