import StackMachine.Image.Decode
import StackMachine.Image.Encode
import StackMachine.Proofs.Lists

/-! A rejected module. What a writer puts down for a module does not depend on what it has put down
before, and no more does its answer; so a file is made of one piece for each module given to the
writer. A module that is rejected has a piece as well, since what was written of it is not taken
back: the piece begins with the code of a section and stays in the file. -/

namespace StackMachine.Image.Writer

variable {α β : Type}

/-- The answer, and the writer after it. -/
def call (act : Writing α) (w : Writer) : Except EncodeError α × Writer :=
  match act w with
  | .ok a w => (.ok a, w)
  | .error e w => (.error e, w)

/-- Whatever has been written, the action answers this and writes these bytes behind it. -/
def Appends (act : Writing α) (answer : Except EncodeError α) (bytes : List UInt8) : Prop :=
  ∀ w, call act w = (answer, ⟨w.payload ++ bytes⟩)

def Steady (act : Writing α) : Prop := ∃ answer bytes, Appends act answer bytes

section Actions

variable {act : Writing α} {next : α → Writing β} {answer : Except EncodeError α}
  {bytes : List UInt8}

theorem appends_pure (a : α) : Appends (pure a) (.ok a) [] := by
  intro w
  change (Except.ok a, w) = _
  simp

theorem appends_throw (e : EncodeError) : Appends (throw e : Writing α) (.error e) [] := by
  intro w
  change (Except.error e, w) = _
  simp

theorem appends_put (bytes : List UInt8) : Appends (put bytes) (.ok ()) bytes := fun _ => rfl

theorem call_bind (act : Writing α) (next : α → Writing β) (w : Writer) :
    call (act >>= next) w = match call act w with
      | (.ok a, w) => call (next a) w
      | (.error e, w) => (.error e, w) := by
  simp only [call, bind, EStateM.bind]
  cases act w <;> rfl

theorem appends_bind {a : α} {answer : Except EncodeError β} {more : List UInt8}
    (h : Appends act (.ok a) bytes) (hnext : Appends (next a) answer more) :
    Appends (act >>= next) answer (bytes ++ more) := by
  intro w
  rw [call_bind, h w]
  dsimp only
  rw [hnext]
  simp [← Array.toList_inj]

theorem appends_bind_error {e : EncodeError} (h : Appends act (.error e) bytes) :
    Appends (act >>= next) (.error e) bytes := by
  intro w
  rw [call_bind, h w]

/-- What comes first is written first. -/
theorem Appends.bind (h : Appends act answer bytes) (hnext : ∀ a, Steady (next a)) :
    ∃ answer more, Appends (act >>= next) answer (bytes ++ more) := by
  cases answer with
  | ok a =>
    obtain ⟨answer, more, hmore⟩ := hnext a
    exact ⟨answer, more, appends_bind h hmore⟩
  | error e => exact ⟨.error e, [], by simpa using appends_bind_error h⟩

theorem Steady.bind (h : Steady act) (hnext : ∀ a, Steady (next a)) : Steady (act >>= next) := by
  obtain ⟨answer, bytes, h⟩ := h
  obtain ⟨answer, more, hmore⟩ := h.bind hnext
  exact ⟨answer, bytes ++ more, hmore⟩

theorem steady_pure (a : α) : Steady (pure a : Writing α) := ⟨_, _, appends_pure a⟩

theorem steady_throw (e : EncodeError) : Steady (throw e : Writing α) := ⟨_, _, appends_throw e⟩

theorem steady_put (bytes : List UInt8) : Steady (put bytes) := ⟨_, _, appends_put bytes⟩

theorem steady_forM {putItem : α → Writing Unit} (h : ∀ x, Steady (putItem x)) (items : List α) :
    Steady (items.forM putItem) := by
  induction items with
  | nil => exact steady_pure ()
  | cons x items ih => exact (h x).bind fun _ => ih

end Actions

theorem steady_putLength (field : Field) (n : Nat) : Steady (putLength field n) := by
  unfold putLength
  split
  · exact steady_put _
  · exact steady_throw _

theorem steady_putText (field : Field) (s : String) : Steady (putText field s) :=
  (steady_putLength field _).bind fun _ => steady_put _

theorem steady_putFunction (f : Func) : Steady (putFunction f) := by
  refine (steady_putText _ f.name).bind fun _ => ?_
  refine (steady_put _).bind fun _ => (steady_put _).bind fun _ => ?_
  dsimp only
  split
  · exact steady_throw _
  · exact (steady_put _).bind fun _ => steady_put _

/-- The first thing written is the code of a section. -/
def Opens (act : Writing α) (kind : SectionKind) : Prop :=
  ∃ answer rest, Appends act answer (wordBytes kind.code ++ rest)

section Opening

variable {act : Writing α} {next : α → Writing β} {kind : SectionKind}

theorem Opens.steady (h : Opens act kind) : Steady act := by
  obtain ⟨answer, rest, h⟩ := h
  exact ⟨answer, _, h⟩

theorem opens_after {a : α} (h : Appends act (.ok a) []) (hnext : Opens (next a) kind) :
    Opens (act >>= next) kind := by
  obtain ⟨answer, rest, hnext⟩ := hnext
  have hboth := appends_bind h hnext
  rw [List.nil_append] at hboth
  exact ⟨answer, rest, hboth⟩

theorem Opens.bind (h : Opens act kind) (hnext : ∀ a, Steady (next a)) :
    Opens (act >>= next) kind := by
  obtain ⟨answer, rest, h⟩ := h
  obtain ⟨answer, more, hmore⟩ := h.bind hnext
  rw [List.append_assoc] at hmore
  exact ⟨answer, rest ++ more, hmore⟩

end Opening

/-- The code of a section is written before anything can be found wrong with it. -/
theorem putSection_cases (kind : SectionKind) (count : Field) (items : List α)
    {putItem : α → Writing Unit} (hitems : ∀ x, Steady (putItem x)) :
    Appends (putSection kind count items putItem) (.ok ()) [] ∨
      Opens (putSection kind count items putItem) kind := by
  unfold putSection
  split
  · exact .inl (appends_pure ())
  · obtain ⟨answer, rest, h⟩ := (appends_put (wordBytes kind.code)).bind fun _ =>
      (steady_putLength count items.length).bind fun _ => steady_forM hitems items
    exact .inr ⟨answer, rest, h⟩

/-- A module without functions and strings leaves nothing. Any other one leaves a section, or the
beginning of one, whether it is accepted or not. -/
theorem putModule_cases (m : Module) :
    Appends (putModule m) (.ok ()) [] ∨ ∃ kind, Opens (putModule m) kind := by
  have hstrings := putSection_cases .strings .stringCount m.strings (steady_putText .string)
  rcases putSection_cases .functions .functionCount m.functions steady_putFunction with hf | hf
  · rcases hstrings with hs | hs
    · exact .inl (appends_bind hf hs)
    · exact .inr ⟨.strings, opens_after hf hs⟩
  · have hrest : Steady (putSection .strings .stringCount m.strings (putText .string)) := by
      rcases hstrings with hs | hs
      · exact ⟨_, _, hs⟩
      · exact hs.steady
    exact .inr ⟨.functions, hf.bind fun _ => hrest⟩

theorem steady_putModule (m : Module) : Steady (putModule m) := by
  rcases putModule_cases m with h | ⟨kind, h⟩
  · exact ⟨_, _, h⟩
  · exact h.steady

/-- What a writer answers to the module. -/
def answer (m : Module) : Except EncodeError Unit := (call (putModule m) ⟨#[]⟩).1

/-- What the module leaves in the file. -/
def piece (m : Module) : List UInt8 := (call (putModule m) ⟨#[]⟩).2.payload.toList

def accepts (m : Module) : Bool := (answer m).isOk

/-- The writer after all the modules, the rejected ones among them. -/
def calls (ms : List Module) (w : Writer) : Writer :=
  ms.foldl (fun w m => (call (putModule m) w).2) w

theorem call_putModule (m : Module) (w : Writer) :
    call (putModule m) w = (answer m, ⟨w.payload ++ piece m⟩) := by
  obtain ⟨x, bytes, h⟩ := steady_putModule m
  have hempty := h ⟨#[]⟩
  rw [h w, answer, piece, hempty]
  simp

theorem payload_calls (ms : List Module) (w : Writer) :
    (calls ms w).payload.toList = w.payload.toList ++ ms.flatMap piece := by
  induction ms generalizing w with
  | nil => simp [calls]
  | cons m ms ih =>
    have hcons : calls (m :: ms) w = calls ms (call (putModule m) w).2 := rfl
    rw [hcons, ih, call_putModule]
    simp

/-- A rejected module leaves the beginning of a section. -/
theorem piece_of_rejected {m : Module} (h : accepts m = false) :
    ∃ kind rest, piece m = wordBytes (SectionKind.code kind) ++ rest := by
  rcases putModule_cases m with hm | ⟨kind, x, rest, hm⟩
  · have hempty := hm ⟨#[]⟩
    rw [accepts, answer, hempty] at h
    cases h
  · have hempty := hm ⟨#[]⟩
    refine ⟨kind, rest, ?_⟩
    rw [piece, hempty]
    simp

theorem length_flatMap_piece (ms : List Module) :
    (ms.flatMap piece).length = ((ms.filter accepts).flatMap piece).length +
      ((ms.filter fun m => !accepts m).flatMap piece).length := by
  have hperm := (List.filter_append_perm accepts ms).flatMap_right piece
  rw [← hperm.length_eq, List.flatMap_append, List.length_append]

theorem size_of_finish_eq {w w' : Writer} (h : w.finish = w'.finish) :
    w.payload.size = w'.payload.size := by
  unfold finish at h
  split at h <;> split at h
  · have hbytes := congrArg List.length (Except.ok.inj h)
    simpa [lengthBytes, length_wordBytes] using hbytes
  · cases h
  · cases h
  · have hsize := Except.error.inj h
    injection hsize

/-- Each module leaves its piece in the file, also one that is rejected, and then the piece begins
with the code of a section. So a file is as if the rejected modules had never been given to the
writer only where there are none. -/
theorem finish_calls_eq_iff (ms : List Module) :
    ((calls ms .new).finish = (calls (ms.filter accepts) .new).finish ↔
        ∀ m ∈ ms, accepts m = true) ∧
      (∀ m w, call (putModule m) w = (answer m, ⟨w.payload ++ piece m⟩)) ∧
      ∀ m, accepts m = false →
        ∃ kind rest, piece m = wordBytes (SectionKind.code kind) ++ rest := by
  refine ⟨⟨fun h m hm => ?_, fun h => ?_⟩, call_putModule, fun m => piece_of_rejected⟩
  · by_contra hrejected
    rw [Bool.not_eq_true] at hrejected
    have hsize := size_of_finish_eq h
    rw [← Array.length_toList, ← Array.length_toList, payload_calls, payload_calls,
      List.length_append, List.length_append, length_flatMap_piece ms] at hsize
    have hnone : ((ms.filter fun m => !accepts m).flatMap piece).length = 0 := by omega
    have hmem : m ∈ ms.filter fun m => !accepts m := by simp [hm, hrejected]
    have hempty := List.flatMap_eq_nil_iff.1 (List.length_eq_zero_iff.1 hnone) m hmem
    obtain ⟨kind, rest, hpiece⟩ := piece_of_rejected hrejected
    rw [hempty] at hpiece
    cases hpiece
  · rw [List.filter_eq_self.2 h]

/-- The second function has a sentinel in the middle. -/
def spoiled : Module where
  functions := [⟨"e", 1, 0, [.make .functionReturn 0]⟩,
    ⟨"f", 0, 0, [.make .pushInt 1, .endSection, .make .functionReturn 0]⟩]
  strings := ["s"]

def oneString : Module where
  strings := ["a"]

theorem answer_spoiled : answer spoiled = .error (.embeddedEndSection "f" 1) := by
  decide +kernel

/-- What follows the beginning of the second function is taken for its code. -/
theorem finish_calls_eq_iff_spoiled :
    accepts spoiled = false ∧ accepts oneString = true ∧
    (calls [spoiled, oneString] .new).finish ≠ (calls [oneString] .new).finish ∧
    (∃ kind rest, piece spoiled = wordBytes (SectionKind.code kind) ++ rest) ∧
    (calls [spoiled, oneString] .new).finish.toOption.map decode =
      some (.error (.truncated .instruction 66)) ∧
    (calls [oneString] .new).finish.toOption.map decode =
      some (.ok (oneString, .ofModule oneString)) := by
  have hspoiled : accepts spoiled = false := by rw [accepts, answer_spoiled]; rfl
  have honeString : accepts oneString = true := by decide +kernel
  obtain ⟨hfinish, -, hpiece⟩ := finish_calls_eq_iff [spoiled, oneString]
  refine ⟨hspoiled, honeString, fun h => ?_, hpiece spoiled hspoiled, by decide +kernel,
    by decide +kernel⟩
  have hfilter : [spoiled, oneString].filter accepts = [oneString] := by
    simp [hspoiled, honeString]
  rw [hfilter] at hfinish
  have haccepted := hfinish.1 h spoiled List.mem_cons_self
  rw [hspoiled] at haccepted
  cases haccepted

/-- A rejected module does not leave the file as it was. -/
theorem not_finish_calls :
    ¬ ∀ (before after : List Module) (m : Module) (e : EncodeError),
      (call (putModule m) (calls before .new)).1 = .error e →
      (calls (before ++ m :: after) .new).finish = (calls (before ++ after) .new).finish := by
  intro hall
  have hsame := hall [] [oneString] spoiled (.embeddedEndSection "f" 1) (by decide +kernel)
  revert hsame
  decide +kernel

end StackMachine.Image.Writer
