import StackMachine.Proofs.Image.Rejection
import StackMachine.Proofs.Image.Saving

/-! What the writer finds wrong with a module. The code of a function has its answer whatever was
written before; with names and a count that fit into a word, the functions have the answer of the
first one among them that is rejected. After them nothing but a size can be wrong. -/

namespace StackMachine.Image.Writer

/-- Nothing can be found wrong with what is written but its size. -/
def Measures {α : Type} (act : Writing α) : Prop :=
  ∀ w w' e, act w = .error e w' → ∃ field n, e = .tooLarge field n

section Sizes

variable {α β : Type} {act : Writing α} {next : α → Writing β}

theorem Measures.bind (h : Measures act) (hnext : ∀ a, Measures (next a)) :
    Measures (act >>= next) := by
  intro w w' e he
  rcases error_of_bind he with he | ⟨a, v, -, he⟩
  · exact h w w' e he
  · exact hnext a v w' e he

theorem measures_pure (a : α) : Measures (pure a) := nofun

theorem measures_put (bytes : List UInt8) : Measures (put bytes) := nofun

theorem measures_putLength (field : Field) (n : Nat) : Measures (putLength field n) := by
  unfold putLength
  split
  · exact measures_put _
  · rintro w w' e ⟨⟩
    exact ⟨field, n, rfl⟩

theorem measures_putText (field : Field) (s : String) : Measures (putText field s) :=
  (measures_putLength field _).bind fun _ => measures_put _

theorem measures_forM {putItem : α → Writing Unit} (h : ∀ x, Measures (putItem x))
    (items : List α) : Measures (items.forM putItem) := by
  induction items with
  | nil => exact measures_pure ()
  | cons x items ih => exact (h x).bind fun _ => ih

theorem measures_putSection (kind : SectionKind) (count : Field) (items : List α)
    {putItem : α → Writing Unit} (h : ∀ x, Measures (putItem x)) :
    Measures (putSection kind count items putItem) := by
  unfold putSection
  split
  · exact measures_pure ()
  · refine (measures_put _).bind fun _ => (measures_putLength _ _).bind fun _ => ?_
    exact measures_forM h items

end Sizes

/-- What the writer finds wrong with the code of a function. -/
def codeAnswer (f : Func) : Except EncodeError Unit :=
  match (body f.code).findIdx? Instruction.isEnd with
  | some index => .error (.embeddedEndSection f.name index)
  | none => .ok ()

def Answers {α : Type} (act : Writing α) (answer : Except EncodeError α) : Prop :=
  ∃ bytes, Appends act answer bytes

section Answering

variable {α β : Type} {act : Writing α} {next : α → Writing β}

theorem Answers.bind_ok {a : α} {answer : Except EncodeError β} (h : Answers act (.ok a))
    (hnext : Answers (next a) answer) : Answers (act >>= next) answer := by
  obtain ⟨bytes, h⟩ := h
  obtain ⟨more, hnext⟩ := hnext
  exact ⟨_, appends_bind h hnext⟩

theorem Answers.bind_error {e : EncodeError} (h : Answers act (.error e)) :
    Answers (act >>= next) (.error e) := by
  obtain ⟨bytes, h⟩ := h
  exact ⟨_, appends_bind_error h⟩

theorem answers_put (bytes : List UInt8) : Answers (put bytes) (.ok ()) := ⟨_, appends_put bytes⟩

theorem answers_putLength (field : Field) {n : Nat} (hn : n < 0x100000000) :
    Answers (putLength field n) (.ok ()) :=
  ⟨_, fun w => by rw [call, putLength_of_lt field hn]⟩

theorem answers_putText (field : Field) {s : String}
    (hs : (Text.dropNul s).utf8ByteSize < 0x100000000) : Answers (putText field s) (.ok ()) :=
  ⟨_, fun w => by rw [call, putText_of_lt field w hs]⟩

theorem answers_putFunction {f : Func}
    (hname : (Text.dropNul f.name).utf8ByteSize < 0x100000000) :
    Answers (putFunction f) (codeAnswer f) := by
  unfold putFunction codeAnswer
  refine (answers_putText _ hname).bind_ok ?_
  refine (answers_put _).bind_ok ((answers_put _).bind_ok ?_)
  dsimp only
  cases (body f.code).findIdx? Instruction.isEnd with
  | some index => exact ⟨_, appends_throw _⟩
  | none => exact (answers_put _).bind_ok (answers_put _)

theorem answers_forM {putItem : α → Writing Unit} {answer : α → Except EncodeError Unit}
    {items : List α} (h : ∀ x ∈ items, Answers (putItem x) (answer x)) :
    Answers (items.forM putItem) (items.forM answer) := by
  induction items with
  | nil => exact ⟨_, appends_pure ()⟩
  | cons x items ih =>
    obtain ⟨hx, hitems⟩ := List.forall_mem_cons.1 h
    change Answers (putItem x >>= fun _ => items.forM putItem)
      (answer x >>= fun _ => items.forM answer)
    cases hanswer : answer x with
    | ok u => exact (hanswer ▸ hx).bind_ok (ih hitems)
    | error e => exact (hanswer ▸ hx).bind_error

end Answering

variable {m : Module} (hcount : m.functions.length < 0x100000000)
  (hnames : ∀ f ∈ m.functions, (Text.dropNul f.name).utf8ByteSize < 0x100000000)
include hcount hnames

theorem answers_functions : Answers
    (putSection .functions .functionCount m.functions putFunction)
    (m.functions.forM codeAnswer) := by
  have hitems := answers_forM fun f hf => answers_putFunction (hnames f hf)
  unfold putSection
  cases hfunctions : m.functions with
  | nil => exact ⟨_, appends_pure ()⟩
  | cons f fs =>
    rw [hfunctions] at hcount hitems
    exact (answers_put _).bind_ok ((answers_putLength _ hcount).bind_ok hitems)

/-- The functions decide whether a sentinel is in the wrong place: the strings and the file as a
whole are measured only. -/
theorem encode_embedded_iff {name : String} {index : Nat} :
    encode m = .error (.embeddedEndSection name index) ↔
      m.functions.forM codeAnswer = .error (.embeddedEndSection name index) := by
  obtain ⟨bytes, hanswer⟩ := answers_functions hcount hnames
  have hcall := hanswer .new
  unfold call at hcall
  unfold encode putModule
  cases hfunctions : putSection .functions .functionCount m.functions putFunction .new with
  | error e w =>
    rw [hfunctions] at hcall
    have hforM : m.functions.forM codeAnswer = .error e := (Prod.ext_iff.1 hcall).1.symm
    rw [bind_of_error hfunctions, hforM]
    simp
  | ok u w =>
    rw [hfunctions] at hcall
    have hforM : m.functions.forM codeAnswer = .ok u := (Prod.ext_iff.1 hcall).1.symm
    rw [bind_of_ok hfunctions, hforM]
    refine iff_of_false ?_ nofun
    cases hstrings : putSection .strings .stringCount m.strings (putText .string) w with
    | error e w' =>
      obtain ⟨field, n, rfl⟩ :=
        measures_putSection _ _ _ (measures_putText .string) w w' e hstrings
      nofun
    | ok u w' =>
      unfold finish
      dsimp only
      split <;> nofun

end StackMachine.Image.Writer
