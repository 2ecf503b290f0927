import StackMachine.Proofs.Heap.Values
import StackMachine.Proofs.Machine.Interpreted
import StackMachine.Proofs.Machine.Parity

/-! A run and its shadow, which goes through the same stores. The code of the two corresponds, as in
any comparison, but here no object is renamed, so nothing need be known of the heap, however large.
Either both have the same limits, or the shadow may have more room; then it may go on where the run
comes to a limit. -/

namespace StackMachine

/-- What code makes of other values, or of none, has the property. -/
structure Value.Closed (P : Value → Prop) : Prop where
  int : ∀ n, P (.int n)
  string : ∀ i, P (.string i)
  ref : ∀ r, P (.ref r)

/-- A setting beside itself. Nothing is excluded but values without the property. -/
def Setting.itself (m : Setting) (P : Value → Prop) : Comparison where
  left := m
  right := m
  word := P
  code := Eq
  entry _ := True
  allowed _ := True
  outputs := Eq
  rigid := True

theorem Setting.Plain.itself {m : Setting} {P : Value → Prop} (hm : m.Plain)
    (hP : Value.Closed P) : (m.itself P).Lawful where
  ordinary _ := trivial
  int := hP.int
  text _ := .self (fun _ _ => rfl) fun _ _ => trivial
  fetch := by
    rintro a _ rfl
    have hoperand := Comparison.operand_self (K := m.itself P) hP.string (fun _ => trivial)
      (fun _ => trivial) a
    exact .self (fun x _ => ⟨rfl, rfl, hoperand _ _, fun _ _ => rfl⟩) fun _ _ => trivial
  entry _ := .self (fun r _ => ⟨rfl, rfl, fun _ => rfl⟩) fun _ _ => trivial
  write := by
    rintro o _ rfl bytes
    exact ⟨rfl, rfl⟩
  depth := rfl
  primitives := ⟨hm.primitives, hm.primitives⟩
  interpreted i := ⟨hm.interpreted i, hm.interpreted i⟩

structure Shadow extends Comparison where
  /-- Call depth that the shadow may reach. -/
  depth : Nat
  wider : Prop

namespace Shadow

variable (S : Shadow)

/-- The setting of the shadow. -/
def setting : Setting := { S.right with maxDepth := S.depth }

/-- A limit of the run and the same limit of the shadow. -/
def Bounds (n₁ n₂ : Nat) : Prop := n₁ = n₂ ∨ S.wider ∧ n₁ ≤ n₂

structure Lawful : Prop where
  comparison : S.toComparison.Lawful
  depth : S.Bounds S.left.maxDepth S.depth
  ref : ∀ r, S.word (.ref r)

/-- The stores are the same, but for limits and logs; all values are ones that may occur. -/
inductive Stores : Store → Store → Prop
  | intro {values : Array Value} {n₁ n₂ : Nat} {heap : Heap} {output : Output} {log₁ log₂ : Log} :
      S.Bounds n₁ n₂ → (∀ v ∈ values, S.word v) → heap.Holds S.word →
      Stores ⟨⟨values, n₁⟩, heap, output, log₁⟩ ⟨⟨values, n₂⟩, heap, output, log₂⟩

/-- The same result or the same fault on both sides; or the run has come to a limit. -/
inductive Results {α β : Type} (R : α → β → Prop) :
    EStateM.Result Fault Store α → EStateM.Result Fault Store β → Prop
  | ok {a : α} {b : β} {s₁ s₂ : Store} : R a b → S.Stores s₁ s₂ → Results R (.ok a s₁) (.ok b s₂)
  | error {f : Fault} {s₁ s₂ : Store} : S.Stores s₁ s₂ → Results R (.error f s₁) (.error f s₂)
  | cut {f : Fault} {s : Store} {r : EStateM.Result Fault Store β} :
      S.wider → f.isLimit → Results R (.error f s) r

def Alike {α β : Type} (x₁ : Action α) (x₂ : Action β) (R : α → β → Prop) : Prop :=
  ∀ ⦃s₁ s₂⦄, S.Stores s₁ s₂ → S.Results R (x₁ s₁) (x₂ s₂)

/-- The same value, and one that may occur. -/
def Same (v w : Value) : Prop := v = w ∧ S.word v

variable {S}

theorem Bounds.le {n₁ n₂ : Nat} (h : S.Bounds n₁ n₂) : n₁ ≤ n₂ := by
  rcases h with rfl | ⟨-, h⟩
  · exact Nat.le_refl _
  · exact h

section Rules

variable {α β γ δ : Type} {R : α → β → Prop} {Q : γ → δ → Prop}

theorem Alike.pure {a : α} {b : β} (h : R a b) : S.Alike (Pure.pure a) (Pure.pure b) R :=
  fun _ _ hs => .ok h hs

theorem Alike.throw (f : Fault) :
    S.Alike (MonadExcept.throw f : Action α) (MonadExcept.throw f : Action β) R :=
  fun _ _ hs => .error hs

theorem Alike.bind {x₁ : Action α} {x₂ : Action β} {f₁ : α → Action γ} {f₂ : β → Action δ}
    (hx : S.Alike x₁ x₂ R) (hf : ∀ a b, R a b → S.Alike (f₁ a) (f₂ b) Q) :
    S.Alike (x₁ >>= f₁) (x₂ >>= f₂) Q := by
  intro s₁ s₂ hs
  have hr := hx hs
  simp only [Bind.bind, EStateM.bind]
  generalize x₁ s₁ = r₁ at hr
  generalize x₂ s₂ = r₂ at hr
  cases hr with
  | ok h hs => exact hf _ _ h hs
  | error hs => exact .error hs
  | cut hw hl => exact .cut hw hl

theorem Alike.ofExcept {allowed : Fault → Prop} {r₁ : Except Fault α} {r₂ : Except Fault β}
    (h : Agree R allowed r₁ r₂) :
    S.Alike (MonadExcept.ofExcept r₁) (MonadExcept.ofExcept r₂) R := by
  cases h with
  | ok h => exact .pure h
  | error => exact .throw _

end Rules

open StackMachine.Action Machine

section Stacks

variable {v : Value}

/-- An operation that changes the values on a condition, and faults without it. -/
theorem guard_alike (c : Stack → Prop) [DecidablePred c] (f : Stack → Fault)
    (next : Array Value → Array Value)
    (hnext : ∀ values, (∀ v ∈ values, S.word v) → ∀ v ∈ next values, S.word v)
    (hc : ∀ values {n₁ n₂}, n₁ ≤ n₂ → c ⟨values, n₁⟩ → c ⟨values, n₂⟩)
    (hf : (∀ t, (f t).isLimit) ∨
      ∀ values n₁ n₂, (c ⟨values, n₂⟩ → c ⟨values, n₁⟩) ∧ f ⟨values, n₁⟩ = f ⟨values, n₂⟩) :
    let act : StackOp Unit := fun t =>
      if c t then .ok () { t with values := next t.values } else .error (f t) t
    S.Alike (liftStack act) (liftStack act) fun _ _ => True := by
  rintro act _ _ ⟨hn, hw, hh⟩
  rename_i values n₁ n₂ heap output log₁ log₂
  simp only [liftStack, act]
  by_cases hc₁ : c ⟨values, n₁⟩
  · rw [if_pos hc₁, if_pos (hc values hn.le hc₁)]
    exact .ok trivial (.intro hn (hnext values hw) hh)
  · rw [if_neg hc₁]
    -- the refusal is that of a limit, or it is one on both sides
    rcases hf with hlimit | hsame
    · rcases hn with rfl | ⟨hwider, -⟩
      · rw [if_neg hc₁]
        exact .error (.intro (.inl rfl) hw hh)
      · exact .cut hwider (hlimit _)
    · obtain ⟨hback, hfault⟩ := hsame values n₁ n₂
      rw [if_neg (mt hback hc₁), hfault]
      exact .error (.intro hn hw hh)

theorem push_alike (hv : S.word v) :
    S.Alike (liftStack (Stack.push v)) (liftStack (Stack.push v)) fun _ _ => True := by
  refine guard_alike _ (fun t => .stackOverflow t.limit) (fun values => values.push v)
    (fun values hw w hmem => ?_) (fun _ _ _ hle hroom => Nat.lt_of_lt_of_le hroom hle)
    (.inl fun _ => rfl)
  rcases Array.mem_push.1 hmem with hmem | rfl
  · exact hw w hmem
  · exact hv

theorem pushZeros_alike (hzero : S.word .zero) (n : Nat) :
    S.Alike (liftStack (Stack.pushZeros n)) (liftStack (Stack.pushZeros n)) fun _ _ => True := by
  refine guard_alike (fun t => n ≤ t.limit - t.height) (fun t => .stackOverflow t.limit)
    (fun values => values ++ Array.replicate n .zero) (fun values hw w hmem => ?_)
    (fun _ _ _ hle hroom => Nat.le_trans hroom (Nat.sub_le_sub_right hle _)) (.inl fun _ => rfl)
  rcases Array.mem_append.1 hmem with hmem | hmem
  · exact hw w hmem
  · rw [(Array.mem_replicate.1 hmem).2]
    exact hzero

theorem restore_alike (cursor : Nat) :
    S.Alike (liftStack (Stack.restore cursor)) (liftStack (Stack.restore cursor))
      fun _ _ => True := by
  refine guard_alike _ _ (fun values => values.shrink cursor) (fun values hw w hmem => ?_)
    (fun _ _ _ _ h => h) (.inr fun _ _ _ => ⟨id, rfl⟩)
  rw [← Array.mem_toList_iff, Array.toList_shrink] at hmem
  exact hw w (Array.mem_toList_iff.1 (List.mem_of_mem_take hmem))

theorem set_alike (i : Nat) (hv : S.word v) :
    S.Alike (liftStack (Stack.set i v)) (liftStack (Stack.set i v)) fun _ _ => True := by
  refine guard_alike _ _ (fun values => values.setIfInBounds i v) (fun values hw w hmem => ?_)
    (fun _ _ _ _ h => h) (.inr fun _ _ _ => ⟨id, rfl⟩)
  rcases Array.mem_or_eq_of_mem_setIfInBounds hmem with hmem | rfl
  · exact hw w hmem
  · exact hv

theorem pop_alike : S.Alike (liftStack Stack.pop) (liftStack Stack.pop) S.Same := by
  rintro _ _ ⟨hn, hw, hh⟩
  rename_i values n₁ n₂ heap output log₁ log₂
  simp only [liftStack, Stack.pop]
  cases hback : values.back? with
  | none => exact .error (.intro hn hw hh)
  | some v =>
    refine .ok ⟨rfl, hw v (Array.mem_of_back? hback)⟩ (.intro hn (fun w hmem => hw w ?_) hh)
    rw [← Array.mem_toList_iff, Array.toList_pop] at hmem
    exact Array.mem_toList_iff.1 (List.mem_of_mem_dropLast hmem)

theorem peek_alike : S.Alike (liftStack Stack.peek) (liftStack Stack.peek) S.Same := by
  rintro _ _ ⟨hn, hw, hh⟩
  rename_i values n₁ n₂ heap output log₁ log₂
  simp only [liftStack, Stack.peek]
  cases hback : values.back? with
  | none => exact .error (.intro hn hw hh)
  | some v => exact .ok ⟨rfl, hw v (Array.mem_of_back? hback)⟩ (.intro hn hw hh)

theorem get_alike (i : Nat) :
    S.Alike (liftStack (Stack.get i)) (liftStack (Stack.get i)) S.Same := by
  rintro _ _ ⟨hn, hw, hh⟩
  rename_i values n₁ n₂ heap output log₁ log₂
  simp only [liftStack, Stack.get]
  cases hi : values[i]? with
  | none => exact .error (.intro hn hw hh)
  | some v => exact .ok ⟨rfl, hw v (Array.mem_of_getElem? hi)⟩ (.intro hn hw hh)

end Stacks

section Objects

theorem record_alike (e₁ e₂ : Event) : S.Alike (record e₁) (record e₂) fun _ _ => True := by
  rintro _ _ ⟨hn, hw, hh⟩
  exact .ok trivial (.intro hn hw hh)

theorem height_alike : S.Alike Action.height Action.height Eq := by
  rintro _ _ ⟨hn, hw, hh⟩
  exact .ok rfl (.intro hn hw hh)

theorem write_alike (bytes : List UInt8) :
    S.Alike (write bytes) (write bytes) fun _ _ => True := by
  rintro _ _ ⟨hn, hw, hh⟩
  rename_i values n₁ n₂ heap output log₁ log₂
  simp only [write]
  rcases output.write bytes with ⟨_ | _, output'⟩
  · exact .error (.intro hn hw hh)
  · exact .ok trivial (.intro hn hw hh)

theorem allocate_alike : S.Alike allocate allocate Eq := by
  rintro _ _ ⟨hn, hw, hh⟩
  exact .ok rfl (.intro hn hw (hh.allocate _))

theorem collect_alike : S.Alike collect collect fun _ _ => True := by
  rintro _ _ ⟨hn, hw, hh⟩
  exact .ok trivial (.intro hn hw (hh.collect _))

theorem lookupField_alike (r : ObjectRef) (id : FieldId) :
    S.Alike (lookupField r id) (lookupField r id) Eq := by
  rintro _ _ ⟨hn, hw, hh⟩
  rename_i values n₁ n₂ heap output log₁ log₂
  change S.Results Eq (ofMemory (heap.lookupField r id) _) (ofMemory (heap.lookupField r id) _)
  cases heap.lookupField r id with
  | ok slot => exact .ok rfl (.intro hn hw hh)
  | error e => exact .error (.intro hn hw hh)

theorem getField_alike (r : ObjectRef) (slot : Nat) :
    S.Alike (getField r slot) (getField r slot) S.Same := by
  rintro _ _ ⟨hn, hw, hh⟩
  rename_i values n₁ n₂ heap output log₁ log₂
  change S.Results S.Same (ofMemory (heap.getField r slot) _) (ofMemory (heap.getField r slot) _)
  cases hv : heap.getField r slot with
  | ok v => exact .ok ⟨rfl, hh.getField hv⟩ (.intro hn hw hh)
  | error e => exact .error (.intro hn hw hh)

theorem addField_alike (hzero : S.word .zero) (r : ObjectRef) (id : FieldId) :
    S.Alike (addField r id) (addField r id) Eq := by
  rintro _ _ ⟨hn, hw, hh⟩
  rename_i values n₁ n₂ heap output log₁ log₂
  simp only [addField, liftHeap]
  cases hadd : Heap.addField r id heap with
  | ok slot heap' => exact .ok rfl (.intro hn hw (hh.addField hzero hadd))
  | error e heap' =>
    obtain rfl := Heap.addField_error hadd
    exact .error (.intro hn hw hh)

theorem setField_alike (r : ObjectRef) (slot : Nat) {v : Value} (hv : S.word v) :
    S.Alike (setField r slot v) (setField r slot v) fun _ _ => True := by
  rintro _ _ ⟨hn, hw, hh⟩
  rename_i values n₁ n₂ heap output log₁ log₂
  simp only [setField, liftHeap]
  cases hset : Heap.setField r slot v heap with
  | ok _ heap' => exact .ok trivial (.intro hn hw (hh.setField hv hset))
  | error e heap' =>
    obtain rfl := Heap.setField_error hset
    exact .error (.intro hn hw hh)

end Objects

section Operands

variable {v₁ v₂ : Value}

/-- Whatever may be asked of a pair of values that are renamings of each other may be asked of
values that are the same. -/
theorem Same.renamed (h : S.Same v₁ v₂) : S.toComparison.Values Eq v₁ v₂ := by
  obtain ⟨rfl, hw⟩ := h
  cases v₁ with
  | ref r => exact .ref rfl
  | _ => exact .word rfl hw

theorem popTwo_alike : S.Alike (liftStack Stack.popTwo) (liftStack Stack.popTwo)
    fun x y => S.Same x.1 y.1 ∧ S.Same x.2 y.2 := by
  rw [Stack.popTwo, liftStack_bind]
  refine pop_alike.bind fun right₁ right₂ hright => ?_
  rw [liftStack_bind, liftStack_bind]
  exact pop_alike.bind fun left₁ left₂ hleft => .pure ⟨hleft, hright⟩

theorem load_alike {slot₁ slot₂ : Except Fault Nat} (hslot : Agree Eq S.allowed slot₁ slot₂) :
    S.Alike (do let slot ← ofExcept slot₁; liftStack do Stack.push (← Stack.get slot))
      (do let slot ← ofExcept slot₂; liftStack do Stack.push (← Stack.get slot))
      fun _ _ => True := by
  refine (Alike.ofExcept hslot).bind fun i j hij => ?_
  subst hij
  rw [liftStack_bind]
  refine (get_alike i).bind ?_
  rintro v _ ⟨rfl, hv⟩
  exact push_alike hv

theorem store_alike {slot₁ slot₂ : Except Fault Nat} (hslot : Agree Eq S.allowed slot₁ slot₂) :
    S.Alike (do let slot ← ofExcept slot₁; liftStack do Stack.set slot (← Stack.pop))
      (do let slot ← ofExcept slot₂; liftStack do Stack.set slot (← Stack.pop))
      fun _ _ => True := by
  refine (Alike.ofExcept hslot).bind fun i j hij => ?_
  subst hij
  rw [liftStack_bind]
  refine pop_alike.bind ?_
  rintro v _ ⟨rfl, hv⟩
  exact set_alike i hv

theorem duplicate_alike : S.Alike (liftStack do Stack.push (← Stack.peek))
    (liftStack do Stack.push (← Stack.peek)) fun _ _ => True := by
  rw [liftStack_bind]
  refine peek_alike.bind ?_
  rintro v _ ⟨rfl, hv⟩
  exact push_alike hv

theorem drop_alike : S.Alike (discard (liftStack Stack.pop)) (discard (liftStack Stack.pop))
    fun _ _ => True :=
  pop_alike.bind fun _ _ _ => .pure trivial

theorem expectRef_alike (op : Opcode) (v : Value) :
    S.Alike (expectRef op v) (expectRef op v) Eq := by
  cases v with
  | ref r => exact .pure rfl
  | _ => exact .throw _

theorem pushField_alike (id : FieldId) :
    S.Alike (pushField id) (pushField id) fun _ _ => True := by
  refine pop_alike.bind ?_
  rintro v _ ⟨rfl, -⟩
  refine (expectRef_alike _ v).bind fun r r' hr => ?_
  subst hr
  refine (lookupField_alike r id).bind fun answer answer' ha => ?_
  subst ha
  cases answer with
  | none => exact .throw _
  | some slot =>
    refine (getField_alike r slot).bind ?_
    rintro w _ ⟨rfl, hw⟩
    exact push_alike hw

theorem ahead_alike {act₁ act₂ : Action Unit} (h : S.Alike act₁ act₂ fun _ _ => True) :
    S.Alike (ahead act₁) (ahead act₂) Eq :=
  h.bind fun _ _ _ => .pure rfl

end Operands

section Instructions

variable (hS : S.Lawful) {v₁ v₂ : Value}
include hS

theorem same_of_renamed (h : S.toComparison.Values Eq v₁ v₂) : S.Same v₁ v₂ := by
  cases h with
  | word hn hw => exact ⟨rfl, hw⟩
  | ref h => exact ⟨congrArg Value.ref h, hS.ref _⟩

theorem word_zero : S.word .zero := hS.comparison.int 0

theorem pushResult_alike {r₁ r₂ : Except Fault Value}
    (h : Agree (S.toComparison.Values Eq) S.allowed r₁ r₂) :
    S.Alike (pushResult r₁) (pushResult r₂) fun _ _ => True := by
  refine (Alike.ofExcept h).bind fun v w hvw => ?_
  obtain ⟨rfl, hv⟩ := same_of_renamed hS hvw
  exact push_alike hv

theorem branch_alike (relation : Relation) (a₁ a₂ : Activation) (operand : Int) :
    S.Alike (perform S.left.arena a₁ (.branch relation) operand)
      (perform S.right.arena a₂ (.branch relation) operand) Eq := by
  refine popTwo_alike.bind ?_
  rintro ⟨v₁, w₁⟩ ⟨v₂, w₂⟩ ⟨hv, hw⟩
  have htaken := Comparison.jumpTaken_agree hS.comparison relation hv.renamed hw.renamed
  refine (Alike.ofExcept htaken).bind fun taken taken' ht => ?_
  subst ht
  exact .pure rfl

theorem popField_alike (id : FieldId) :
    S.Alike (popField id) (popField id) fun _ _ => True := by
  have hstore : ∀ r slot, S.Alike
      (do
        discard <| liftStack Stack.pop
        let v ← liftStack Stack.pop
        setField r slot v)
      (do
        discard <| liftStack Stack.pop
        let v ← liftStack Stack.pop
        setField r slot v) fun _ _ => True := by
    intro r slot
    refine drop_alike.bind fun _ _ _ => pop_alike.bind ?_
    rintro v _ ⟨rfl, hv⟩
    exact setField_alike r slot hv
  refine peek_alike.bind ?_
  rintro v _ ⟨rfl, -⟩
  refine (expectRef_alike _ v).bind fun r r' hr => ?_
  subst hr
  refine (lookupField_alike r id).bind fun answer answer' ha => ?_
  subst ha
  cases answer with
  | none =>
    refine (addField_alike (word_zero hS) r id).bind fun slot slot' hslot => ?_
    subst hslot
    exact hstore r slot
  | some slot => exact hstore r slot

theorem perform_alike {op : Opcode} {operand : Int} {a₁ a₂ : Activation}
    (hop : op ≠ .functionCall ∧ op ≠ .functionReturn ∧ op ≠ .primitiveCall)
    (ho : S.toComparison.Operand a₁ a₂ operand op) :
    S.Alike (perform S.left.arena a₁ op operand) (perform S.right.arena a₂ op operand) Eq := by
  cases op with
  | endSection =>
    obtain ⟨hname, hip, -⟩ := ho
    simp only [perform, ← hname, ← hip]
    exact .throw _
  | functionCall => exact absurd rfl hop.1
  | functionReturn => exact absurd rfl hop.2.1
  | primitiveCall => exact absurd rfl hop.2.2
  | jump => exact .pure rfl
  | branch relation => exact branch_alike hS relation a₁ a₂ operand
  | duplicate => exact ahead_alike duplicate_alike
  | drop =>
    simp only [perform, liftStack_discard]
    exact ahead_alike drop_alike
  | pushLocal | pushParam => exact ahead_alike (load_alike ho)
  | popLocal | popParam => exact ahead_alike (store_alike ho)
  | pushInt => exact ahead_alike (push_alike (hS.comparison.int _))
  | pushString => exact ahead_alike (push_alike ho)
  | binary op =>
    refine ahead_alike (popTwo_alike.bind ?_)
    rintro ⟨v₁, w₁⟩ ⟨v₂, w₂⟩ ⟨hv, hw⟩
    exact pushResult_alike hS (Comparison.binary_agree hS.comparison op hv.renamed hw.renamed)
  | not =>
    refine ahead_alike (pop_alike.bind fun v w hv => ?_)
    exact pushResult_alike hS (Comparison.not_agree hS.comparison hv.renamed)
  | newObject =>
    refine ahead_alike (allocate_alike.bind fun r r' hr => ?_)
    subst hr
    exact push_alike (hS.ref r)
  | pushField => exact ahead_alike (pushField_alike _)
  | popField => exact ahead_alike (popField_alike hS _)
  | callIndirect => exact .throw _
  | collect => exact ahead_alike collect_alike

theorem primitiveAction_alike (index : Nat) :
    S.Alike (primitiveAction S.left.arena index) (primitiveAction S.right.arena index)
      fun _ _ => True := by
  have hline : ∀ bytes, S.Alike (do write bytes; liftStack (Stack.push .zero))
      (do write bytes; liftStack (Stack.push .zero)) fun _ _ => True :=
    fun bytes => (write_alike bytes).bind fun _ _ _ => push_alike (word_zero hS)
  match index with
  | 0 =>
    refine pop_alike.bind ?_
    rintro v _ ⟨rfl, hv⟩
    cases v with
    | uint48 n =>
      have htext : Agree Eq S.allowed ((S.left.arena.string n.toNat).mapError Fault.module)
          ((S.right.arena.string n.toNat).mapError Fault.module) := by
        have h := hS.comparison.text hv
        generalize S.left.arena.string n.toNat = x₁ at h
        generalize S.right.arena.string n.toNat = x₂ at h
        cases h with
        | ok h => exact .ok h
        | error h => exact .error h
      refine (Alike.ofExcept htext).bind fun t t' ht => ?_
      subst ht
      exact hline _
    | _ => exact .throw _
  | 1 =>
    refine pop_alike.bind ?_
    rintro v _ ⟨rfl, -⟩
    cases v with
    | int48 n => exact hline _
    | _ => exact .throw _
  | 2 =>
    rintro _ _ ⟨hn, hw, hh⟩
    exact hline _ (.intro hn hw hh)
  | n + 3 => exact .throw _

theorem effect_alike {op : Opcode} {operand : Int} {a₁ a₂ : Activation}
    (hop : op ≠ .functionCall ∧ op ≠ .functionReturn)
    (ho : S.toComparison.Operand a₁ a₂ operand op) :
    S.Alike (effect S.left.arena a₁ op operand) (effect S.right.arena a₂ op operand) Eq := by
  by_cases hprimitive : op = .primitiveCall
  · subst hprimitive
    exact ahead_alike (primitiveAction_alike hS _)
  · have hperform := perform_alike hS ⟨hop.1, hop.2, hprimitive⟩ ho
    cases op with
    | primitiveCall => exact absurd rfl hprimitive
    | _ => exact hperform

end Instructions

section Frames

variable (hS : S.Lawful) {a₁ a₂ : Activation}

theorem closeFrame_alike (hbase : a₁.base = a₂.base) :
    S.Alike (closeFrame a₁) (closeFrame a₂) S.Same := by
  unfold closeFrame
  rw [hbase]
  refine pop_alike.bind fun v w hv => (restore_alike _).bind fun _ _ _ => ?_
  exact (record_alike _ _).bind fun _ _ _ => .pure hv

theorem argumentBase_alike (n : Nat) : S.Alike (argumentBase n) (argumentBase n) Eq := by
  refine height_alike.bind fun h h' heq => ?_
  subst heq
  split
  · exact .pure rfl
  · exact .throw _

include hS

theorem openFrame_alike {i : Nat} (hi : S.entry i) (depth : Nat) :
    S.Alike (openFrame S.left.arena i depth) (openFrame S.right.arena i depth) S.code := by
  have hrecord : S.Alike (functionRecord S.left.arena i) (functionRecord S.right.arena i)
      S.toComparison.Opened := by
    have hentry := hS.comparison.entry hi
    unfold functionRecord
    generalize S.left.arena.functionRecord i = x₁ at hentry
    generalize S.right.arena.functionRecord i = x₂ at hentry
    cases hentry with
    | ok h => exact .pure h
    | error => exact .throw _
  refine hrecord.bind fun f₁ f₂ hopened => ?_
  rw [hopened.nparams, hopened.nlocals]
  refine (argumentBase_alike _).bind fun base base' hbase => ?_
  subst hbase
  refine (pushZeros_alike (word_zero hS) _).bind fun _ _ _ => ?_
  exact (record_alike _ _).bind fun _ _ _ => .pure (hopened.code base)

end Frames

end Shadow

end StackMachine
