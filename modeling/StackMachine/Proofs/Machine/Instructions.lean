import StackMachine.Proofs.Machine.Objects

/-! The instructions under comparison. Whatever does not call or return ends alike on both sides:
with one allowed fault, or with the same jump and stores that agree. -/

namespace StackMachine

section Agree

variable {ε α β γ δ : Type} {R : α → β → Prop} {S : γ → δ → Prop} {allowed : ε → Prop}

theorem Agree.bind {x₁ : Except ε α} {x₂ : Except ε β} {f₁ : α → Except ε γ}
    {f₂ : β → Except ε δ} (hx : Agree R allowed x₁ x₂)
    (hf : ∀ a b, R a b → Agree S allowed (f₁ a) (f₂ b)) :
    Agree S allowed (x₁ >>= f₁) (x₂ >>= f₂) := by
  cases hx with
  | ok h => exact hf _ _ h
  | error h => exact .error h

theorem Agree.self {x : Except ε α} {R : α → α → Prop} (hok : ∀ a, x = .ok a → R a a)
    (herror : ∀ e, x = .error e → allowed e) : Agree R allowed x x := by
  cases x with
  | ok a => exact .ok (hok a rfl)
  | error e => exact .error (herror e rfl)

end Agree

namespace Comparison

open StackMachine.Action Machine

variable {K : Comparison} {pairs : ObjectRef → ObjectRef → Prop} {fact : Heap → Prop}

/-- Where nothing is excluded that code can name, every operand will do. -/
theorem operand_self (hword : ∀ i, K.word (.string i)) (hentry : ∀ i, K.entry i)
    (hallowed : ∀ f, K.allowed f) (a : Activation) (operand : Int) (op : Opcode) :
    K.Operand a a operand op := by
  cases op with
  | functionCall => exact hentry _
  | primitiveCall => exact .inr (hallowed _)
  | pushLocal | popLocal | pushParam | popParam =>
    exact Agree.self (fun _ _ => rfl) fun f _ => hallowed f
  | pushString => exact hword _
  | endSection => exact ⟨rfl, rfl, hallowed _⟩
  | _ => trivial

section Arithmetic

variable (hK : K.Lawful)
include hK

theorem expectInt_agree (op : Opcode) {v₁ v₂ : Value} (hv : K.Values pairs v₁ v₂) :
    Agree Eq K.allowed (Arith.expectInt op v₁) (Arith.expectInt op v₂) := by
  cases hv with
  | ref => exact .error (hK.ordinary rfl)
  | word hn hw =>
    refine Agree.self (fun _ _ => rfl) fun f hf => ?_
    cases v₁ <;> simp only [Arith.expectInt, reduceCtorEq, Except.error.injEq] at hf
    all_goals exact hf ▸ hK.ordinary rfl

theorem int_self (n : Int64) : K.Values pairs (.int n) (.int n) := .word rfl (hK.int n)

theorem apply_agree (op : BinaryOp) (a b : Int64) :
    Agree Eq K.allowed (op.apply a b) (op.apply a b) := by
  refine Agree.self (fun _ _ => rfl) fun f hf => ?_
  cases op <;> simp only [BinaryOp.apply, reduceCtorEq] at hf
  split at hf
  · cases hf
    exact hK.ordinary rfl
  · cases hf

theorem binary_agree (op : BinaryOp) {v₁ v₂ w₁ w₂ : Value} (hv : K.Values pairs v₁ v₂)
    (hw : K.Values pairs w₁ w₂) :
    Agree (K.Values pairs) K.allowed (Arith.binary (.binary op) v₁ w₁)
      (Arith.binary (.binary op) v₂ w₂) := by
  refine (expectInt_agree hK _ hv).bind fun a b hab => ?_
  refine (expectInt_agree hK _ hw).bind fun c d hcd => ?_
  subst hab hcd
  refine (apply_agree hK op a c).bind fun m n hmn => ?_
  subst hmn
  exact .ok (int_self hK m)

theorem not_agree {v₁ v₂ : Value} (hv : K.Values pairs v₁ v₂) :
    Agree (K.Values pairs) K.allowed (Arith.not v₁) (Arith.not v₂) := by
  refine (expectInt_agree hK _ hv).bind fun a b hab => ?_
  subst hab
  exact .ok (int_self hK _)

theorem stringBytes_agree {n : UInt64} (hn : K.word (.uint48 n)) :
    Agree Eq K.allowed (Arith.stringBytes K.left.arena n) (Arith.stringBytes K.right.arena n) := by
  have htext := hK.text hn
  unfold Arith.stringBytes
  generalize K.left.arena.string n.toNat = x₁ at htext
  generalize K.right.arena.string n.toNat = x₂ at htext
  cases htext with
  | ok h => exact .ok (by rw [h])
  | error h => exact .error h

theorem compareValues_agree (op : Opcode) {v₁ v₂ w₁ w₂ : Value} (hv : K.Values pairs v₁ v₂)
    (hw : K.Values pairs w₁ w₂) :
    Agree Eq K.allowed (Arith.compareValues op v₁ w₁ K.left.arena)
      (Arith.compareValues op v₂ w₂ K.right.arena) := by
  cases hv with
  | ref => exact .error (hK.ordinary rfl)
  | word hn hword =>
    cases hw with
    | ref =>
      cases v₁ with
      | ref r => cases hn
      | _ => exact .error (hK.ordinary rfl)
    | word hn' hword' =>
      cases v₁ with
      | int48 a =>
        cases w₁ with
        | int48 b => exact .ok rfl
        | _ => exact .error (hK.ordinary rfl)
      | uint48 a =>
        cases w₁ with
        | uint48 b =>
          refine (stringBytes_agree hK hword).bind fun x₁ x₂ hx => ?_
          refine (stringBytes_agree hK hword').bind fun y₁ y₂ hy => ?_
          subst hx hy
          exact .ok rfl
        | _ => exact .error (hK.ordinary rfl)
      | ref r => cases hn
      | raw64 a => exact .error (hK.ordinary rfl)

theorem jumpTaken_agree (relation : Relation) {v₁ v₂ w₁ w₂ : Value}
    (hv : K.Values pairs v₁ v₂) (hw : K.Values pairs w₁ w₂) :
    Agree Eq K.allowed (Arith.jumpTaken (.branch relation) v₁ w₁ K.left.arena)
      (Arith.jumpTaken (.branch relation) v₂ w₂ K.right.arena) := by
  refine (compareValues_agree hK _ hv hw).bind fun o₁ o₂ ho => ?_
  subst ho
  exact .ok rfl

theorem popTwo_alike :
    K.Alike (K.Stores pairs fact) (liftStack Stack.popTwo) (liftStack Stack.popTwo)
      (K.Returns pairs fact fun x y => K.Values pairs x.1 y.1 ∧ K.Values pairs x.2 y.2) := by
  rw [Stack.popTwo, liftStack_bind]
  refine (pop_alike hK).bind fun right₁ right₂ hright => ?_
  rw [liftStack_bind, liftStack_bind]
  refine (pop_alike hK).bind fun left₁ left₂ hleft => ?_
  exact Alike.pure ⟨hleft, hright⟩

theorem pushResult_alike {r₁ r₂ : Except Fault Value}
    (h : Agree (K.Values pairs) K.allowed r₁ r₂) :
    K.Alike (K.Stores pairs fact) (pushResult r₁) (pushResult r₂)
      (K.Returns pairs fact fun _ _ => True) :=
  (Alike.ofExcept h).bind fun _ _ hv => push_alike hK hv

end Arithmetic

/-- Both instructions jump equally far, to where the activation can go on. -/
def Jumps (K : Comparison) (op : Opcode) (operand : Int) (offset₁ offset₂ : Int)
    (s₁ s₂ : Store) : Prop :=
  offset₁ = offset₂ ∧ op.Lands operand offset₁ ∧ ∃ pairs, K.Stores pairs (fun _ => True) s₁ s₂

theorem ahead_alike {P : Store → Store → Prop} {op : Opcode} {operand : Int}
    {act₁ act₂ : Action Unit} {s₁ s₂ : Store} (hs : P s₁ s₂) (hl : op.Lands operand 0)
    (h : K.Alike P act₁ act₂ fun _ _ s₁ s₂ => ∃ pairs, K.Stores pairs (fun _ => True) s₁ s₂) :
    K.Results (K.Jumps op operand) (ahead act₁ s₁) (ahead act₂ s₂) :=
  (h.seq fun _ _ _ _ hs => .ok ⟨rfl, hl, hs⟩) hs

theorem Alike.anyPairs {P : Store → Store → Prop} {act₁ act₂ : Action Unit}
    (h : K.Alike P act₁ act₂ (K.Returns pairs (fun _ => True) fun _ _ => True)) :
    K.Alike P act₁ act₂ fun _ _ s₁ s₂ => ∃ pairs, K.Stores pairs (fun _ => True) s₁ s₂ :=
  h.mono (fun _ _ hs => hs) fun _ _ _ _ hs => ⟨pairs, hs.2⟩

section Perform

variable (hK : K.Lawful)
include hK

theorem branch_alike (relation : Relation) (a₁ a₂ : Activation) (operand : Int) :
    K.Alike (K.Stores pairs fun _ => True)
      (perform K.left.arena a₁ (.branch relation) operand)
      (perform K.right.arena a₂ (.branch relation) operand)
      (K.Jumps (.branch relation) operand) := by
  refine (popTwo_alike hK).bind ?_
  rintro ⟨v₁, w₁⟩ ⟨v₂, w₂⟩ ⟨hv, hw⟩
  refine (Alike.ofExcept (jumpTaken_agree hK relation hv hw)).bind fun taken taken' ht => ?_
  subst ht
  intro s₁ s₂ hs
  refine .ok ⟨rfl, ?_, pairs, hs⟩
  cases taken with
  | true => exact .inr rfl
  | false => exact .inl rfl

theorem duplicate_alike :
    K.Alike (K.Stores pairs fact) (liftStack do Stack.push (← Stack.peek))
      (liftStack do Stack.push (← Stack.peek)) (K.Returns pairs fact fun _ _ => True) := by
  rw [liftStack_bind]
  exact (peek_alike hK).bind fun _ _ hv => push_alike hK hv

theorem drop_alike :
    K.Alike (K.Stores pairs fact) (discard (liftStack Stack.pop)) (discard (liftStack Stack.pop))
      (K.Returns pairs fact fun _ _ => True) :=
  (pop_alike hK).bind fun _ _ _ _ _ hs => .ok ⟨trivial, hs⟩

theorem binary_alike (op : BinaryOp) :
    K.Alike (K.Stores pairs fact)
      (do
        let (left, right) ← liftStack Stack.popTwo
        pushResult (Arith.binary (.binary op) left right))
      (do
        let (left, right) ← liftStack Stack.popTwo
        pushResult (Arith.binary (.binary op) left right))
      (K.Returns pairs fact fun _ _ => True) := by
  refine (popTwo_alike hK).bind ?_
  rintro ⟨v₁, w₁⟩ ⟨v₂, w₂⟩ ⟨hv, hw⟩
  exact pushResult_alike hK (binary_agree hK op hv hw)

theorem not_alike :
    K.Alike (K.Stores pairs fact) (do pushResult (Arith.not (← liftStack Stack.pop)))
      (do pushResult (Arith.not (← liftStack Stack.pop)))
      (K.Returns pairs fact fun _ _ => True) :=
  (pop_alike hK).bind fun _ _ hv => pushResult_alike hK (not_agree hK hv)

theorem load_alike {slot₁ slot₂ : Except Fault Nat} (hslot : Agree Eq K.allowed slot₁ slot₂) :
    K.Alike (K.Stores pairs fact)
      (do let slot ← ofExcept slot₁; liftStack do Stack.push (← Stack.get slot))
      (do let slot ← ofExcept slot₂; liftStack do Stack.push (← Stack.get slot))
      (K.Returns pairs fact fun _ _ => True) := by
  refine (Alike.ofExcept hslot).bind fun i j hij => ?_
  subst hij
  rw [liftStack_bind]
  exact (get_alike hK i).bind fun _ _ hv => push_alike hK hv

theorem store_alike {slot₁ slot₂ : Except Fault Nat} (hslot : Agree Eq K.allowed slot₁ slot₂) :
    K.Alike (K.Stores pairs fact)
      (do let slot ← ofExcept slot₁; liftStack do Stack.set slot (← Stack.pop))
      (do let slot ← ofExcept slot₂; liftStack do Stack.set slot (← Stack.pop))
      (K.Returns pairs fact fun _ _ => True) := by
  refine (Alike.ofExcept hslot).bind fun i j hij => ?_
  subst hij
  rw [liftStack_bind]
  exact (pop_alike hK).bind fun _ _ hv => set_alike hK i hv

theorem pushField_alike (id : FieldId) :
    K.Alike (K.Stores pairs fun _ => True) (pushField id) (pushField id)
      (K.Returns pairs (fun _ => True) fun _ _ => True) := by
  refine (pop_alike hK).bind fun v₁ v₂ hv => ?_
  refine (expectRef_alike hK _ hv).bind fun r₁ r₂ hp => ?_
  refine (lookupField_alike hp id).seq fun slot slot' => ?_
  rintro s₁ s₂ ⟨rfl, hs⟩
  cases slot with
  | none => exact .error (hK.ordinary rfl) hs.kept
  | some slot =>
    have hslot : K.Stores pairs (HasSlot r₁ slot) s₁ s₂ :=
      ⟨hs.stack, hs.heap, .of_looks hs.heap.sound₁.regular hs.fact, hs.output⟩
    exact ((getField_alike hp).bind fun _ _ hv => push_alike hK hv) hslot

theorem popField_alike (id : FieldId) :
    K.Alike (K.Stores pairs fun _ => True) (popField id) (popField id)
      (K.Returns pairs (fun _ => True) fun _ _ => True) := by
  refine (peek_alike hK).bind fun v₁ v₂ hv => ?_
  refine (expectRef_alike hK _ hv).bind fun r₁ r₂ hp => ?_
  refine (lookupField_alike hp id).seq fun answer answer' => ?_
  -- the slot found or made for the field is still there after the two operands are gone
  have hstore : ∀ slot, K.Alike (K.Stores pairs (HasSlot r₁ slot))
      (do
        discard <| liftStack Stack.pop
        let v ← liftStack Stack.pop
        setField r₁ slot v)
      (do
        discard <| liftStack Stack.pop
        let v ← liftStack Stack.pop
        setField r₂ slot v)
      (K.Returns pairs (fun _ => True) fun _ _ => True) := by
    intro slot
    refine (drop_alike hK).bind fun _ _ _ => ?_
    exact (pop_alike hK).bind fun _ _ hv => setField_alike hp hv
  rintro s₁ s₂ ⟨rfl, hs⟩
  cases answer with
  | none =>
    refine (addField_alike hp hK).seq (fun slot slot' => ?_) hs
    rintro t₁ t₂ ⟨rfl, ht⟩
    exact hstore slot ht
  | some slot =>
    exact hstore slot ⟨hs.stack, hs.heap, .of_looks hs.heap.sound₁.regular hs.fact, hs.output⟩

theorem perform_alike {op : Opcode} {operand : Int} {a₁ a₂ : Activation}
    (hop : op ≠ .functionCall ∧ op ≠ .functionReturn ∧ op ≠ .primitiveCall)
    (ho : K.Operand a₁ a₂ operand op) :
    K.Alike (fun s₁ s₂ => K.Stores pairs (fun _ => True) s₁ s₂ ∧
        (op = .newObject → Room s₁ ∧ Room s₂))
      (perform K.left.arena a₁ op operand) (perform K.right.arena a₂ op operand)
      (K.Jumps op operand) := by
  rintro s₁ s₂ ⟨hs, hroom⟩
  cases op with
  | endSection =>
    obtain ⟨hname, hip, hf⟩ := ho
    simp only [perform, ← hname, ← hip]
    exact .error hf hs.kept
  | functionCall => exact absurd rfl hop.1
  | functionReturn => exact absurd rfl hop.2.1
  | primitiveCall => exact absurd rfl hop.2.2
  | jump => exact .ok ⟨rfl, rfl, pairs, hs⟩
  | duplicate => exact ahead_alike hs rfl (duplicate_alike hK).anyPairs
  | drop =>
    simp only [perform, liftStack_discard]
    exact ahead_alike hs rfl (drop_alike hK).anyPairs
  | pushLocal => exact ahead_alike hs rfl (load_alike hK ho).anyPairs
  | popLocal => exact ahead_alike hs rfl (store_alike hK ho).anyPairs
  | pushParam => exact ahead_alike hs rfl (load_alike hK ho).anyPairs
  | popParam => exact ahead_alike hs rfl (store_alike hK ho).anyPairs
  | pushInt => exact ahead_alike hs rfl (push_alike hK (int_self hK _)).anyPairs
  | binary op => exact ahead_alike hs rfl (binary_alike hK op).anyPairs
  | not => exact ahead_alike hs rfl (not_alike hK).anyPairs
  | branch relation => exact branch_alike hK relation a₁ a₂ operand hs
  | pushString => exact ahead_alike hs rfl (push_alike hK (.word rfl ho)).anyPairs
  | newObject =>
    refine ahead_alike ⟨hs, hroom rfl⟩ rfl (allocate_alike.seq ?_)
    rintro r₁ r₂ t₁ t₂ ⟨pairs', hp, ht⟩
    exact (push_alike hK (.ref hp)).anyPairs ht
  | pushField => exact ahead_alike hs rfl (pushField_alike hK _).anyPairs
  | popField => exact ahead_alike hs rfl (popField_alike hK _).anyPairs
  | callIndirect => exact .error (hK.ordinary rfl) hs.kept
  | collect => exact ahead_alike hs rfl collect_alike

end Perform

end Comparison

end StackMachine
