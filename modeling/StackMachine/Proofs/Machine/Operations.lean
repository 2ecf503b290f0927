import StackMachine.Proofs.Machine.Interchange

/-! Whole sessions on one machine: loads, compiled functions and runs in any order, whether they
succeed or not. Every operation has one of a few effects, and none of them leaves a module without
its image or without one entry for each of its functions; an operation that fails has no effect but
on the log. -/

namespace StackMachine

/-- What can be asked of a machine. The generator may be replaced at any time: one that acts on what
it has seen so far is another function after each operation. Within one generation of all code it is
a single function, since it is asked for each index once. -/
inductive Operation where
  | load (module : Module) (arena : Arena)
  | loadModule (module : Module)
  | loadBytes (bytes : List UInt8)
  | setCompiled (index : Nat) (function : CompiledFunction)
  | useGenerator (generator : Option CodeGenerator)
  | generate (index : Nat)
  | generateAll
  | run (fuel : Nat) (target : Target) (args : List Value)

inductive Answer where
  | done
  | generated (installed : Bool)
  | count (n : Nat)
  | value (v : Value)

namespace Operation

/-- The operation loads the module with the image, unless it fails. -/
inductive Gives : Operation → Module → Arena → Prop
  | load (m : Module) (a : Arena) : Gives (.load m a) m a
  | loadModule (m : Module) : Gives (.loadModule m) m (.ofModule m)
  | loadBytes {bytes : List UInt8} {m : Module} {a : Arena} :
      Image.decode bytes = .ok (m, a) → Gives (.loadBytes bytes) m a

def IsLoad : Operation → Prop
  | .load .. | .loadModule _ | .loadBytes _ => True
  | _ => False

def IsRun : Operation → Prop
  | .run .. => True
  | _ => False

end Operation

theorem Operation.Gives.not_isRun {op : Operation} {m : Module} {a : Arena} (h : op.Gives m a) :
    ¬ op.IsRun := by
  cases h <;> exact not_false

/-- An error, or a function that the generator did not give. -/
def Failed : Except VmError Answer → Prop
  | .error _ | .ok (.generated false) => True
  | _ => False

/-- One entry and one record for each function, and no function without an end. -/
structure Loaded.Coherent (l : Loaded) : Prop where
  compiled : l.compiled.size = l.module.functions.length
  arena : l.arena.functions.size = l.module.functions.length
  ends : ∀ f ∈ l.module.functions, f.checkEnd = .ok ()

theorem Loaded.Coherent.withCompiled {l : Loaded} (h : l.Coherent)
    {compiled : Array (Option CompiledFunction)} (hsize : compiled.size = l.compiled.size) :
    Loaded.Coherent { l with compiled } :=
  ⟨hsize.trans h.compiled, h.arena, h.ends⟩

/-- Puts what the generator gives for the function in its place, if it gives anything. -/
def CodeGenerator.fill (g : CodeGenerator) (m : Module)
    (compiled : Array (Option CompiledFunction)) (index : Nat) :
    Array (Option CompiledFunction) :=
  match g m index with
  | .ok function => compiled.setIfInBounds index (some function)
  | .error _ => compiled

namespace VirtualMachine

def reply {α : Type} (answer : α → Answer) (x : Except VmError α × VirtualMachine) :
    Except VmError Answer × VirtualMachine :=
  (x.1.map answer, x.2)

/-- Nothing if the operation is a run that is not over within its fuel. -/
def operate (vm : VirtualMachine) : Operation → Option (Except VmError Answer × VirtualMachine)
  | .load m a => some (reply (fun _ => .done) (vm.load m a))
  | .loadModule m => some (reply (fun _ => .done) (vm.loadModule m))
  | .loadBytes bytes => some (reply (fun _ => .done) (vm.loadBytes bytes))
  | .setCompiled index function => some (reply (fun _ => .done) (vm.setCompiled index function))
  | .useGenerator generator => some (.ok .done, { vm with generator })
  | .generate index => some (reply .generated (vm.generate index))
  | .generateAll => some (reply .count vm.generateAll)
  | .run fuel target args => (vm.run fuel target args).map (reply .value)

/-- Machines that began without a module. -/
inductive Reached : VirtualMachine → Prop
  | unloaded {vm : VirtualMachine} : vm.loaded = none → Reached vm
  | operate {vm vm' : VirtualMachine} {op : Operation} {answer : Except VmError Answer} :
      Reached vm → vm.operate op = some (answer, vm') → Reached vm'

def Coherent (vm : VirtualMachine) : Prop := ∀ l, vm.loaded = some l → l.Coherent

/-- What an operation does to a machine, by what it answers. -/
inductive Effect (vm : VirtualMachine) :
    Operation → Except VmError Answer → VirtualMachine → Prop
  | fails {op : Operation} {answer : Except VmError Answer} (log : Log) :
      Failed answer → ¬ op.IsRun → Effect vm op answer { vm with log }
  | loads {op : Operation} {l : Loaded} (log : Log) : op.Gives l.module l.arena → l.Coherent →
      l.compiled = Array.replicate l.module.functions.length none →
      Effect vm op (.ok .done) { vm with loaded := some l, log }
  | sets {l : Loaded} {index : Nat} (function : CompiledFunction) : vm.loaded = some l →
      index < l.compiled.size →
      Effect vm (.setCompiled index function) (.ok .done) { vm with
        loaded := some { l with compiled := l.compiled.setIfInBounds index (some function) } }
  | uses (generator : Option CodeGenerator) :
      Effect vm (.useGenerator generator) (.ok .done) { vm with generator }
  | generates {l : Loaded} {g : CodeGenerator} {index : Nat} {function : CompiledFunction} :
      vm.loaded = some l → vm.generator = some g → index < l.compiled.size →
      g l.module index = .ok function →
      Effect vm (.generate index) (.ok (.generated true)) { vm with
        loaded := some { l with compiled := l.compiled.setIfInBounds index (some function) } }
  | generatesAll {l : Loaded} {g : CodeGenerator} (log : Log) :
      vm.loaded = some l → vm.generator = some g →
      Effect vm .generateAll
        (.ok (.count ((List.range l.module.functions.length).countP fun i =>
          (g l.module i).isOk)))
        { vm with
          loaded := some { l with
            compiled := (List.range l.module.functions.length).foldl (g.fill l.module) l.compiled }
          log }
  | generatesNone {g : CodeGenerator} (log : Log) : vm.loaded = none → vm.generator = some g →
      Effect vm .generateAll (.ok (.count 0)) { vm with log }
  | runs {fuel : Nat} {target : Target} {args : List Value} {answer : Except VmError Answer}
      (heap : Heap) (output : Output) (log : Log) :
      Effect vm (.run fuel target args) answer { vm with heap, output, log }

section Generating

variable {vm : VirtualMachine} {l : Loaded} {g : CodeGenerator} {m : Module}
  {compiled : Array (Option CompiledFunction)}

theorem size_fill (index : Nat) : (g.fill m compiled index).size = compiled.size := by
  unfold CodeGenerator.fill
  split
  · exact Array.size_setIfInBounds
  · rfl

theorem size_foldl_fill (indices : List Nat) :
    (indices.foldl (g.fill m) compiled).size = compiled.size := by
  induction indices generalizing compiled with
  | nil => rfl
  | cons index indices ih => rw [List.foldl_cons, ih, size_fill]

theorem getElem?_fill (index i : Nat) (hi : i < compiled.size) :
    (g.fill m compiled index)[i]? = if index = i then
      (match g m i with | .ok function => some (some function) | .error _ => compiled[i]?)
    else compiled[i]? := by
  unfold CodeGenerator.fill
  by_cases h : index = i
  · subst h
    rw [if_pos rfl]
    cases g m index with
    | error e => rfl
    | ok function => exact Array.getElem?_setIfInBounds_self_of_lt hi
  · rw [if_neg h]
    cases g m index with
    | error e => rfl
    | ok function => exact Array.getElem?_setIfInBounds_ne h

/-- An entry that the generator is asked for is what it gives, and no other entry changes. -/
theorem getElem?_foldl_fill (indices : List Nat) (i : Nat) (hi : i < compiled.size) :
    (indices.foldl (g.fill m) compiled)[i]? = if i ∈ indices then
      (match g m i with | .ok function => some (some function) | .error _ => compiled[i]?)
    else compiled[i]? := by
  induction indices generalizing compiled with
  | nil => rfl
  | cons index indices ih =>
    rw [List.foldl_cons, ih (by rwa [size_fill]), getElem?_fill index i hi]
    by_cases h : index = i
    · subst h
      rw [if_pos rfl, if_pos List.mem_cons_self]
      cases g m index <;> simp
    · rw [if_neg h]
      simp only [List.mem_cons, Ne.symm h, false_or]

theorem generate_eq (hl : vm.loaded = some l) (hg : vm.generator = some g) {index : Nat}
    (hindex : index < l.compiled.size) :
    ∃ log, vm.generate index = (.ok (g l.module index).isOk, { vm with
      loaded := some { l with compiled := g.fill l.module l.compiled index }
      log := log }) := by
  unfold generate CodeGenerator.fill
  simp only [hg, hl, if_pos hindex]
  cases g l.module index with
  | ok function => exact ⟨vm.log, rfl⟩
  | error e =>
    have hsame : vm.record [.notCompiled e.message] = { vm with
        loaded := some l
        generator := some g
        log := vm.log.recordAll [.notCompiled e.message] } := by
      rw [← hl, ← hg]
      rfl
    exact ⟨_, Prod.ext rfl hsame⟩

theorem generateEach_eq (hl : vm.loaded = some l) (hg : vm.generator = some g) (count : Nat)
    (indices : List Nat) (hindices : ∀ i ∈ indices, i < l.compiled.size) :
    ∃ log, vm.generateEach count indices =
      (.ok (count + indices.countP fun i => (g l.module i).isOk), { vm with
        loaded := some { l with compiled := indices.foldl (g.fill l.module) l.compiled }
        log := log }) := by
  induction indices generalizing vm l count with
  | nil =>
    refine ⟨vm.log, ?_⟩
    rw [generateEach, List.countP_nil, List.foldl_nil, ← hl]
    rfl
  | cons index indices ih =>
    obtain ⟨hindex, hindices⟩ := List.forall_mem_cons.1 hindices
    obtain ⟨log, hgenerate⟩ := generate_eq hl hg hindex
    set vm' : VirtualMachine := { vm with
      loaded := some { l with compiled := g.fill l.module l.compiled index }
      log := log }
    have hl' : vm'.loaded = some { l with compiled := g.fill l.module l.compiled index } := rfl
    have hg' : vm'.generator = some g := hg
    obtain ⟨log', hrest⟩ := ih hl' hg' (if (g l.module index).isOk then count + 1 else count)
      (by simpa only [size_fill] using hindices)
    refine ⟨log', ?_⟩
    have hcount : (if (g l.module index).isOk then count + 1 else count) +
        indices.countP (fun i => (g l.module i).isOk) =
        count + (index :: indices).countP fun i => (g l.module i).isOk := by
      rw [List.countP_cons]
      split <;> omega
    rw [generateEach, hgenerate]
    dsimp only
    rw [hrest, hcount]
    rfl

theorem generateAll_of_unloaded (hl : vm.loaded = none) (hg : vm.generator = some g) :
    ∃ log, vm.generateAll = (.ok 0, { vm with log }) := by
  have hcount : vm.functionCount = 0 := by
    rw [functionCount, hl]
  have hsome : ¬ vm.generator.isNone = true := by
    rw [hg]
    exact nofun
  unfold generateAll
  rw [if_neg hsome, hcount]
  exact ⟨_, rfl⟩

theorem generateAll_eq (hl : vm.loaded = some l) (hg : vm.generator = some g)
    (hc : l.compiled.size = l.module.functions.length) :
    ∃ log, vm.generateAll =
      (.ok ((List.range l.module.functions.length).countP fun i => (g l.module i).isOk), { vm with
        loaded := some { l with
          compiled := (List.range l.module.functions.length).foldl (g.fill l.module) l.compiled }
        log := log }) := by
  have hindices : ∀ i ∈ List.range l.module.functions.length, i < l.compiled.size := by
    intro i hi
    rw [hc]
    exact List.mem_range.1 hi
  have hcount : vm.functionCount = l.module.functions.length := by
    rw [functionCount, hl]
  obtain ⟨log, heach⟩ := generateEach_eq hl hg 0 _ hindices
  rw [Nat.zero_add] at heach
  unfold generateAll
  rw [hcount, heach, hg]
  exact ⟨_, rfl⟩

end Generating

section Effects

variable {vm vm' : VirtualMachine} {op : Operation} {answer : Except VmError Answer} {m : Module}
  {a : Arena}

theorem effect_of_load {r : Except VmError Unit} (hgives : op.Gives m a) (log : Log)
    (h : ({ vm with log } : VirtualMachine).load m a = (r, vm')) :
    Effect vm op (r.map fun _ => .done) vm' := by
  rcases load_cases h with ⟨e, rfl, rfl⟩ | ⟨rfl, hsize, hends, log', rfl⟩
  · exact .fails log trivial hgives.not_isRun
  · exact .loads log' hgives ⟨Array.size_replicate, hsize, hends⟩ rfl

theorem effect_loadBytes (vm : VirtualMachine) (bytes : List UInt8) :
    Effect vm (.loadBytes bytes) ((vm.loadBytes bytes).1.map fun _ => .done)
      (vm.loadBytes bytes).2 := by
  cases hdecode : Image.decode bytes with
  | error e =>
    have hresult : (Image.decodeWithEvents bytes).result = .error e := hdecode
    simp only [loadBytes, hresult]
    exact .fails _ trivial not_false
  | ok x =>
    rw [loadBytes_of_decode hdecode]
    exact effect_of_load (.loadBytes hdecode) _ rfl

theorem effect_setCompiled (vm : VirtualMachine) (index : Nat) (function : CompiledFunction) :
    Effect vm (.setCompiled index function) ((vm.setCompiled index function).1.map fun _ => .done)
      (vm.setCompiled index function).2 := by
  unfold setCompiled
  split
  · exact .fails vm.log trivial not_false
  next l hl =>
  split
  next hindex => exact .sets function hl hindex
  · exact .fails vm.log trivial not_false

theorem effect_generate (vm : VirtualMachine) (index : Nat) :
    Effect vm (.generate index) ((vm.generate index).1.map .generated) (vm.generate index).2 := by
  unfold generate
  split
  · exact .fails vm.log trivial not_false
  · exact .fails vm.log trivial not_false
  next g l hg hl =>
  split
  next hindex =>
    cases hfunction : g l.module index with
    | ok function => exact .generates hl hg hindex hfunction
    | error e => exact .fails _ trivial not_false
  · exact .fails vm.log trivial not_false

theorem effect_generateAll (hc : vm.Coherent) :
    Effect vm .generateAll (vm.generateAll.1.map .count) vm.generateAll.2 := by
  cases hg : vm.generator with
  | none =>
    simp only [generateAll, hg, Option.isNone_none]
    exact .fails vm.log trivial not_false
  | some g =>
    cases hl : vm.loaded with
    | none =>
      obtain ⟨log, h⟩ := generateAll_of_unloaded hl hg
      rw [h]
      exact .generatesNone log hl hg
    | some l =>
      obtain ⟨log, h⟩ := generateAll_eq hl hg (hc l hl).compiled
      rw [h]
      exact .generatesAll log hl hg

theorem effect_of_operate (hc : vm.Coherent) (h : vm.operate op = some (answer, vm')) :
    Effect vm op answer vm' := by
  cases op with
  | load m a =>
    cases h
    exact effect_of_load (.load m a) vm.log rfl
  | loadModule m =>
    cases h
    exact effect_of_load (.loadModule m) vm.log rfl
  | loadBytes bytes =>
    cases h
    exact effect_loadBytes vm bytes
  | setCompiled index function =>
    cases h
    exact effect_setCompiled vm index function
  | useGenerator generator =>
    cases h
    exact .uses generator
  | generate index =>
    cases h
    exact effect_generate vm index
  | generateAll =>
    cases h
    exact effect_generateAll hc
  | run fuel target args =>
    obtain ⟨⟨r, vm₁⟩, hrun, hreply⟩ := Option.map_eq_some_iff.1 h
    cases hreply
    rw [run_keeps hrun]
    exact .runs _ _ _

theorem Effect.coherent (hc : vm.Coherent) (h : Effect vm op answer vm') : vm'.Coherent := by
  cases h with
  | fails | uses | generatesNone | runs => exact hc
  | loads log hgives hl => exact fun _ h => Option.some.inj h ▸ hl
  | sets function hl =>
    rintro _ ⟨⟩
    exact (hc _ hl).withCompiled Array.size_setIfInBounds
  | generates hl =>
    rintro _ ⟨⟩
    exact (hc _ hl).withCompiled Array.size_setIfInBounds
  | generatesAll log hl =>
    rintro _ ⟨⟩
    exact (hc _ hl).withCompiled (size_foldl_fill _)

theorem Reached.coherent (h : Reached vm) : vm.Coherent := by
  induction h with
  | unloaded hnone => exact fun l hl => absurd (hnone.symm.trans hl) nofun
  | operate _ hoperate ih => exact (effect_of_operate ih hoperate).coherent ih

theorem transcript_of_unloaded (h : vm.loaded = none)
    (calls : List (Nat × Target × List Value)) : vm.transcript calls =
      some (calls.map fun _ => (.error .noModuleLoaded, vm.output, vm.heap)) := by
  induction calls with
  | nil => rfl
  | cons call calls ih =>
    obtain ⟨fuel, target, args⟩ := call
    have hprepare : vm.prepare target args = .error .noModuleLoaded := by
      simp only [prepare, resolve, h]
    simp only [transcript, VirtualMachine.run, hprepare, Option.bind_some, ih]
    rfl

/-- No run depends on what was logged before it. -/
theorem transcript_withLog (vm : VirtualMachine) (log : Log)
    (calls : List (Nat × Target × List Value)) :
    ({ vm with log } : VirtualMachine).transcript calls = vm.transcript calls := by
  rcases Option.eq_none_or_eq_some vm.loaded with hl | ⟨l, hl⟩
  · have hl' : ({ vm with log } : VirtualMachine).loaded = none := hl
    exact (transcript_of_unloaded hl' calls).trans (transcript_of_unloaded hl calls).symm
  · have htwin : Twin { vm with log } vm := ⟨rfl, rfl, rfl, rfl, l, l, hl, hl, .refl _ l⟩
    exact transcript_eq htwin calls

theorem Effect.eq_of_failed (h : Effect vm op answer vm') (hfailed : Failed answer)
    (hrun : ¬ op.IsRun) : ∃ log, vm' = { vm with log } := by
  cases h with
  | fails log => exact ⟨log, rfl⟩
  | runs => exact (hrun trivial).elim
  | _ => exact hfailed.elim

theorem Effect.eq_of_isRun (h : Effect vm op answer vm') (hrun : op.IsRun) :
    ∃ heap output log, vm' = { vm with heap, output, log } := by
  cases h with
  | fails log _ hnot => exact (hnot hrun).elim
  | loads log hgives => exact (hgives.not_isRun hrun).elim
  | runs heap output log => exact ⟨heap, output, log, rfl⟩
  | _ => exact hrun.elim

theorem Effect.eq_of_isLoad (h : Effect vm op answer vm') (hload : op.IsLoad)
    (hanswer : ¬ Failed answer) :
    ∃ l log, vm' = { vm with loaded := some l, log } ∧ op.Gives l.module l.arena ∧
      ∀ i, vm'.hasCompiled i = false := by
  cases h with
  | fails _ hfailed => exact (hanswer hfailed).elim
  | @loads _ l log hgives _ hcompiled =>
    refine ⟨l, log, rfl, hgives, fun i => ?_⟩
    simp only [hasCompiled, Option.any_some, hcompiled, join_getElem?_replicate, Option.isSome_none]
  | _ => exact hload.elim

/-- A machine stays whole, in whichever order it is loaded, given compiled functions and run. Each
function that is loaded has an end, a record and an entry. What fails leaves all of it as it was, so
that the runs to come end no otherwise, and a run changes nothing but the heap, the output and the
log. A load that succeeds leaves no entry; the generation of all code fills the entries of the
functions that the generator gives, tells how many they are and leaves the others. -/
theorem operate_of_reached (h : Reached vm) :
    (∀ l, vm.loaded = some l → l.Coherent) ∧
    (∀ op answer vm', vm.operate op = some (answer, vm') →
      (Failed answer → ¬ op.IsRun → (∃ log, vm' = { vm with log }) ∧
        ∀ calls, vm'.transcript calls = vm.transcript calls) ∧
      (op.IsRun → (∃ heap output log, vm' = { vm with heap, output, log }) ∧
        ∀ target args, vm'.prepare target args = vm.prepare target args) ∧
      (op.IsLoad → ¬ Failed answer → ∃ l log, vm' = { vm with loaded := some l, log } ∧
        op.Gives l.module l.arena ∧ ∀ i, vm'.hasCompiled i = false)) ∧
    (vm.generator = none → vm.generateAll = (.error .noCodeGenerator, vm)) ∧
    ∀ g, vm.generator = some g →
      (vm.loaded = none → ∃ log, vm.generateAll = (.ok 0, { vm with log })) ∧
      ∀ l, vm.loaded = some l → ∃ compiled log,
        vm.generateAll = (.ok ((List.range l.module.functions.length).countP fun i =>
          (g l.module i).isOk), { vm with loaded := some { l with compiled }, log }) ∧
        compiled.size = l.module.functions.length ∧
        ∀ i < l.module.functions.length, compiled[i]? = match g l.module i with
          | .ok function => some (some function)
          | .error _ => l.compiled[i]? := by
  have hc := h.coherent
  refine ⟨hc, fun op answer vm' hoperate => ?_, fun hg => ?_,
    fun g hg => ⟨fun hl => generateAll_of_unloaded hl hg, fun l hl => ?_⟩⟩
  · have heffect := effect_of_operate hc hoperate
    refine ⟨fun hfailed hrun => ?_, fun hrun => ?_, heffect.eq_of_isLoad⟩
    · obtain ⟨log, rfl⟩ := heffect.eq_of_failed hfailed hrun
      exact ⟨⟨log, rfl⟩, transcript_withLog vm log⟩
    · obtain ⟨heap, output, log, rfl⟩ := heffect.eq_of_isRun hrun
      exact ⟨⟨heap, output, log, rfl⟩, prepare_congr rfl⟩
  · simp only [generateAll, hg, Option.isNone_none, if_true]
  · have hsize := (hc l hl).compiled
    obtain ⟨log, hall⟩ := generateAll_eq hl hg hsize
    refine ⟨_, log, hall, (size_foldl_fill _).trans hsize, fun i hi => ?_⟩
    rw [getElem?_foldl_fill _ i (hsize ▸ hi), if_pos (List.mem_range.2 hi)]

end Effects

def pair : Module where
  functions := [
    .ofBody "one" 0 0 [.make .pushInt 1, .make .functionReturn 0],
    .ofBody "two" 0 0 [.make .pushInt 2, .make .functionReturn 0]]

/-- Gives the second function, and no other. -/
def onlySecond : CodeGenerator := fun _ index =>
  if index = 1 then .ok fun _ => .done (.ok (.int 4)) else .error ⟨"one", "unsupported"⟩

def picky : VirtualMachine := { VirtualMachine.new {} with generator := some onlySecond }

/-- The pair is loaded, and the entry for its first function is set. -/
def halfSet : VirtualMachine :=
  ((picky.loadModule pair).2.setCompiled 0 fun _ => .done (.ok (.int 3))).2

def unended : Module := { functions := [⟨"open", 0, 0, []⟩] }

theorem reached_halfSet : Reached halfSet := by
  have hloaded : picky.operate (.loadModule pair) = some (.ok .done, (picky.loadModule pair).2) :=
    rfl
  have hset : (picky.loadModule pair).2.operate (.setCompiled 0 fun _ => .done (.ok (.int 3))) =
      some (.ok .done, halfSet) := rfl
  exact ((Reached.unloaded rfl).operate hloaded).operate hset

theorem operate_of_reached_halfSet :
    Reached halfSet ∧
    (halfSet.loadModule unended).1 = .error (.load (.missingEndSection "open")) ∧
    (∀ calls, (halfSet.loadModule unended).2.transcript calls = halfSet.transcript calls) ∧
    (∃ log compiled, halfSet.generateAll = (.ok 1, { halfSet with
      loaded := some ⟨pair, .ofModule pair, compiled⟩, log }) ∧
      (compiled[0]?.join).isSome ∧ (compiled[1]?.join).isSome) ∧
    ∀ i, (halfSet.loadModule pair).2.hasCompiled i = false := by
  obtain ⟨-, hops, -, hgenerate⟩ := operate_of_reached reached_halfSet
  obtain ⟨-, hfill⟩ := hgenerate onlySecond rfl
  obtain ⟨compiled, log, hall, hsize, hentries⟩ := hfill _ rfl
  refine ⟨reached_halfSet, rfl, ?_, ⟨log, compiled, hall, ?_, ?_⟩, ?_⟩
  · exact ((hops (.loadModule unended) _ _ rfl).1 trivial not_false).2
  · rw [hentries 0 (by decide)]
    rfl
  · rw [hentries 1 (by decide)]
    rfl
  · obtain ⟨l, log, hloaded, -, hnone⟩ :=
      (hops (.loadModule pair) _ _ rfl).2.2 trivial not_false
    exact hnone

end VirtualMachine

end StackMachine
