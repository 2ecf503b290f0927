import StackMachine.Code.Listing
import StackMachine.Code.Verify
import StackMachine.Config.Settings
import StackMachine.Image.Decode
import StackMachine.Machine.Step

/-! The virtual machine: loads a module, holds the compiled forms of its functions, and runs them
one after the other on a heap that outlives the runs. Every operation returns its answer and the
machine after it; one that fails leaves the module and its compiled functions alone. -/

namespace StackMachine

structure CompileError where
  function : String
  reason : String
  deriving DecidableEq, Repr

def CompileError.message (e : CompileError) : String :=
  s!"failed to compile {e.function}: {e.reason}"

abbrev CodeGenerator := Module → Nat → Except CompileError CompiledFunction

inductive VmError where
  | noModuleLoaded
  | functionNotFound (target : String)
  | badFunctionCall (function : String) (expected got : Nat)
  | noCodeGenerator
  | decode (e : DecodeError)
  | load (e : ModuleError)
  | verify (e : VerifyError)
  | fault (f : Fault)
  deriving DecidableEq, Repr

def VmError.message : VmError → String
  | .noModuleLoaded => "no module loaded"
  | .functionNotFound target => s!"function not found: {target}"
  | .badFunctionCall function expected got =>
    s!"{function} - got {got} arguments, expected {expected}"
  | .noCodeGenerator => "no code generator installed"
  | .decode e => s!"load failed: {e.message}"
  | .load e => s!"load failed: {e.message}"
  | .verify e => s!"load failed: {e.message}"
  | .fault f => s!"runtime error: {f.message}"

structure Loaded where
  module : Module
  arena : Arena
  /-- One entry for each function. -/
  compiled : Array (Option CompiledFunction)

structure VirtualMachine where
  config : Config
  loaded : Option Loaded := none
  primitives : PrimitiveTable := .standard
  heap : Heap
  generator : Option CodeGenerator := none
  output : Output := {}
  log : Log := {}

inductive Target where
  | index (i : Nat)
  | name (s : String)
  deriving DecidableEq, Repr

namespace VirtualMachine

def new (config : Config) : VirtualMachine :=
  { config, heap := .new config.heap.collectThreshold.toNat }

def record (vm : VirtualMachine) (events : List Event) : VirtualMachine :=
  { vm with log := vm.log.recordAll events }

def load (vm : VirtualMachine) (module : Module) (arena : Arena) :
    Except VmError Unit × VirtualMachine :=
  if module.functions.length ≠ arena.functions.size then
    (.error (.load (.arenaMismatch module.functions.length arena.functions.size)), vm)
  else
    match module.functions.forM Func.checkEnd with
    | .error e => (.error (.load e), vm)
    | .ok () =>
      let loaded : Loaded :=
        { module, arena, compiled := Array.replicate module.functions.length none }
      let event := Event.moduleLoaded module.functions.length module.strings.length
      if vm.config.verifyOnLoad then
        match verify module vm.primitives.length with
        | .error e => (.error (.verify e), vm)
        | .ok () =>
          (.ok (), { vm with loaded }.record [.moduleVerified module.functions.length, event])
      else (.ok (), { vm with loaded }.record [event])

def loadModule (vm : VirtualMachine) (module : Module) : Except VmError Unit × VirtualMachine :=
  vm.load module (.ofModule module)

def loadBytes (vm : VirtualMachine) (bytes : List UInt8) : Except VmError Unit × VirtualMachine :=
  let decoded := Image.decodeWithEvents bytes
  let vm := vm.record decoded.events
  match decoded.result with
  | .error e => (.error (.decode e), vm)
  | .ok (module, arena) => vm.load module arena

def functionCount (vm : VirtualMachine) : Nat :=
  match vm.loaded with
  | none => 0
  | some l => l.module.functions.length

def stringAt (vm : VirtualMachine) (index : Nat) : Except VmError String :=
  match vm.loaded with
  | none => .error .noModuleLoaded
  | some l => (l.arena.string index).mapError .load

def resolve (vm : VirtualMachine) (target : Target) : Except VmError Nat :=
  match vm.loaded with
  | none => .error .noModuleLoaded
  | some l =>
    match target with
    | .index i =>
      if i < l.module.functions.length then .ok i else .error (.functionNotFound s!"#{i}")
    | .name s => (l.module.functionIndex s).mapError fun _ => .functionNotFound s

def setCompiled (vm : VirtualMachine) (index : Nat) (function : CompiledFunction) :
    Except VmError Unit × VirtualMachine :=
  match vm.loaded with
  | none => (.error .noModuleLoaded, vm)
  | some l =>
    if index < l.compiled.size then
      (.ok (), { vm with
        loaded := some { l with compiled := l.compiled.setIfInBounds index (some function) } })
    else (.error (.load (.functionIndexOutOfRange index l.compiled.size)), vm)

def hasCompiled (vm : VirtualMachine) (index : Nat) : Bool :=
  vm.loaded.any fun l => (l.compiled[index]?.join).isSome

/-- Asks the generator for one function and tells whether it gave one; if it did not, the function
is left as it was. -/
def generate (vm : VirtualMachine) (index : Nat) : Except VmError Bool × VirtualMachine :=
  match vm.generator, vm.loaded with
  | none, _ => (.error .noCodeGenerator, vm)
  | some _, none => (.error .noModuleLoaded, vm)
  | some generator, some l =>
    if index < l.compiled.size then
      match generator l.module index with
      | .ok function =>
        (.ok true, { vm with
          loaded := some { l with compiled := l.compiled.setIfInBounds index (some function) } })
      | .error e => (.ok false, vm.record [.notCompiled e.message])
    else (.error (.load (.functionIndexOutOfRange index l.compiled.size)), vm)

/-- Asks the generator for the functions in the list, one by one, and counts those it gave. -/
def generateEach (vm : VirtualMachine) (compiled : Nat) :
    List Nat → Except VmError Nat × VirtualMachine
  | [] => (.ok compiled, vm)
  | index :: rest =>
    match vm.generate index with
    | (.ok installed, vm) => generateEach vm (if installed then compiled + 1 else compiled) rest
    | (.error e, vm) => (.error e, vm)

def generateAll (vm : VirtualMachine) : Except VmError Nat × VirtualMachine :=
  if vm.generator.isNone then (.error .noCodeGenerator, vm)
  else
    match vm.generateEach 0 (List.range vm.functionCount) with
    | (.ok compiled, vm) => (.ok compiled, vm.record [.codeGenerated compiled vm.functionCount])
    | (.error e, vm) => (.error e, vm)

def setting (vm : VirtualMachine) (l : Loaded) : Setting :=
  { module := l.module, arena := l.arena, compiled := l.compiled, primitives := vm.primitives
    maxDepth := vm.config.limits.maxRecursionDepth.toNat, debug := vm.config.debug }

def store (vm : VirtualMachine) : Store :=
  { stack := .empty vm.config.limits.maxStackSize.toNat, heap := vm.heap, output := vm.output
    log := vm.log }

/-- The machine after a run: the stack is gone, all else stays. -/
def keep (vm : VirtualMachine) (s : Store) : VirtualMachine :=
  { vm with heap := s.heap, output := s.output, log := s.log }

/-- Pushes the arguments, the last one first. -/
def pushArguments (args : List Value) : Action Unit :=
  args.reverse.forM fun v => Action.liftStack (Stack.push v)

/-- The output is flushed after a run that has a result. -/
def finish (vm : VirtualMachine) (function : String) :
    Except Fault Value × Store → Except VmError Value × VirtualMachine
  | (.error f, s) => (.error (.fault f), vm.keep s)
  | (.ok result, s) =>
    match s.output.flush with
    | .error reason => (.error (.fault (.output reason)), vm.keep s)
    | .ok () => (.ok result, (vm.keep s).record [.runFinished function result])

def call (vm : VirtualMachine) (fuel : Nat) (l : Loaded) (index : Nat) (args : List Value) :
    Option (Except Fault Value × Store) :=
  match pushArguments args vm.store with
  | .error f s => some (.error f, s)
  | .ok () s => Machine.run (vm.setting l) fuel (Machine.call index s)

/-- The checks before a call. They pass with the loaded module, and the function with its index. -/
def prepare (vm : VirtualMachine) (target : Target) (args : List Value) :
    Except VmError (Loaded × Nat × Func) :=
  match vm.resolve target, vm.loaded with
  | .error e, _ => .error e
  | .ok _, none => .error .noModuleLoaded
  | .ok index, some l =>
    match l.module.function index with
    | .error e => .error (.load e)
    | .ok f =>
      if args.length ≠ f.nparams.toNat then
        .error (.badFunctionCall f.name f.nparams.toNat args.length)
      else .ok (l, index, f)

def started (vm : VirtualMachine) (f : Func) (args : List Value) : VirtualMachine :=
  vm.record [.runStarted f.name args.length]

/-- Runs a function and leaves the heap and the output as the run did; nothing if the run is not
over within `fuel` steps. -/
def run (vm : VirtualMachine) (fuel : Nat) (target : Target) (args : List Value) :
    Option (Except VmError Value × VirtualMachine) :=
  match vm.prepare target args with
  | .error e => some (.error e, vm)
  | .ok (l, index, f) =>
    ((vm.started f args).call fuel l index args).map ((vm.started f args).finish f.name)

def listing (vm : VirtualMachine) : Option String := vm.loaded.map fun l => l.module.listing

def summary (vm : VirtualMachine) : String :=
  let limits := s!"LimitConfig \x7b max_stack_size: {vm.config.limits.maxStackSize}, "
    ++ s!"max_recursion_depth: {vm.config.limits.maxRecursionDepth} \x7d"
  let heap := s!"HeapConfig \x7b collect_threshold: {vm.config.heap.collectThreshold} \x7d"
  let config := s!"VmConfig \x7b debug: {vm.config.debug}, "
    ++ s!"verify_on_load: {vm.config.verifyOnLoad}, limits: {limits}, heap: {heap} \x7d"
  s!"VirtualMachine \x7b config: {config}, functions: {vm.functionCount}, "
    ++ s!"primitives: {vm.primitives.listing}, code_generator: {vm.generator.isSome} \x7d"

end VirtualMachine

end StackMachine
