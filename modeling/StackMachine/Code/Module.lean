import StackMachine.Code.Instruction

/-! Modules: functions and strings in order, found by index or by name. When a name is declared
more than once the last declaration has it; the others stay reachable by index. -/

namespace StackMachine

/-- A function. A stream that ends with the sentinel and holds no other passes `Func.checkEnd`;
nothing else can be loaded. -/
structure Func where
  name : String
  nparams : UInt32
  nlocals : UInt32
  code : List Instruction
  deriving DecidableEq, Repr

structure Module where
  functions : List Func := []
  strings : List String := []
  deriving DecidableEq, Repr

inductive Damage where
  | word | text | encoding | code | instruction
  deriving DecidableEq, Repr

def Damage.reason : Damage → String
  | .word => "read past end of arena"
  | .text => "string past end of arena"
  | .encoding => "invalid utf-8"
  | .code => "instruction stream past end of arena"
  | .instruction => "instruction index out of range"

inductive ModuleError where
  | functionNotFound (name : String)
  | functionIndexOutOfRange (index count : Nat)
  | stringIndexOutOfRange (index count : Nat)
  | corrupt (offset : Nat) (damage : Damage)
  | missingEndSection (function : String)
  | embeddedEndSection (function : String) (index : Nat)
  | arenaMismatch (module arena : Nat)
  deriving DecidableEq, Repr

def ModuleError.message : ModuleError → String
  | .functionNotFound name => s!"function not found: {name}"
  | .functionIndexOutOfRange index count => s!"function index {index} out of range (count {count})"
  | .stringIndexOutOfRange index count => s!"string index {index} out of range (count {count})"
  | .corrupt offset damage => s!"module corrupt at offset {offset}: {damage.reason}"
  | .missingEndSection function => s!"function {function} does not end with END_SECTION"
  | .embeddedEndSection function index => s!"END_SECTION inside {function} at instruction {index}"
  | .arenaMismatch module arena => s!"module has {module} functions but arena has {arena}"

namespace Func

/-- The function whose stream is `body` up to its first sentinel. -/
def ofBody (name : String) (nparams nlocals : UInt32) (body : List Instruction) : Func :=
  { name, nparams, nlocals
    code := body.takeWhile (fun i => !i.isEnd) ++ [Instruction.endSection] }

/-- An early sentinel is reported before a missing one. -/
def checkEnd (f : Func) : Except ModuleError Unit :=
  match f.code.getLast? with
  | none => .error (.missingEndSection f.name)
  | some last =>
    match f.code.dropLast.findIdx? Instruction.isEnd with
    | some index => .error (.embeddedEndSection f.name index)
    | none => if last.isEnd then .ok () else .error (.missingEndSection f.name)

def lastNamed? (name : String) (functions : List Func) : Option Nat :=
  (functions.zipIdx.filter fun (f, _) => f.name == name).getLast?.map (·.2)

end Func

structure Duplicate where
  name : String
  previous : Nat
  index : Nat
  deriving DecidableEq, Repr

namespace Module

def functionIndex (m : Module) (name : String) : Except ModuleError Nat :=
  match Func.lastNamed? name m.functions with
  | some index => .ok index
  | none => .error (.functionNotFound name)

def function (m : Module) (index : Nat) : Except ModuleError Func :=
  match m.functions[index]? with
  | some f => .ok f
  | none => .error (.functionIndexOutOfRange index m.functions.length)

def string (m : Module) (index : Nat) : Except ModuleError String :=
  match m.strings[index]? with
  | some s => .ok s
  | none => .error (.stringIndexOutOfRange index m.strings.length)

/-- One entry for each function that repeats an earlier name, with the closest earlier index. -/
def duplicates (m : Module) : List Duplicate :=
  m.functions.zipIdx.filterMap fun (f, index) =>
    (Func.lastNamed? f.name (m.functions.take index)).map fun previous =>
      { name := f.name, previous, index }

end Module

end StackMachine
