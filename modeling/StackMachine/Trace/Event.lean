import StackMachine.Code.Instruction
import StackMachine.Code.Value
import StackMachine.Text.Quoted
import StackMachine.Trace.Level

/-! Events that the machine reports while it works. An event's source, level, message and fields
are functions of it, and every line of a log is made from them. -/

namespace StackMachine

inductive Event where
  | functionRead (name : String) (nparams nlocals : UInt32) (instructions : Nat)
  | sizeMismatch (declared actual : Nat)
  | duplicateName (name : String) (previous index : Nat)
  | moduleDecoded (functions strings bytes : Nat)
  | moduleEncoded (bytes : Nat)
  | moduleVerified (functions : Nat)
  | moduleLoaded (functions strings : Nat)
  | notCompiled (reason : String)
  | codeGenerated (compiled total : Nat)
  | runStarted (function : String) (args : Nat)
  | runFinished (function : String) (result : Value)
  | entered (function : String) (depth base : Nat)
  | executing (function : String) (ip : Int) (instruction : Instruction) (height : Nat)
  | returned (function : String) (result : Value)
  | enteredCompiled (function : String)
  | collected (freed live : Nat)
  | collectedOnRequest (freed : Nat)
  | fileRead (path : String) (size : Nat)
  | running (functions : Nat) (function : String)
  deriving DecidableEq, Repr

inductive FieldValue where
  | text (s : String)
  | name (s : String)
  | number (n : Int)
  deriving DecidableEq, Repr

namespace FieldValue

def bare : FieldValue → String
  | .text s => s
  | .name s => s
  | .number n => toString n

def quotingNames : FieldValue → String
  | .name s => Text.quoted s
  | v => v.bare

end FieldValue

namespace Event

def source : Event → Source
  | .functionRead .. | .sizeMismatch .. | .duplicateName .. | .moduleDecoded ..
  | .moduleEncoded .. => .phase .loader
  | .moduleVerified .. => .phase .verify
  | .moduleLoaded .. | .notCompiled .. | .codeGenerated .. | .runStarted .. | .runFinished ..
  | .collected .. => .phase .vm
  | .entered .. | .executing .. | .returned .. | .enteredCompiled ..
  | .collectedOnRequest .. => .phase .interp
  | .fileRead .. | .running .. => .commandLine

def level : Event → Level
  | .sizeMismatch .. | .duplicateName .. | .notCompiled .. => .warn
  | .running .. => .info
  | .moduleDecoded .. | .moduleEncoded .. | .moduleVerified .. | .moduleLoaded ..
  | .codeGenerated .. | .runStarted .. | .runFinished .. | .collected .. | .fileRead .. => .debug
  | .functionRead .. | .entered .. | .executing .. | .returned .. | .enteredCompiled ..
  | .collectedOnRequest .. => .trace

def message : Event → String
  | .functionRead .. => "function record"
  | .sizeMismatch .. => "module size field does not match payload"
  | .duplicateName .. => "duplicate function name, later definition wins"
  | .moduleDecoded .. => "module decoded"
  | .moduleEncoded .. => "module encoded"
  | .moduleVerified .. => "module verified"
  | .moduleLoaded .. => "module loaded"
  | .notCompiled .. => "falling back to interpreter"
  | .codeGenerated .. => "code generation finished"
  | .runStarted .. => "run"
  | .runFinished .. => "run finished"
  | .entered .. => "enter"
  | .executing .. => "execute"
  | .returned .. => "return"
  | .enteredCompiled .. => "compiled call"
  | .collected .. => "collected"
  | .collectedOnRequest .. => "system_collect"
  | .fileRead .. => "file read"
  | .running .. => "running"

def fields : Event → List (String × FieldValue)
  | .functionRead name nparams nlocals instructions =>
    [("name", .text name), ("nparams", .number nparams.toNat), ("nlocals", .number nlocals.toNat),
     ("instructions", .number instructions)]
  | .sizeMismatch declared actual => [("declared", .number declared), ("actual", .number actual)]
  | .duplicateName name previous index =>
    [("name", .text name), ("previous", .number previous), ("index", .number index)]
  | .moduleDecoded functions strings bytes =>
    [("functions", .number functions), ("strings", .number strings), ("bytes", .number bytes)]
  | .moduleEncoded bytes => [("bytes", .number bytes)]
  | .moduleVerified functions => [("functions", .number functions)]
  | .moduleLoaded functions strings =>
    [("functions", .number functions), ("strings", .number strings)]
  | .notCompiled reason => [("error", .text reason)]
  | .codeGenerated compiled total => [("compiled", .number compiled), ("total", .number total)]
  | .runStarted function args => [("function", .text function), ("args", .number args)]
  | .runFinished function result => [("function", .text function), ("result", .text result.text)]
  | .entered function depth base =>
    [("function", .name function), ("depth", .number depth), ("base", .number base)]
  | .executing function ip instruction height =>
    [("function", .name function), ("ip", .number ip), ("insn", .text instruction.text),
     ("height", .number height)]
  | .returned function result => [("function", .name function), ("result", .text result.text)]
  | .enteredCompiled function => [("function", .name function)]
  | .collected freed live => [("freed", .number freed), ("live", .number live)]
  | .collectedOnRequest freed => [("freed", .number freed)]
  | .fileRead path size => [("path", .text path), ("size", .number size)]
  | .running functions function =>
    [("functions", .number functions), ("function", .text function)]

/-- One blank and `key=value` for each field. -/
def fieldText (render : FieldValue → String) (e : Event) : String :=
  String.join (e.fields.map fun (key, value) => s!" {key}={render value}")

def line (e : Event) : String :=
  s!"{e.level.name} {e.source.target} {e.message}{e.fieldText FieldValue.bare}"

/-- The short line of a terminal: the level right-aligned to five columns, no target, and names
in quotes. -/
def compactLine (e : Event) : String :=
  let level := e.level.name
  String.ofList (List.replicate (5 - level.length) ' ')
    ++ s!"{level} {e.message}{e.fieldText FieldValue.quotingNames}"

end Event

end StackMachine
