import StackMachine.Cli.Invocation
import StackMachine.Config.LogLevels
import StackMachine.VirtualMachine

/-! Carrying a command out. What the command needs from outside is asked of a `System`, in the order
in which it is needed; all else is a function of the answers. -/

namespace StackMachine.Cli

/-- Files and standard input. A failure is the text of its reason. -/
structure System (m : Type → Type) where
  fileBytes : String → m (Except String (List UInt8))
  readInput : m (List UInt8)
  /-- Makes sure that a file can be appended to. -/
  openLog : String → m (Except String Unit)

inductive CliError where
  | read (path reason : String)
  | config (path : String)
  | invalidLevel (e : InvalidLevel)
  | logFile (path reason : String)
  | decode (e : DecodeError)
  | verify (e : VerifyError)
  | vm (e : VmError)
  deriving DecidableEq, Repr

/-- The wording that callers of `run` know. -/
def vmMessage : VmError → String
  | .decode e => s!"Failed to load module: {e.message}"
  | .load e => s!"Failed to load module: {e.message}"
  | .functionNotFound target => s!"Failed to find function: {target}"
  | .badFunctionCall function expected got =>
    s!"Failed to call function {(VmError.badFunctionCall function expected got).message}"
  | e => s!"Error: {e.message}"

def CliError.message : CliError → String
  | .read path reason => s!"cannot read '{path}': {reason}"
  | .config path => s!"failed to parse '{path}': not a configuration"
  | .invalidLevel e => e.message
  | .logFile path reason => s!"failed to open log file '{path}': {reason}"
  | .decode e => s!"Failed to load module: {e.message}"
  | .verify e => s!"Bytecode verification failed: {e.message}"
  | .vm e => vmMessage e

structure Report where
  stdout : Array UInt8 := #[]
  log : Log
  error : Option CliError := none

def line (s : String) : List UInt8 := Image.textBytes (s ++ "\n")

def runHeader (options : RunOptions) (values : List Value) (module : Module) : List UInt8 :=
  line s!"Module:       {options.path}"
    ++ line ("Arguments:    [ " ++ String.join (values.map fun v => v.text ++ " ") ++ "]")
    ++ line s!"Functions:    {module.functions.length}"
    ++ line s!"Strings:      {module.strings.length}"

/-- The machine of a run, with what is written before the module is loaded. -/
def runMachine (config : Config) (options : RunOptions) (module : Module) (log : Log) :
    VirtualMachine :=
  let config := { config with
    verifyOnLoad := config.verifyOnLoad || options.verify
    debug := config.debug || options.debug }
  let values := options.args.map Value.int
  let header := if options.verbose then runHeader options values module else []
  { VirtualMachine.new config with output := { bytes := header.toArray }, log }

/-- The first half of a run: its machine with the module loaded, or the report of what is wrong with
the file. -/
def loadStep (config : Config) (options : RunOptions) (bytes : List UInt8) (log : Log) :
    Except Report VirtualMachine :=
  let decoded := Image.decodeWithEvents bytes
  let log := log.recordAll decoded.events
  match decoded.result with
  | .error e => .error { log, error := some (.decode e) }
  | .ok (module, arena) =>
    match (runMachine config options module log).load module arena with
    | (.error e, vm) =>
      .error { stdout := vm.output.bytes, log := vm.log, error := some (.vm e) }
    | (.ok (), vm) => .ok vm

def callReport : Except VmError Value × VirtualMachine → Report
  | (.error e, vm) => { stdout := vm.output.bytes, log := vm.log, error := some (.vm e) }
  | (.ok v, vm) => { stdout := vm.output.bytes ++ line s!"=> {v.text}", log := vm.log }

/-- The second half: the call of the function in the machine that was loaded. -/
def callStep (fuel : Nat) (options : RunOptions) (vm : VirtualMachine) : Option Report :=
  let vm := vm.record [.running vm.functionCount options.function]
  (vm.run fuel (.name options.function) (options.args.map Value.int)).map callReport

/-- Runs a function of a module; nothing if the run is not over within `fuel` steps. -/
def runModule (fuel : Nat) (config : Config) (options : RunOptions) (bytes : List UInt8)
    (log : Log) : Option Report :=
  match loadStep config options bytes log with
  | .error report => some report
  | .ok vm => callStep fuel options vm

def listModule (bytes : List UInt8) (log : Log) : Report :=
  let decoded := Image.decodeWithEvents bytes
  let log := log.recordAll decoded.events
  match decoded.result with
  | .error e => { log, error := some (.decode e) }
  | .ok (module, _) => { stdout := (Image.textBytes module.listing).toArray, log }

def okLine (path : String) (module : Module) : List UInt8 :=
  line s!"{path}: ok ({module.functions.length} functions, {module.strings.length} strings)"

def verifyModule (path : String) (bytes : List UInt8) (log : Log) : Report :=
  let decoded := Image.decodeWithEvents bytes
  let log := log.recordAll decoded.events
  match decoded.result with
  | .error e => { log, error := some (.decode e) }
  | .ok (module, _) =>
    match StackMachine.verify module PrimitiveTable.standard.length with
    | .error e => { log, error := some (.verify e) }
    | .ok () =>
      { stdout := (okLine path module).toArray
        log := log.record (.moduleVerified module.functions.length) }

def Command.execute (fuel : Nat) (config : Config) (bytes : List UInt8) (log : Log) :
    Command → Option Report
  | .run options => runModule fuel config options bytes log
  | .disasm _ => some (listModule bytes log)
  | .verify path => some (verifyModule path bytes log)

def Command.path : Command → Option String
  | .run options => some options.path
  | .disasm path => path
  | .verify path => some path

def LogFormat.line (format : LogFormat) (e : Event) : String :=
  match format with
  | .compact => e.compactLine
  | .pretty =>
    s!"  {e.level.name} {e.source.target}: {e.message}"
      ++ String.join (e.fields.map fun (key, value) => s!", {key}: {value.bare}")
  | .json =>
    let text (s : String) := Json.string (.ofString s)
    let value : FieldValue → Json
      | .number n => .number (toString n).toList
      | v => text v.bare
    (Json.ofMembers [("level", text e.level.name), ("target", text e.source.target),
      ("fields", .ofMembers (("message", text e.message)
        :: e.fields.map fun (key, v) => (key, value v)))]).render

structure Outcome where
  exitCode : UInt8
  stdout : Array UInt8
  stderr : String
  /-- The file that the log is also appended to, and the lines for it. -/
  logFile : Option (String × List String) := none

def Report.outcome (r : Report) (format : LogFormat) (logFile : Option String) : Outcome :=
  let logged := r.log.events.map fun e => format.line e ++ "\n"
  let failure := match r.error with
    | some e => e.message ++ "\n"
    | none => ""
  { exitCode := if r.error.isSome then 1 else 0
    stdout := r.stdout
    stderr := String.join logged ++ failure
    logFile := logFile.map fun path => (path, r.log.events.map Event.line) }

def readConfig [Monad m] (system : System m) (path : Option String) :
    m (Except CliError FileConfig) := do
  match path with
  | none => return .ok {}
  | some path =>
    match ← system.fileBytes path with
    | .error reason => return .error (.read path reason)
    | .ok bytes =>
      match Image.text? bytes with
      | none => return .error (.read path "stream did not contain valid UTF-8")
      | some text =>
        match FileConfig.parse text with
        | none => return .error (.config path)
        | some config => return .ok config

def openLogFile [Monad m] (system : System m) (path : Option String) :
    m (Except CliError Unit) := do
  match path with
  | none => return .ok ()
  | some path => return (← system.openLog path).mapError (.logFile path)

def readModule [Monad m] (system : System m) (path : Option String) (log : Log) :
    m (Except CliError (List UInt8) × Log) := do
  match path with
  | none => return (.ok (← system.readInput), log)
  | some path =>
    match ← system.fileBytes path with
    | .error reason => return (.error (.read path reason), log)
    | .ok bytes => return (.ok bytes, log.record (.fileRead path bytes.length))

/-- Reads what the invocation needs and carries its command out; nothing if a run is not over within
`fuel` steps. -/
def Invocation.report [Monad m] (system : System m) (fuel : Nat) (i : Invocation) :
    m (Option Report) := do
  match ← readConfig system i.config with
  | .error e => return some { log := {}, error := some e }
  | .ok config =>
    match config.logConfig i.logLevel with
    | .error e => return some { log := {}, error := some (.invalidLevel e) }
    | .ok levels =>
      match ← openLogFile system i.logFile with
      | .error e => return some { log := {}, error := some e }
      | .ok () =>
        match ← readModule system i.command.path { filter := levels.filter } with
        | (.error e, log) => return some { log, error := some e }
        | (.ok bytes, log) => return i.command.execute fuel config.vm bytes log

def usage : String :=
  "Usage: b9 [--config FILE] [--log-level LEVEL] [--log-format pretty|compact|json]"
    ++ " [--log-file FILE] COMMAND\n\nCommands:\n"
    ++ "  run MODULE [ARGS]... [-f FUNCTION] [--verify] [--debug] [-v]\n"
    ++ "  disasm [MODULE]\n  verify MODULE\n"

def answer [Monad m] (system : System m) (fuel : Nat) (args : List String) :
    m (Option Outcome) := do
  match Invocation.parse args with
  | .error .usage => return some { exitCode := 2, stdout := #[], stderr := usage }
  | .error .help =>
    return some { exitCode := 0, stdout := (Image.textBytes usage).toArray, stderr := "" }
  | .error .version =>
    return some { exitCode := 0, stdout := (line "b9 0.1.0").toArray, stderr := "" }
  | .ok i =>
    let report ← i.report system fuel
    return report.map fun r => r.outcome i.logFormat i.logFile

end StackMachine.Cli
