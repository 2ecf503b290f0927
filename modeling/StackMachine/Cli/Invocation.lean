import StackMachine.Cli.Options

/-! What a command line asks for: one of three commands, with options that every command shares.
A shared option may stand before the command or behind its name; the later one counts. -/

namespace StackMachine.Cli

inductive LogFormat where
  | pretty | compact | json
  deriving DecidableEq, Repr

def LogFormat.ofName? (s : String) : Option LogFormat :=
  if s = "pretty" then some .pretty
  else if s = "compact" then some .compact
  else if s = "json" then some .json
  else none

structure RunOptions where
  path : String
  args : List Int64
  function : String
  verify : Bool
  debug : Bool
  verbose : Bool
  deriving DecidableEq, Repr

inductive Command where
  | run (options : RunOptions)
  /-- Without a path the module comes from standard input. -/
  | disasm (path : Option String)
  | verify (path : String)
  deriving DecidableEq, Repr

structure Invocation where
  command : Command
  config : Option String
  logLevel : Option String
  logFormat : LogFormat
  logFile : Option String
  deriving DecidableEq, Repr

def int64? (s : String) : Option Int64 :=
  let (negative, ds) := match s.toList with
    | '-' :: ds => (true, ds)
    | '+' :: ds => (false, ds)
    | ds => (false, ds)
  if ds.isEmpty || !ds.all Char.isDigit then none
  else
    let n : Int := ds.foldl (fun n c => 10 * n + (c.toNat - '0'.toNat)) 0
    let n := if negative then -n else n
    if -0x8000000000000000 ≤ n ∧ n < 0x8000000000000000 then some (.ofInt n) else none

def isPath (s : String) : Bool := !s.isEmpty

def helpOption : OptionSpec := { name := "help", letter := some 'h' }

def sharedOptions : List OptionSpec :=
  [{ name := "config", takesValue := true, accepts := isPath },
   { name := "log-level", takesValue := true },
   { name := "log-format", takesValue := true, accepts := fun s => (LogFormat.ofName? s).isSome },
   { name := "log-file", takesValue := true, accepts := isPath },
   helpOption]

def topScope : Scope :=
  { options := { name := "version", letter := some 'V' } :: sharedOptions }

def runScope : Scope :=
  { options :=
      [{ name := "function", letter := some 'f', takesValue := true },
       { name := "verify" }, { name := "debug" },
       { name := "verbose", letter := some 'v' }] ++ sharedOptions
    operands := [isPath]
    further := some fun s => (int64? s).isSome }

def pathScope : Scope := { options := sharedOptions, operands := [isPath] }

def parseScope (scope : Scope) (args : List String) : Except Stop Parsed := do
  let p ← args.foldlM (fun p s => Parsed.add p scope s) {}
  p.noPending

def splitCommand (p : Parsed) : List String → Except Stop (Parsed × String × List String)
  | [] => .error .usage
  | s :: rest =>
    if p.pending.isNone && !p.onlyOperands && s ∈ ["run", "disasm", "verify", "help"] then
      .ok (p, s, rest)
    else do splitCommand (← p.add topScope s) rest

def Command.ofParsed (name : String) (p : Parsed) : Except Stop Command :=
  match name, p.operands with
  | "run", path :: args =>
    .ok (.run
      { path, args := args.filterMap int64?
        function := (p.values.lookup "function").getD "<script>"
        verify := "verify" ∈ p.flags, debug := "debug" ∈ p.flags
        verbose := "verbose" ∈ p.flags })
  | "disasm", operands => .ok (.disasm operands.head?)
  | "verify", path :: _ => .ok (.verify path)
  | _, _ => .error .usage

/-- Asking for help on a command that does not exist is a mistake. -/
def helpOn : List String → Stop
  | [] => .help
  | [name] => if name ∈ ["run", "disasm", "verify", "help"] then .help else .usage
  | _ => .usage

def Invocation.parse (args : List String) : Except Stop Invocation := do
  let (before, name, rest) ← splitCommand {} args
  if name = "help" then throw (helpOn rest)
  let behind ← parseScope (if name = "run" then runScope else pathScope) rest
  let command ← Command.ofParsed name behind
  let shared (option : String) := behind.values.lookup option <|> before.values.lookup option
  return {
    command
    config := shared "config"
    logLevel := shared "log-level"
    logFormat := ((shared "log-format").bind LogFormat.ofName?).getD .compact
    logFile := shared "log-file" }

end StackMachine.Cli
