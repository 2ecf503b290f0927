/-! Levels of detail and the parts of the machine that report events. -/

namespace StackMachine

inductive Level where
  | error | warn | info | debug | trace
  deriving DecidableEq, Repr

namespace Level

def name : Level → String
  | .error => "ERROR"
  | .warn => "WARN"
  | .info => "INFO"
  | .debug => "DEBUG"
  | .trace => "TRACE"

/-- Detail of a level: 0 is the most urgent. -/
def detail : Level → Nat
  | .error => 0
  | .warn => 1
  | .info => 2
  | .debug => 3
  | .trace => 4

end Level

inductive Phase where
  | loader | verify | vm | interp
  deriving DecidableEq, Repr

namespace Phase

/-- The phases in the order in which a module goes through them. -/
def all : List Phase := [.loader, .verify, .vm, .interp]

def name : Phase → String
  | .loader => "loader"
  | .verify => "verify"
  | .vm => "vm"
  | .interp => "interp"

def ofName? (s : String) : Option Phase := all.find? fun p => p.name == s

end Phase

/-- Where an event comes from: a phase, or the command line around them. -/
inductive Source where
  | phase (p : Phase)
  | commandLine
  deriving DecidableEq, Repr

def Source.target : Source → String
  | .phase p => s!"b9::{p.name}"
  | .commandLine => "b9::cli"

end StackMachine
