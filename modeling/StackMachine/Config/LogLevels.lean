import StackMachine.Config.Settings

/-! The levels that a log keeps. The command line's level goes before the file's, and without both
it is `warn`; a phase with a level of its own has that one instead. -/

namespace StackMachine

structure LogConfig where
  global : Level := .warn
  phases : List (Phase × Level) := []
  deriving DecidableEq, Repr

namespace LogConfig

def levelFor (c : LogConfig) (p : Phase) : Level := (c.phases.lookup p).getD c.global

/-- The command line itself is no phase: it follows the global level. -/
def filter (c : LogConfig) : LogFilter := fun
  | .phase p => some (c.levelFor p)
  | .commandLine => some c.global

end LogConfig

structure InvalidLevel where
  text : String
  deriving DecidableEq, Repr

def InvalidLevel.message (e : InvalidLevel) : String := s!"invalid log level '{e.text}'"

/-- Case does not matter. No letter outside ASCII has a letter of one of the names as its lower
case, so ASCII lower case is enough. -/
def Level.parse (s : String) : Except InvalidLevel Level :=
  match s.toLower with
  | "silent" => .ok .error
  | "error" => .ok .error
  | "warn" => .ok .warn
  | "info" => .ok .info
  | "debug" => .ok .debug
  | "trace" => .ok .trace
  | _ => .error ⟨s⟩

def FileConfig.logConfig (c : FileConfig) (commandLine : Option String) :
    Except InvalidLevel LogConfig := do
  let global ← match commandLine.or c.log.level with
    | some s => Level.parse s
    | none => pure .warn
  let phases ← c.log.phases.mapM fun (p, s) => return (p, ← Level.parse s)
  return { global, phases }

end StackMachine
