import StackMachine.Trace.Event

/-! Logs: the events reported so far, of those that a filter admits. -/

namespace StackMachine

/-- For each source the most detailed level that is kept, or nothing at all. -/
abbrev LogFilter := Source → Option Level

namespace LogFilter

def nothing : LogFilter := fun _ => none

def everything : LogFilter := fun _ => some .trace

def admits (filter : LogFilter) (e : Event) : Bool :=
  match filter e.source with
  | none => false
  | some level => e.level.detail ≤ level.detail

end LogFilter

structure Log where
  filter : LogFilter := .nothing
  /-- Newest first. -/
  newest : List Event := []

namespace Log

def events (log : Log) : List Event := log.newest.reverse

def record (log : Log) (e : Event) : Log :=
  if log.filter.admits e then { log with newest := e :: log.newest } else log

def recordAll (log : Log) (es : List Event) : Log := es.foldl record log

end Log

end StackMachine
