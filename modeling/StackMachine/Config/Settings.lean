import StackMachine.Config.Json
import StackMachine.Trace.Log

/-! Settings of a machine and of its log. In a configuration file every setting may be missing and
then has its default; members that no setting goes by are passed over, and a group of settings may
also be written as an array of its members in order. -/

namespace StackMachine

structure Limits where
  maxStackSize : UInt64 := 10240
  maxRecursionDepth : UInt64 := 256
  deriving DecidableEq, Repr

def Limits.standard : Limits := {}

structure HeapConfig where
  collectThreshold : UInt64 := 4096
  deriving DecidableEq, Repr

def HeapConfig.standard : HeapConfig := {}

structure Config where
  debug : Bool := false
  verifyOnLoad : Bool := false
  limits : Limits := {}
  heap : HeapConfig := {}
  deriving DecidableEq, Repr

structure LogSection where
  level : Option String := none
  phases : List (Phase × String) := []
  deriving DecidableEq, Repr

structure FileConfig where
  vm : Config := {}
  log : LogSection := {}
  deriving DecidableEq, Repr

namespace Json

/-- The members of a group of settings by name. A known name must not be repeated; an array gives
the members in the order of `names`. -/
def group? (names : List String) : Json → Option (List (String × Json))
  | .object members => do
    let named ← members.mapM fun (key, j) => key.text?.map fun name => (name, j)
    let known := named.filter fun (name, _) => name ∈ names
    if (known.map (·.1)).Nodup then some known else none
  | .array items => if items.length ≤ names.length then some (names.zip items) else none
  | _ => none

def member? (group : List (String × Json)) (name : String) (default : α)
    (read : Json → Option α) : Option α :=
  match group.lookup name with
  | some j => read j
  | none => some default

def bool? : Json → Option Bool
  | .bool b => some b
  | _ => none

def size? : Json → Option UInt64
  | .natural n => if n < 0x10000000000000000 then some (UInt64.ofNat n) else none
  | _ => none

def text? : Json → Option String
  | .string s => s.text?
  | _ => none

def optionalText? : Json → Option (Option String)
  | .null => some none
  | j => (text? j).map some

def limits? (j : Json) : Option Limits := do
  let group ← j.group? ["max_stack_size", "max_recursion_depth"]
  let standard := Limits.standard
  return {
    maxStackSize := ← member? group "max_stack_size" standard.maxStackSize size?
    maxRecursionDepth := ← member? group "max_recursion_depth" standard.maxRecursionDepth size? }

def heap? (j : Json) : Option HeapConfig := do
  let group ← j.group? ["collect_threshold"]
  let standard := HeapConfig.standard
  return {
    collectThreshold := ← member? group "collect_threshold" standard.collectThreshold size? }

def config? (j : Json) : Option Config := do
  let group ← j.group? ["debug", "verify_on_load", "limits", "heap"]
  return {
    debug := ← member? group "debug" false bool?
    verifyOnLoad := ← member? group "verify_on_load" false bool?
    limits := ← member? group "limits" .standard limits?
    heap := ← member? group "heap" .standard heap? }

/-- An object from phases to text. A phase may be repeated; its last member counts. -/
def phases? : Json → Option (List (Phase × String))
  | .object members => do
    let named ← members.mapM fun (key, j) => do
      return (← Phase.ofName? (← key.text?), ← text? j)
    return Phase.all.filterMap fun p => (named.reverse.lookup p).map fun s => (p, s)
  | _ => none

def logSection? (j : Json) : Option LogSection := do
  let group ← j.group? ["level", "phases"]
  return {
    level := ← member? group "level" none optionalText?
    phases := ← member? group "phases" [] phases? }

def fileConfig? (j : Json) : Option FileConfig := do
  let group ← j.group? ["vm", "log"]
  return { vm := ← member? group "vm" {} config?, log := ← member? group "log" {} logSection? }

def ofMembers (members : List (String × Json)) : Json :=
  .object (members.map fun (name, j) => (CodePoints.ofString name, j))

end Json

def Limits.toJson (l : Limits) : Json :=
  .ofMembers [("max_stack_size", .natural l.maxStackSize.toNat),
    ("max_recursion_depth", .natural l.maxRecursionDepth.toNat)]

def HeapConfig.toJson (h : HeapConfig) : Json :=
  .ofMembers [("collect_threshold", .natural h.collectThreshold.toNat)]

def Config.toJson (c : Config) : Json :=
  .ofMembers [("debug", .bool c.debug), ("verify_on_load", .bool c.verifyOnLoad),
    ("limits", c.limits.toJson), ("heap", c.heap.toJson)]

def Config.text (c : Config) : String := c.toJson.render

def Config.parse (text : String) : Option Config := Json.parse text >>= Json.config?

def FileConfig.parse (text : String) : Option FileConfig := Json.parse text >>= Json.fileConfig?

end StackMachine
