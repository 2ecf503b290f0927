/-! Options on a command line. An option is written `--name value` or `--name=value`, or by a letter
as `-n value`, `-nvalue` or `-n=value`; letters without a value may be joined. It is given at most
once. After `--` nothing is an option. A number with a minus sign is an operand once those
operands are due that admit it. -/

namespace StackMachine.Cli

structure OptionSpec where
  name : String
  letter : Option Char := none
  takesValue : Bool := false
  accepts : String → Bool := fun _ => true

structure Scope where
  options : List OptionSpec
  /-- The checks of the operands that stand alone. -/
  operands : List (String → Bool) := []
  /-- The check of any number of further operands; these may be negative numbers. -/
  further : Option (String → Bool) := none

structure Parsed where
  values : List (String × String) := []
  flags : List String := []
  operands : List String := []
  /-- An option that waits for its value. -/
  pending : Option OptionSpec := none
  /-- Whether `--` is behind. -/
  onlyOperands : Bool := false

/-- Why reading stops early. -/
inductive Stop where
  | usage
  | help
  | version
  deriving DecidableEq, Repr

namespace Parsed

def setValue (p : Parsed) (o : OptionSpec) (value : String) : Except Stop Parsed :=
  if (p.values.lookup o.name).isSome || !o.accepts value then .error .usage
  else .ok { p with values := (o.name, value) :: p.values, pending := none }

def setFlag (p : Parsed) (o : OptionSpec) : Except Stop Parsed :=
  if o.name = "help" then .error .help
  else if o.name = "version" then .error .version
  else if o.name ∈ p.flags then .error .usage
  else .ok { p with flags := o.name :: p.flags }

def addOperand (p : Parsed) (scope : Scope) (s : String) : Except Stop Parsed :=
  match scope.operands[p.operands.length]? <|> scope.further with
  | some accepts =>
    if p.pending.isSome || !accepts s then .error .usage
    else .ok { p with operands := p.operands ++ [s] }
  | none => .error .usage

def addPlain (p : Parsed) (scope : Scope) (s : String) : Except Stop Parsed :=
  match p.pending with
  | some o => p.setValue o s
  | none => p.addOperand scope s

/-- An option that comes while another waits for its value is a mistake. -/
def noPending (p : Parsed) : Except Stop Parsed :=
  if p.pending.isSome then .error .usage else .ok p

def addLong (p : Parsed) (scope : Scope) (name : List Char) (value : Option String) :
    Except Stop Parsed := do
  match scope.options.find? fun o => o.name.toList == name with
  | none => throw .usage
  | some o =>
    let p ← p.noPending
    match o.takesValue, value with
    | true, some value => p.setValue o value
    | true, none => return { p with pending := some o }
    | false, some _ => throw .usage
    | false, none => p.setFlag o

def addLetters (p : Parsed) (scope : Scope) : List Char → Except Stop Parsed
  | [] => return p
  | c :: rest => do
    match scope.options.find? fun o => o.letter == some c with
    | none => throw .usage
    | some o =>
      let p ← p.noPending
      if o.takesValue then
        match rest with
        | [] => return { p with pending := some o }
        | '=' :: value => p.setValue o (String.ofList value)
        | value => p.setValue o (String.ofList value)
      else addLetters (← p.setFlag o) scope rest

end Parsed

/-- Whether `cs` ends a number of which `first` tells that nothing was read yet, and `point` and
`exponent` that these were. -/
def endsNumber (first point exponent : Bool) : List Char → Bool
  | [] => true
  | c :: rest =>
    if c.isDigit then endsNumber false point exponent rest
    else if c = '.' ∧ !point ∧ !exponent ∧ !first then endsNumber false true exponent rest
    else if (c = 'e' ∨ c = 'E') ∧ !exponent ∧ !first ∧ !rest.isEmpty then
      endsNumber false point true rest
    else false

/-- Digits with at most one point and, after it, an exponent behind an `e` of either case: neither
comes first, and the exponent is not empty. -/
def isNumber (cs : List Char) : Bool := endsNumber true false false cs

/-- Takes one argument in. -/
def Parsed.add (p : Parsed) (scope : Scope) (s : String) : Except Stop Parsed :=
  if p.onlyOperands then p.addOperand scope s
  else
    match s.toList with
    | ['-', '-'] => do return { ← p.noPending with onlyOperands := true }
    | '-' :: '-' :: rest =>
      match rest.span (· != '=') with
      | (name, '=' :: value) => p.addLong scope name (some (String.ofList value))
      | (name, _) => p.addLong scope name none
    | '-' :: c :: rest =>
      let due := scope.operands.length ≤ p.operands.length ∧ scope.further.isSome
      if isNumber (c :: rest) ∧ due then
        p.addPlain scope s
      else p.addLetters scope (c :: rest)
    | _ => p.addPlain scope s

end StackMachine.Cli
