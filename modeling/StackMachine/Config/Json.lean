import StackMachine.Text.Hex

/-! JSON text. A tree keeps its members in order, repeated keys included, and its numbers as they
are written, unless they are plain natural numbers. A string is the list of the code points that
it names; an escape may name one half of a surrogate pair, so not every string is text. -/

namespace StackMachine

abbrev CodePoints := List Nat

namespace CodePoints

def ofString (s : String) : CodePoints := s.toList.map Char.toNat

/-- A high surrogate and the low one behind it are one character; any other surrogate is none. -/
def chars? : CodePoints → Option (List Char)
  | [] => some []
  | [c] => if c.isValidChar then some [Char.ofNat c] else none
  | c :: d :: rest =>
    if 0xd800 ≤ c ∧ c < 0xdc00 ∧ 0xdc00 ≤ d ∧ d < 0xe000 then
      (chars? rest).map (Char.ofNat (0x10000 + (c - 0xd800) * 0x400 + (d - 0xdc00)) :: ·)
    else if c.isValidChar then (chars? (d :: rest)).map (Char.ofNat c :: ·)
    else none

def text? (s : CodePoints) : Option String := (chars? s).map String.ofList

end CodePoints

inductive Json where
  | null
  | bool (b : Bool)
  /-- Digits alone. -/
  | natural (n : Nat)
  /-- A number with a sign, a fraction or an exponent. -/
  | number (literal : List Char)
  | string (s : CodePoints)
  | array (items : List Json)
  | object (members : List (CodePoints × Json))

namespace Json

def isBlank (c : Char) : Bool := c == ' ' || c == '\t' || c == '\n' || c == '\r'

def skipBlanks (cs : List Char) : List Char := cs.dropWhile isBlank

def hexDigit? (c : Char) : Option Nat :=
  if '0' ≤ c ∧ c ≤ '9' then some (c.toNat - '0'.toNat)
  else if 'a' ≤ c ∧ c ≤ 'f' then some (c.toNat - 'a'.toNat + 10)
  else if 'A' ≤ c ∧ c ≤ 'F' then some (c.toNat - 'A'.toNat + 10)
  else none

def hexDigits? (a b c d : Char) : Option Nat :=
  return 0x1000 * (← hexDigit? a) + 0x100 * (← hexDigit? b) + 0x10 * (← hexDigit? c)
    + (← hexDigit? d)

def escape? (c : Char) : Option Nat :=
  match c with
  | '"' => some 0x22
  | '\\' => some 0x5c
  | '/' => some 0x2f
  | 'b' => some 0x08
  | 'f' => some 0x0c
  | 'n' => some 0x0a
  | 'r' => some 0x0d
  | 't' => some 0x09
  | _ => none

/-- The rest of a string whose opening quote is behind. -/
def stringTail : List Char → Option (CodePoints × List Char)
  | '"' :: rest => some ([], rest)
  | '\\' :: 'u' :: a :: b :: c :: d :: rest => do
    let unit ← hexDigits? a b c d
    let (s, rest) ← stringTail rest
    return (unit :: s, rest)
  | '\\' :: c :: rest => do
    let unit ← escape? c
    let (s, rest) ← stringTail rest
    return (unit :: s, rest)
  | c :: rest =>
    if c.toNat < 0x20 then none
    else do
      let (s, rest) ← stringTail rest
      return (c.toNat :: s, rest)
  | [] => none

def digits1 (cs : List Char) : Option (List Char × List Char) :=
  match cs.span Char.isDigit with
  | ([], _) => none
  | (ds, rest) => some (ds, rest)

/-- The integer part of a number: no zero in front of other digits. -/
def integerPart (cs : List Char) : Option (List Char × List Char) := do
  let (ds, rest) ← digits1 cs
  if ds.head? = some '0' ∧ ds.length ≠ 1 then none else some (ds, rest)

def fractionPart : List Char → Option (List Char × List Char)
  | '.' :: rest => (digits1 rest).map fun (ds, rest) => ('.' :: ds, rest)
  | rest => some ([], rest)

def exponentPart : List Char → Option (List Char × List Char)
  | e :: rest =>
    if e = 'e' ∨ e = 'E' then
      match rest with
      | sign :: rest' =>
        if sign = '+' ∨ sign = '-' then
          (digits1 rest').map fun (ds, rest) => (e :: sign :: ds, rest)
        else (digits1 rest).map fun (ds, rest) => (e :: ds, rest)
      | [] => none
    else some ([], e :: rest)
  | [] => some ([], [])

def digitsValue (ds : List Char) : Nat := ds.foldl (fun n c => 10 * n + (c.toNat - '0'.toNat)) 0

def number? (cs : List Char) : Option (Json × List Char) := do
  let (sign, cs) := match cs with
    | '-' :: rest => (['-'], rest)
    | cs => ([], cs)
  let (whole, cs) ← integerPart cs
  let (fraction, cs) ← fractionPart cs
  let (exponent, cs) ← exponentPart cs
  match sign ++ fraction ++ exponent with
  | [] => return (.natural (digitsValue whole), cs)
  | _ => return (.number (sign ++ whole ++ fraction ++ exponent), cs)

mutual

/-- A value, read with an allowance of `fuel` steps, and the rest of the text. -/
def value (fuel : Nat) (cs : List Char) : Option (Json × List Char) :=
  match fuel with
  | 0 => none
  | fuel + 1 =>
    match skipBlanks cs with
    | 'n' :: 'u' :: 'l' :: 'l' :: rest => some (.null, rest)
    | 't' :: 'r' :: 'u' :: 'e' :: rest => some (.bool true, rest)
    | 'f' :: 'a' :: 'l' :: 's' :: 'e' :: rest => some (.bool false, rest)
    | '"' :: rest => (stringTail rest).map fun (s, rest) => (.string s, rest)
    | '[' :: rest =>
      match skipBlanks rest with
      | ']' :: rest => some (.array [], rest)
      | rest => (items fuel rest).map fun (js, rest) => (.array js, rest)
    | '\x7b' :: rest =>
      match skipBlanks rest with
      | '\x7d' :: rest => some (.object [], rest)
      | rest => (members fuel rest).map fun (ms, rest) => (.object ms, rest)
    | cs => number? cs

/-- The items of an array up to its closing bracket; there is at least one. -/
def items (fuel : Nat) (cs : List Char) : Option (List Json × List Char) :=
  match fuel with
  | 0 => none
  | fuel + 1 => do
    let (j, rest) ← value fuel cs
    match skipBlanks rest with
    | ',' :: rest =>
      let (js, rest) ← items fuel rest
      return (j :: js, rest)
    | ']' :: rest => return ([j], rest)
    | _ => none

/-- The members of an object up to its closing brace; there is at least one. -/
def members (fuel : Nat) (cs : List Char) : Option (List (CodePoints × Json) × List Char) :=
  match fuel with
  | 0 => none
  | fuel + 1 =>
    match skipBlanks cs with
    | '"' :: rest => do
      let (key, rest) ← stringTail rest
      match skipBlanks rest with
      | ':' :: rest =>
        let (j, rest) ← value fuel rest
        match skipBlanks rest with
        | ',' :: rest =>
          let (ms, rest) ← members fuel rest
          return ((key, j) :: ms, rest)
        | '\x7d' :: rest => return ([(key, j)], rest)
        | _ => none
      | _ => none
    | _ => none

end

/-- A whole text: one value, and nothing but blanks around it. Going on to a further item and into a
nested value takes two of the allowance and at least one character of the text. -/
def parse (text : String) : Option Json :=
  let cs := text.toList
  match value (2 * cs.length + 1) cs with
  | some (j, rest) => if (skipBlanks rest).isEmpty then some j else none
  | none => none

def renderPoint (c : Nat) : String :=
  if c = 0x22 then "\\\""
  else if c = 0x5c then "\\\\"
  else if c < 0x20 ∨ ¬ c.isValidChar then "\\u" ++ Text.hex 4 c
  else (Char.ofNat c).toString

def renderString (s : CodePoints) : String := "\"" ++ String.join (s.map renderPoint) ++ "\""

mutual

def render : Json → String
  | .null => "null"
  | .bool b => if b then "true" else "false"
  | .natural n => toString n
  | .number literal => String.ofList literal
  | .string s => renderString s
  | .array js => "[" ++ renderItems js ++ "]"
  | .object ms => "\x7b" ++ renderMembers ms ++ "\x7d"

def renderItems : List Json → String
  | [] => ""
  | [j] => render j
  | j :: js => render j ++ "," ++ renderItems js

def renderMembers : List (CodePoints × Json) → String
  | [] => ""
  | [(key, j)] => renderString key ++ ":" ++ render j
  | (key, j) :: ms => renderString key ++ ":" ++ render j ++ "," ++ renderMembers ms

end

end Json

end StackMachine
