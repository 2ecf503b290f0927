import StackMachine.Image.Format

/-! Reading module files. One pass over the bytes yields the records in their order of appearance;
the module and the packed image are both made from them. Counts are not trusted: a record that the
input does not hold ends the reading. -/

namespace StackMachine.Image

structure Input where
  rest : List UInt8
  offset : Nat
  records : Array Record
  deriving DecidableEq, Repr

abbrev Reading := EStateM DecodeError Input

namespace Reading

def bytes (field : Field) (n : Nat) : Reading (List UInt8) := fun s =>
  let front := s.rest.take n
  if front.length < n then .error (.truncated field s.offset) s
  else .ok front { s with rest := s.rest.drop n, offset := s.offset + n }

def word (field : Field) : Reading UInt32 := fun s =>
  match s.rest with
  | a :: b :: c :: d :: rest => .ok (Image.word a b c d) { s with rest, offset := s.offset + 4 }
  | _ => .error (.truncated field s.offset) s

/-- A length and that many bytes of text, less one NUL at the end. -/
def text (field : Field) : Reading String := do
  let length ← word field
  let start := (← get).offset
  match text? (stripNul (← bytes field length.toNat)) with
  | some s => return s
  | none => throw (.invalidText field start)

/-- Splits off the words up to and including the first zero word; without one, gives the number of
bytes behind the last full word. -/
def splitCode : List UInt8 → Except Nat (List Instruction × List UInt8)
  | a :: b :: c :: d :: rest =>
    let i : Instruction := ⟨Image.word a b c d⟩
    if i.isEnd then .ok ([i], rest)
    else (splitCode rest).map fun (code, rest) => (i :: code, rest)
  | rest => .error rest.length

def code : Reading (List Instruction) := fun s =>
  match splitCode s.rest with
  | .ok (code, rest) => .ok code { s with rest, offset := s.offset + 4 * code.length }
  | .error left => .error (.truncated .instruction (s.offset + (s.rest.length - left))) s

def keep (r : Record) : Reading Unit :=
  modify fun s => { s with records := s.records.push r }

def record : SectionKind → Reading Unit
  | .functions => do
    let name ← text .functionName
    let nparams ← word .nparams
    let nlocals ← word .nlocals
    keep (.function { name, nparams, nlocals, code := ← code })
  | .strings => do keep (.string (← text .string))

def records (kind : SectionKind) : Nat → Reading Unit
  | 0 => pure ()
  | n + 1 => do
    record kind
    records kind n

def readSection : Reading Unit := do
  let code ← word .sectionCode
  match SectionKind.ofCode? code with
  | some kind =>
    let count ← word (match kind with | .functions => .functionCount | .strings => .stringCount)
    records kind count.toNat
  | none => throw (.invalidSectionCode code)

/-- At most `n` sections, up to the end of the input. -/
def sections : Nat → Reading Unit
  | 0 => pure ()
  | n + 1 => do
    unless (← get).rest.isEmpty do
      readSection
      sections n

/-- The magic bytes; a header that is cut off is as corrupt as a wrong one. -/
def header : Reading Unit := fun s =>
  if s.rest.take magic.length = magic then
    .ok () { s with rest := s.rest.drop magic.length, offset := s.offset + magic.length }
  else .error .corruptHeader s

/-- A whole file; returns the declared size. No section is shorter than a byte, so there are fewer
sections than bytes. -/
def file : Reading UInt32 := do
  if (← get).rest.isEmpty then throw .emptyInput
  let size ← word .moduleSize
  header
  sections (← get).rest.length
  return size

end Reading

structure Decoded where
  result : Except DecodeError (Module × Arena)
  events : List Event

def readEvents (records : List Record) : List Event :=
  records.filterMap fun
    | .function f => some (.functionRead f.name f.nparams f.nlocals f.code.length)
    | .string _ => none

def decodeWithEvents (input : List UInt8) : Decoded :=
  match Reading.file { rest := input, offset := 0, records := #[] } with
  | .error e s => { result := .error e, events := readEvents s.records.toList }
  | .ok size s =>
    let records := s.records.toList
    let m := Module.ofRecords records
    let arena := Arena.ofRecords records
    let payload := input.length - 4
    { result := .ok (m, arena)
      events := readEvents records
        ++ (if size.toNat = payload then [] else [.sizeMismatch size.toNat payload])
        ++ m.warnings
        ++ [.moduleDecoded m.functions.length m.strings.length arena.buffer.size] }

def decode (input : List UInt8) : Except DecodeError (Module × Arena) :=
  (decodeWithEvents input).result

end StackMachine.Image
