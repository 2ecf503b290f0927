import StackMachine.Code.Module
import StackMachine.Image.Bytes

/-! Packed images. Functions and strings stand one after the other in a single buffer: a function
as the length of its name, the name, its two counts and its instructions, a string as its length
and its text. Tables say where each record starts; every access checks its bounds. -/

namespace StackMachine

inductive Record where
  | function (f : Func)
  | string (s : String)
  deriving DecidableEq, Repr

namespace Record

def asFunction? : Record → Option Func
  | .function f => some f
  | .string _ => none

def asString? : Record → Option String
  | .function _ => none
  | .string s => some s

open Image in
def textRecord (s : String) : List UInt8 := lengthBytes s.utf8ByteSize ++ textBytes s

open Image in
def bytes : Record → List UInt8
  | .function f =>
    textRecord f.name ++ wordBytes f.nparams ++ wordBytes f.nlocals
      ++ f.code.flatMap fun i => wordBytes i.word
  | .string s => textRecord s

end Record

def Module.ofRecords (records : List Record) : Module :=
  { functions := records.filterMap Record.asFunction?
    strings := records.filterMap Record.asString? }

def Module.records (m : Module) : List Record :=
  m.functions.map .function ++ m.strings.map .string

structure Placement where
  offset : Nat
  codeLength : Nat
  deriving DecidableEq, Repr

structure Arena where
  buffer : Array UInt8 := #[]
  functions : Array Placement := #[]
  strings : Array Nat := #[]
  deriving DecidableEq, Repr

structure FuncRecord where
  index : Nat
  name : String
  nparams : UInt32
  nlocals : UInt32
  codeStart : Nat
  codeLength : Nat
  deriving DecidableEq, Repr

namespace Arena

open Image

def push : Arena → Record → Nat × Arena
  | ⟨buffer, functions, strings⟩, r =>
    let offset := buffer.size
    let buffer := buffer ++ r.bytes
    match r with
    | .function f =>
      let index := functions.size
      (index, ⟨buffer, functions.push ⟨offset, f.code.length⟩, strings⟩)
    | .string _ =>
      let index := strings.size
      (index, ⟨buffer, functions, strings.push offset⟩)

def ofRecords (records : List Record) : Arena := records.foldl (fun a r => (a.push r).2) {}

def ofModule (m : Module) : Arena := ofRecords m.records

def wordAt (a : Arena) (offset : Nat) : Except ModuleError UInt32 :=
  if h : offset + 4 ≤ a.buffer.size then
    .ok (word a.buffer[offset] a.buffer[offset + 1] a.buffer[offset + 2] a.buffer[offset + 3])
  else .error (.corrupt offset .word)

def textAt (a : Arena) (offset length : Nat) : Except ModuleError String :=
  if offset + length ≤ a.buffer.size then
    match text? (a.buffer.extract offset (offset + length)).toList with
    | some s => .ok s
    | none => .error (.corrupt offset .encoding)
  else .error (.corrupt offset .text)

def functionRecord (a : Arena) (index : Nat) : Except ModuleError FuncRecord :=
  match a.functions[index]? with
  | none => .error (.functionIndexOutOfRange index a.functions.size)
  | some ⟨offset, codeLength⟩ => do
    let nameLength := (← a.wordAt offset).toNat
    let name ← a.textAt (offset + 4) nameLength
    let nparams ← a.wordAt (offset + 4 + nameLength)
    let nlocals ← a.wordAt (offset + 8 + nameLength)
    let codeStart := offset + 12 + nameLength
    if a.buffer.size < codeStart + codeLength * 4 then throw (.corrupt codeStart .code)
    return { index, name, nparams, nlocals, codeStart, codeLength }

def instruction (a : Arena) (f : FuncRecord) (ip : Nat) : Except ModuleError Instruction :=
  if ip < f.codeLength then Instruction.mk <$> a.wordAt (f.codeStart + ip * 4)
  else .error (.corrupt (f.codeStart + ip * 4) .instruction)

def string (a : Arena) (index : Nat) : Except ModuleError String :=
  match a.strings[index]? with
  | none => .error (.stringIndexOutOfRange index a.strings.size)
  | some offset => do
    let length := (← a.wordAt offset).toNat
    a.textAt (offset + 4) length

end Arena

end StackMachine
