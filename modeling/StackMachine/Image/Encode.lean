import StackMachine.Image.Format
import StackMachine.Machine.Output

/-! Writing module files. A writer collects the sections of any number of modules and puts the size
in front when it finishes. A final sentinel may be missing and is then supplied; a sentinel before
the end cannot be written, and what was written of its module by then stays. -/

namespace StackMachine.Image

structure Writer where
  payload : Array UInt8
  deriving DecidableEq, Repr

abbrev Writing := EStateM EncodeError Writer

namespace Writer

def new : Writer := ⟨magic.toArray⟩

def put (bytes : List UInt8) : Writing Unit :=
  modify fun w => { w with payload := w.payload ++ bytes }

def putWord (w : UInt32) : Writing Unit := put (wordBytes w)

def putLength (field : Field) (n : Nat) : Writing Unit :=
  if n < 0x100000000 then putWord (UInt32.ofNat n) else throw (.tooLarge field n)

def putText (field : Field) (s : String) : Writing Unit := do
  let bytes := stripNul (textBytes s)
  putLength field bytes.length
  put bytes

/-- The instructions before the final sentinel, or all if there is none. -/
def body (code : List Instruction) : List Instruction :=
  match code.getLast? with
  | some last => if last.isEnd then code.dropLast else code
  | none => []

def putFunction (f : Func) : Writing Unit := do
  putText .functionName f.name
  putWord f.nparams
  putWord f.nlocals
  let code := body f.code
  match code.findIdx? Instruction.isEnd with
  | some index => throw (.embeddedEndSection f.name index)
  | none =>
    put (code.flatMap fun i => wordBytes i.word)
    putWord Instruction.endSection.word

/-- A section, or nothing at all if it would be empty. -/
def putSection (kind : SectionKind) (count : Field) (items : List α)
    (putItem : α → Writing Unit) : Writing Unit :=
  unless items.isEmpty do
    putWord kind.code
    putLength count items.length
    items.forM putItem

def putModule (m : Module) : Writing Unit := do
  putSection .functions .functionCount m.functions putFunction
  putSection .strings .stringCount m.strings (putText .string)

def finish (w : Writer) : Except EncodeError (List UInt8) :=
  if w.payload.size < 0x100000000 then
    .ok (lengthBytes w.payload.size ++ w.payload.toList)
  else .error (.tooLarge .module w.payload.size)

end Writer

def encode (m : Module) : Except EncodeError (List UInt8) :=
  match Writer.putModule m Writer.new with
  | .ok () w => w.finish
  | .error e _ => .error e

/-- Encodes the module and writes it to an output; nothing is written if encoding fails. -/
def encodeTo (m : Module) (o : Output) : Except EncodeError Unit × Output :=
  match encode m with
  | .error e => (.error e, o)
  | .ok bytes =>
    match o.write bytes with
    | (.ok (), o) => (.ok (), o)
    | (.error reason, o) => (.error (.output reason), o)

def encodedEvents : Except EncodeError (List UInt8) → List Event
  | .ok bytes => [.moduleEncoded bytes.length]
  | .error _ => []

end StackMachine.Image
