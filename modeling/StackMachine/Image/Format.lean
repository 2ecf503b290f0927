import StackMachine.Image.Arena
import StackMachine.Trace.Event

/-! The module file format: the size of what follows, eight magic bytes, and any number of
sections. A section has a kind, a count and that many records; a function's instructions end with
the sentinel. All numbers are little-endian words. -/

namespace StackMachine.Image

def magic : List UInt8 := textBytes "b9module"

inductive SectionKind where
  | functions | strings
  deriving DecidableEq, Repr

namespace SectionKind

def code : SectionKind → UInt32
  | .functions => 1
  | .strings => 2

def ofCode? (code : UInt32) : Option SectionKind :=
  if code = 1 then some .functions else if code = 2 then some .strings else none

end SectionKind

inductive Field where
  | moduleSize | sectionCode | functionCount | functionName | nparams | nlocals | instruction
  | stringCount | string | module
  deriving DecidableEq, Repr

def Field.name : Field → String
  | .moduleSize => "module size"
  | .sectionCode => "section code"
  | .functionCount => "function count"
  | .functionName => "function name"
  | .nparams => "nparams"
  | .nlocals => "nlocals"
  | .instruction => "instruction"
  | .stringCount => "string count"
  | .string => "string"
  | .module => "module"

end StackMachine.Image

namespace StackMachine

inductive DecodeError where
  | emptyInput
  | corruptHeader
  | truncated (field : Image.Field) (offset : Nat)
  | invalidSectionCode (code : UInt32)
  | invalidText (field : Image.Field) (offset : Nat)
  deriving DecidableEq, Repr

def DecodeError.message : DecodeError → String
  | .emptyInput => "empty input"
  | .corruptHeader => "corrupt header"
  | .truncated field offset => s!"truncated input while reading {field.name} at offset {offset}"
  | .invalidSectionCode code => s!"invalid section code {code}"
  | .invalidText field offset => s!"invalid utf-8 in {field.name} at offset {offset}"

inductive EncodeError where
  | output (reason : String)
  | tooLarge (field : Image.Field) (length : Nat)
  | embeddedEndSection (function : String) (index : Nat)
  deriving DecidableEq, Repr

def EncodeError.message : EncodeError → String
  | .output reason => s!"io error: {reason}"
  | .tooLarge field length => s!"{field.name} too large: {length}"
  | .embeddedEndSection function index => s!"END_SECTION inside {function} at instruction {index}"

def Module.warnings (m : Module) : List Event :=
  m.duplicates.map fun d => .duplicateName d.name d.previous d.index

end StackMachine
