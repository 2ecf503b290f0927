/-! Little-endian 32-bit words and UTF-8 text as lists of bytes. -/

namespace StackMachine.Image

def word (a b c d : UInt8) : UInt32 :=
  UInt32.ofNat (a.toNat + 0x100 * b.toNat + 0x10000 * c.toNat + 0x1000000 * d.toNat)

def wordBytes (w : UInt32) : List UInt8 :=
  [.ofNat w.toNat, .ofNat (w.toNat / 0x100), .ofNat (w.toNat / 0x10000),
   .ofNat (w.toNat / 0x1000000)]

theorem length_wordBytes (w : UInt32) : (wordBytes w).length = 4 := rfl

def lengthBytes (n : Nat) : List UInt8 := wordBytes (UInt32.ofNat n)

def textBytes (s : String) : List UInt8 := s.toByteArray.data.toList

/-- Reads bytes as text; nothing but valid UTF-8 is text. -/
def text? (bytes : List UInt8) : Option String := String.fromUTF8? ⟨bytes.toArray⟩

/-- Drops one NUL byte from the end, if there is one. -/
def stripNul (bytes : List UInt8) : List UInt8 :=
  if bytes.getLast? = some 0 then bytes.dropLast else bytes

end StackMachine.Image
