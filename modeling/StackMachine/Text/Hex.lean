/-! Hexadecimal text with lower-case digits. -/

namespace StackMachine.Text

/-- At least `width` digits, filled up with zeros on the left. -/
def hex (width n : Nat) : String :=
  let digits := Nat.toDigits 16 n
  String.ofList (List.replicate (width - digits.length) '0' ++ digits)

end StackMachine.Text
