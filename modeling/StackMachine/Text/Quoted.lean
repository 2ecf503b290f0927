import StackMachine.Text.Hex
import StackMachine.Text.Unprintable

/-! Quoted text: a string between double quotes in which every character can be seen. The quote,
the backslash and the common control characters have short escapes; any other character that does
not stand for itself is written by its code point. -/

namespace StackMachine.Text

def quotedChar (c : Char) : String :=
  match c with
  | '\x00' => "\\0"
  | '\t' => "\\t"
  | '\r' => "\\r"
  | '\n' => "\\n"
  | '"' => "\\\""
  | '\\' => "\\\\"
  | c => if unprintable c then "\\u\x7b" ++ hex 1 c.toNat ++ "\x7d" else c.toString

def quoted (s : String) : String := "\"" ++ String.join (s.toList.map quotedChar) ++ "\""

end StackMachine.Text
