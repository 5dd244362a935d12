import IlSplice.Text.Hex
import IlSplice.Text.Printable

/-!
Text between double quotes.

The quote and the backslash are escaped by a backslash, the usual controls have a letter, and
every other character without a shape of its own is given by its code in braces.
-/

namespace IlSplice.Text

/-- The characters that stand for `c` inside quotes. -/
def quotedChar (c : Char) : String :=
  match c with
  | '"' => "\\\""
  | '\\' => "\\\\"
  | '\n' => "\\n"
  | '\r' => "\\r"
  | '\t' => "\\t"
  | '\x00' => "\\0"
  | c => if isPrintable c then c.toString else "\\u\x7b" ++ Hex.digits c.toNat ++ "\x7d"

/-- The text between double quotes. -/
def quoted (text : String) : String :=
  "\"" ++ String.join (text.toList.map quotedChar) ++ "\""

end IlSplice.Text
