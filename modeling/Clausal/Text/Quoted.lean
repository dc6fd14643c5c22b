import Clausal.Text.Hex
import Clausal.Text.Unprintable

/-!
# Quoted texts

A text between quotes: quotes and backslashes are escaped, the common controls have short escapes,
and other characters that would not show are written by their code point.
-/

namespace Clausal
namespace Text

/-- How one character of a quoted text is written. -/
def quoteChar (c : Char) : List Char :=
  match c with
  | '"' => ['\\', '"']
  | '\\' => ['\\', '\\']
  | '\n' => ['\\', 'n']
  | '\t' => ['\\', 't']
  | '\r' => ['\\', 'r']
  | '\x00' => ['\\', '0']
  | c => if isUnprintable c then ['\\', 'u', '\x7b'] ++ hexDigits c.toNat ++ ['\x7d'] else [c]

/-- A text between quotes. -/
def quoted (text : String) : String :=
  String.ofList ('"' :: text.toList.flatMap quoteChar ++ ['"'])

end Text
end Clausal
