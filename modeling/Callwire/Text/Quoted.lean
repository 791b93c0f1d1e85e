/-
# Quoted text

A name in a message or a debug text stands between double quotes. A quote or
a backslash inside is written after a backslash, the four usual control
characters by their letters, and every other character that is not visible
by its code point.

Key definitions: `Text.escape`, `Text.quoted`.
-/
import Callwire.Text.Visible

namespace Callwire
namespace Text

/-- One character between the quotes. -/
def escape (c : Char) : List Char :=
  match c with
  | '\x00' => ['\\', '0']
  | '\t' => ['\\', 't']
  | '\r' => ['\\', 'r']
  | '\n' => ['\\', 'n']
  | '"' => ['\\', '"']
  | '\\' => ['\\', '\\']
  | c =>
    if Visible.isVisible c then [c]
    else ['\\', 'u', '\x7b'] ++ Nat.toDigits 16 c.toNat ++ ['\x7d']

/-- The text between quotes. -/
def quoted (s : String) : String :=
  String.ofList ('"' :: s.toList.flatMap escape ++ ['"'])

end Text
end Callwire
