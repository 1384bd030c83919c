import Stencil.Text.Basic
import Stencil.Text.Combining
import Stencil.Text.Invisible

/-!
# Quoted texts

The form in which a message shows literal text: between double quotes, on one
line, with every character that would not be seen written as an escape.
-/

namespace Stencil.Text

/-- The code point in lower-case hexadecimal, without leading zeros, in braces. -/
def hexEscape (c : Char) : Text :=
  ['\\', 'u', '{'] ++ Nat.toDigits 16 c.toNat ++ ['}']

def quoteChar (c : Char) : Text :=
  match c with
  | '\x00' => ['\\', '0']
  | '\t' => ['\\', 't']
  | '\r' => ['\\', 'r']
  | '\n' => ['\\', 'n']
  | '"' => ['\\', '"']
  | '\\' => ['\\', '\\']
  | c => if isCombining c || isInvisible c then hexEscape c else [c]

def quote (t : Text) : Text := '"' :: t.flatMap quoteChar ++ ['"']

example : quote ['a', '\n', '\''] = ['"', 'a', '\\', 'n', '\'', '"'] := by decide +kernel

/-- A hidden character is shown by its number. -/
example : quote ['\x1b'] = ['"', '\\', 'u', '{', '1', 'b', '}', '"'] := by decide +kernel

end Stencil.Text
