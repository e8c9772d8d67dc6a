/-
**Text quoted for a message.**

A text that a message repeats is put between quotation marks, and what would not show as it stands
is escaped: quotation marks, backslashes and line ends by a letter, other unprintable characters by
their code point.

Main definitions:

* `Text.escaped` — one character;
* `Text.quoted` — **a text between quotation marks**.
-/

import StripeBrush.Text.Unprintable

set_option relaxedAutoImplicit false
set_option autoImplicit false

namespace StripeBrush.Text

/-- A character as it is shown. -/
def escaped (c : Char) : List Char :=
  if c = '\x00' then ['\\', '0']
  else if c = '\t' then ['\\', 't']
  else if c = '\r' then ['\\', 'r']
  else if c = '\n' then ['\\', 'n']
  else if c = '"' then ['\\', '"']
  else if c = '\\' then ['\\', '\\']
  else if isUnprintable c then ['\\', 'u', '\x7b'] ++ Nat.toDigits 16 c.toNat ++ ['\x7d']
  else [c]

/-- A text between quotation marks. -/
def quoted (cs : List Char) : List Char := '"' :: (cs.flatMap escaped ++ ['"'])

end StripeBrush.Text
