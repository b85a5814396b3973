/-
  Quoted texts in messages.

  A message shows a text so that a reader can tell every character of it. The common control
  characters, the backslash and the quote have escapes of their own; every other character without a
  shape is written by its code point.
-/
import Stache.Text.Quoted
import Stache.Text.Shapeless

namespace Stache.Text

/-- The form of `c` in a message. -/
def messageEscape (c : Char) : List Char :=
  if c = '\x00' then ['\\', '0']
  else if c = '\t' then ['\\', 't']
  else if c = '\r' then ['\\', 'r']
  else if c = '\n' then ['\\', 'n']
  else if c = '\\' then ['\\', '\\']
  else if c = '"' then ['\\', '"']
  else if isShapeless c then ['\\', 'u', '\x7b'] ++ Nat.toDigits 16 c.toNat ++ ['\x7d']
  else [c]

/-- The text `s` as a message shows it. -/
def messageQuoted (s : String) : String := quoted messageEscape s

end Stache.Text
