/-
  Quoted text, for people to read: double quotes around a text in which
  nothing is invisible.

  A quote, a backslash and the usual control characters are written with a
  backslash; a character that does not print, or that would combine with the
  one before it, is written by its number, as `\u{301}`.
-/
import ScopedResources.Text.Printable
import ScopedResources.Text.Extending

namespace ScopedResources.Text

/-- The digits of a number in base 16, lower case, without leading zeros. -/
def hexadecimal (n : Nat) : List Char :=
  Nat.toDigits 16 n

def quoteChar (c : Char) : List Char :=
  if c = '"' then ['\\', '"']
  else if c = '\\' then ['\\', '\\']
  else if c = '\n' then ['\\', 'n']
  else if c = '\r' then ['\\', 'r']
  else if c = '\t' then ['\\', 't']
  else if c.toNat = 0 then ['\\', '0']
  else if isExtending c || !isPrintable c then
    ['\\', 'u', '\x7b'] ++ hexadecimal c.toNat ++ ['\x7d']
  else [c]

/-- A text in double quotes, with everything visible. -/
def quoted (s : String) : String :=
  String.ofList (['"'] ++ s.toList.flatMap quoteChar ++ ['"'])

end ScopedResources.Text
