import Ipam.Text.Printable

/-!
# Quoted text

Messages show a piece of foreign text between double quotes, so that its ends and its invisible
characters can be seen. A quote, a backslash and the usual blanks have two-character escapes; any
other character that is not printable is written as its code point, `\u{301}`.
-/

namespace Ipam.Text

/-- The code point of a character between braces, in hexadecimal without padding. -/
def codePoint (c : Char) : List Char :=
  ['\\', 'u', '\x7b'] ++ Nat.toDigits 16 c.toNat ++ ['\x7d']

/-- A character as it stands inside quoted text. -/
def quotedChar (c : Char) : List Char :=
  if c = '\x00' then ['\\', '0']
  else if c = '\t' then ['\\', 't']
  else if c = '\r' then ['\\', 'r']
  else if c = '\n' then ['\\', 'n']
  else if c = '\x22' then ['\\', '\x22']
  else if c = '\\' then ['\\', '\\']
  else if isPrintable c then [c]
  else codePoint c

/-- A text between double quotes. -/
def quoted (s : String) : String :=
  String.ofList ('\x22' :: (s.toList.flatMap quotedChar ++ ['\x22']))

end Ipam.Text
