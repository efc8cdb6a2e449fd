import ServiceFlow.Text.Visible

/-!
# Quoted texts

A text between quotation marks.  The quotation mark, the backslash, the line ends, the tab and
the null character have two-character escapes, any other character that cannot be seen on its
own is written by its code point, and everything else stands for itself.
-/

namespace ServiceFlow.Text

/-- The code point of a character in braces, in lower-case hexadecimal digits. -/
def codePointEscape (c : Char) : List Char :=
  ['\\', 'u', '\x7b'] ++ Nat.toDigits 16 c.toNat ++ ['\x7d']

/-- A character as it stands between quotation marks. -/
def escapeChar (c : Char) : List Char :=
  if c = '"' then ['\\', '"']
  else if c = '\\' then ['\\', '\\']
  else if c = '\n' then ['\\', 'n']
  else if c = '\r' then ['\\', 'r']
  else if c = '\t' then ['\\', 't']
  else if c = '\x00' then ['\\', '0']
  else if isVisible c then [c]
  else codePointEscape c

/-- A text between quotation marks, with escapes. -/
def quoted (s : String) : String :=
  String.ofList ('"' :: (s.toList.flatMap escapeChar ++ ['"']))

end ServiceFlow.Text
