import Namesake.Text.Shown

/-! # Quoted text in messages

A text is shown between double quotes. Quotes and backslashes are escaped, line ends, tabs and the
zero character have escapes of their own, and every other character that does not show as itself is
given by its number; all else stands as it is.
-/

namespace Namesake.Text

/-- The shown form of one character. -/
def quotedChar (c : Char) : List Char :=
  if c == '"' then ['\\', '"']
  else if c == '\\' then ['\\', '\\']
  else if c == '\n' then ['\\', 'n']
  else if c == '\r' then ['\\', 'r']
  else if c == '\t' then ['\\', 't']
  else if c.toNat == 0 then ['\\', '0']
  else if isShown c then [c]
  else ['\\', 'u', '\x7b'] ++ Nat.toDigits 16 c.toNat ++ ['\x7d']

/-- A text between double quotes. -/
def quoted (text : String) : String :=
  String.ofList ('"' :: text.toList.flatMap quotedChar ++ ['"'])

end Namesake.Text
