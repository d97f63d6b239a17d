import Namesake.Json.Basic

/-! # Writing JSON text

A document is written on one line (`compact`), or with one member or item a line, two more spaces
for each level, and nothing between the brackets of an empty container (`pretty`). Quotes,
backslashes and control characters are escaped, every other character stands as it is.
-/

namespace Namesake.Json

/-- A hexadecimal digit in lower case. -/
def hexDigit (n : Nat) : Char := if n < 10 then Char.ofNat (48 + n) else Char.ofNat (87 + n)

/-- The written form of one character of a text. -/
def escapeChar (c : Char) : List Char :=
  if c == '"' then ['\\', '"']
  else if c == '\\' then ['\\', '\\']
  else if c == '\x08' then ['\\', 'b']
  else if c == '\x0c' then ['\\', 'f']
  else if c == '\n' then ['\\', 'n']
  else if c == '\r' then ['\\', 'r']
  else if c == '\t' then ['\\', 't']
  else if c.toNat < 0x20 then
    ['\\', 'u', '0', '0', hexDigit (c.toNat / 16), hexDigit (c.toNat % 16)]
  else [c]

/-- A text between quotes. -/
def quote (text : String) : String :=
  String.ofList ('"' :: text.toList.flatMap escapeChar ++ ['"'])

/-- A decimal, always with an exponent, so that it reads back as a decimal. -/
def Decimal.text (d : Decimal) : String :=
  (if d.negative then "-" else "") ++ toString d.digits ++ "e" ++ toString d.exponent

/-- A text that is read as illegible. -/
def illegibleText : String := "\"\\ud800\""

mutual

/-- The document on one line. -/
def compact : Json → String
  | null => "null"
  | bool b => if b then "true" else "false"
  | int n => toString n
  | decimal d => Decimal.text d
  | str s => quote s
  | illegible => illegibleText
  | arr items => "[" ++ ",".intercalate (compactItems items) ++ "]"
  | obj members => "\x7b" ++ ",".intercalate (compactMembers members) ++ "\x7d"

def compactItems : List Json → List String
  | [] => []
  | j :: rest => compact j :: compactItems rest

def compactMembers : List (String × Json) → List String
  | [] => []
  | (key, j) :: rest => (quote key ++ ":" ++ compact j) :: compactMembers rest

end

/-- A container over several lines, its parts indented by one more level. -/
def lines (opening closing : String) (level : Nat) (parts : List String) : String :=
  if parts.isEmpty then opening ++ closing
  else
    let indent := String.ofList (List.replicate (2 * level) ' ')
    opening ++ "\n" ++ ",\n".intercalate (parts.map fun p => indent ++ "  " ++ p) ++ "\n" ++ indent
      ++ closing

mutual

/-- The document over several lines, at a level of indentation. -/
def prettyAt (level : Nat) : Json → String
  | null => "null"
  | bool b => if b then "true" else "false"
  | int n => toString n
  | decimal d => Decimal.text d
  | str s => quote s
  | illegible => illegibleText
  | arr items => lines "[" "]" level (prettyItems (level + 1) items)
  | obj members => lines "\x7b" "\x7d" level (prettyMembers (level + 1) members)

def prettyItems (level : Nat) : List Json → List String
  | [] => []
  | j :: rest => prettyAt level j :: prettyItems level rest

def prettyMembers (level : Nat) : List (String × Json) → List String
  | [] => []
  | (key, j) :: rest => (quote key ++ ": " ++ prettyAt level j) :: prettyMembers level rest

end

/-- The document over several lines. -/
def pretty (j : Json) : String := prettyAt 0 j

end Namesake.Json
