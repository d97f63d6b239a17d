import Namesake.Json.Basic

/-! # Reading JSON text

The text is read in one pass. A `Scanner` collects the characters of an unfinished word or quoted
text and hands every finished token to a `Builder`, which holds the open containers, innermost
first, and what may come next. `parse?` accepts every JSON text, also one that holds a lone
surrogate, a number out of range or deeply nested parts; `read?` refuses those.
-/

namespace Namesake.Json

/-! ## Words and quoted text -/

/-- Whether the text is a nonempty run of decimal digits. -/
def isDigits (text : List Char) : Bool := !text.isEmpty && text.all Char.isDigit

/-- The number a run of decimal digits denotes. -/
def digitsValue (text : List Char) : Nat :=
  text.foldl (fun n c => n * 10 + (c.toNat - '0'.toNat)) 0

/-- The number of an exponent: an optional sign and digits. -/
def exponent? : List Char → Option Int
  | '-' :: digits => if isDigits digits then some (-digitsValue digits) else none
  | '+' :: digits => if isDigits digits then some (digitsValue digits) else none
  | digits => if isDigits digits then some (digitsValue digits) else none

/-- A number without its sign: whole digits, places and exponent, the last two where given. -/
structure Numeral where
  whole : List Char
  places : Option (List Char)
  exponent : Option Int

/-- Split an unsigned number into its parts. -/
def numeral? (text : List Char) : Option Numeral := do
  let whole := text.takeWhile Char.isDigit
  guard (isDigits whole && (whole.length == 1 || whole.head? != some '0'))
  let (places, rest) ← match text.dropWhile Char.isDigit with
    | '.' :: rest =>
      let places := rest.takeWhile Char.isDigit
      if places.isEmpty then none else some (some places, rest.dropWhile Char.isDigit)
    | rest => some (none, rest)
  match rest with
  | [] => some ⟨whole, places, none⟩
  | c :: rest =>
    guard (c == 'e' || c == 'E')
    some ⟨whole, places, some (← exponent? rest)⟩

/-- Append digits to a number as long as it stays within 64 bits, and give the digits left over. -/
def appendDigits (n : Nat) : List Char → Nat × List Char
  | [] => (n, [])
  | c :: rest =>
    let next := n * 10 + (c.toNat - '0'.toNat)
    if next < UInt64.size then appendDigits next rest else (n, c :: rest)

/-- The value of a number. Whole numbers of up to 64 bits stay whole, all others and a negative
zero are decimals. A decimal keeps the digits that fit into 64 bits: whole digits left over count
into its exponent, and the places still have their turn. -/
def Numeral.value (n : Numeral) (negative : Bool) : Json :=
  let places := n.places.getD []
  let (whole, dropped) := appendDigits 0 n.whole
  let (digits, unread) := appendDigits whole places
  let exponent := n.exponent.getD 0 + dropped.length - (places.length - unread.length : Nat)
  let isWhole := n.places.isNone && n.exponent.isNone && dropped.isEmpty
  if isWhole && !negative then int digits
  else if isWhole && digits != 0 && digits ≤ Int64.minValue.toInt.natAbs then int (-digits)
  else decimal ⟨negative, digits, exponent⟩

/-- The value of an unquoted word. -/
def word? (text : List Char) : Option Json :=
  if text == "null".toList then some null
  else if text == "true".toList then some (bool true)
  else if text == "false".toList then some (bool false)
  else match text with
    | '-' :: rest => (numeral? rest).map (Numeral.value · true)
    | _ => (numeral? text).map (Numeral.value · false)

/-- The value of a hexadecimal digit. -/
def hexDigit? (c : Char) : Option Nat :=
  if c.isDigit then some (c.toNat - '0'.toNat)
  else if 'a' ≤ c && c ≤ 'f' then some (c.toNat - 'a'.toNat + 10)
  else if 'A' ≤ c && c ≤ 'F' then some (c.toNat - 'A'.toNat + 10)
  else none

/-- The code unit of four hexadecimal digits. -/
def codeUnit? (a b c d : Char) : Option Nat := do
  some ((((← hexDigit? a) * 16 + (← hexDigit? b)) * 16 + (← hexDigit? c)) * 16 + (← hexDigit? d))

/-- The character a one-letter escape stands for. -/
def escape? : Char → Option Char
  | '"' => some '"'
  | '\\' => some '\\'
  | '/' => some '/'
  | 'b' => some '\x08'
  | 'f' => some '\x0c'
  | 'n' => some '\n'
  | 'r' => some '\r'
  | 't' => some '\t'
  | _ => none

/-- A piece of a quoted text: a character, or a code unit given by its number. -/
inductive Piece where
  | char (c : Char)
  | unit (value : Nat)

/-- Split a quoted text into its pieces. A bare control character or an unknown escape is an
error. -/
def pieces? : List Char → Option (List Piece)
  | [] => some []
  | '\\' :: 'u' :: a :: b :: c :: d :: rest => do
    let unit ← codeUnit? a b c d
    let pieces ← pieces? rest
    some (.unit unit :: pieces)
  | '\\' :: c :: rest => do
    let c ← escape? c
    let pieces ← pieces? rest
    some (.char c :: pieces)
  | c :: rest => do
    guard (c != '\\' && 0x20 ≤ c.toNat)
    let pieces ← pieces? rest
    some (.char c :: pieces)

/-- Whether a code unit is the first half of a pair. -/
def isHighSurrogate (unit : Nat) : Bool := 0xD800 ≤ unit && unit < 0xDC00

/-- Whether a code unit is the second half of a pair. -/
def isLowSurrogate (unit : Nat) : Bool := 0xDC00 ≤ unit && unit < 0xE000

/-- The characters the pieces stand for. A pair of surrogates makes one character, a lone surrogate
makes none. -/
def characters? : List Piece → Option (List Char)
  | [] => some []
  | .char c :: rest => (characters? rest).map (c :: ·)
  | .unit value :: rest =>
    if isHighSurrogate value then
      match rest with
      | .unit low :: rest =>
        if isLowSurrogate low then
          let c := Char.ofNat (0x10000 + (value - 0xD800) * 0x400 + (low - 0xDC00))
          (characters? rest).map (c :: ·)
        else none
      | _ => none
    else if isLowSurrogate value then none
    else (characters? rest).map (Char.ofNat value :: ·)

/-- The value of a quoted text. -/
def text? (written : List Char) : Option Json := do
  match characters? (← pieces? written) with
  | some chars => some (str (String.ofList chars))
  | none => some illegible

/-! ## Containers -/

/-- A lexical token. -/
inductive Token where
  | openArray
  | closeArray
  | openObject
  | closeObject
  | comma
  | colon
  | scalar (value : Json)

/-- A member under construction; an illegible name is none. -/
abbrev Entry := Option String × Json

/-- The object of its members, latest first; illegible if the name of one is. -/
def object (done : List Entry) : Json :=
  match done.reverse.mapM fun (key, value) => key.map fun key => (key, value) with
  | some members => obj members
  | none => illegible

/-- An open container: what is finished of it, latest first, and the member under way. -/
inductive Frame where
  | inArray (done : List Json)
  | inObject (done : List Entry) (key : Option String)

/-- What may come next. -/
inductive Expected where
  /-- A value; right after an opening bracket also its close. -/
  | value (orClose : Bool)
  /-- A key of the object under way; right after its opening brace also its close. -/
  | key (done : List Entry) (orClose : Bool)
  | colon (done : List Entry) (key : Option String)
  /-- A finished value, with a comma or a close to follow; outside all containers, the end. -/
  | ended (value : Json)

/-- A document under construction. -/
structure Builder where
  /-- The containers around the place reached, innermost first. -/
  frames : List Frame
  expected : Expected

namespace Builder

def start : Builder := ⟨[], .value false⟩

/-- Take the next token. -/
def take (b : Builder) (token : Token) : Option Builder :=
  match b.expected, token with
  | .value _, .scalar v => some { b with expected := .ended v }
  | .value _, .openArray => some ⟨.inArray [] :: b.frames, .value true⟩
  | .value _, .openObject => some { b with expected := .key [] true }
  | .value true, .closeArray =>
    match b.frames with
    | .inArray [] :: rest => some ⟨rest, .ended (arr [])⟩
    | _ => none
  | .key done _, .scalar (.str key) => some { b with expected := .colon done (some key) }
  | .key done _, .scalar .illegible => some { b with expected := .colon done none }
  | .key done true, .closeObject => some { b with expected := .ended (object done) }
  | .colon done key, .colon => some ⟨.inObject done key :: b.frames, .value false⟩
  | .ended v, .comma =>
    match b.frames with
    | .inArray done :: rest => some ⟨.inArray (v :: done) :: rest, .value false⟩
    | .inObject done key :: rest => some ⟨rest, .key ((key, v) :: done) false⟩
    | [] => none
  | .ended v, .closeArray =>
    match b.frames with
    | .inArray done :: rest => some ⟨rest, .ended (arr (v :: done).reverse)⟩
    | _ => none
  | .ended v, .closeObject =>
    match b.frames with
    | .inObject done key :: rest => some ⟨rest, .ended (object ((key, v) :: done))⟩
    | _ => none
  | _, _ => none

/-- The finished document. -/
def document? (b : Builder) : Option Json :=
  match b with
  | ⟨[], .ended v⟩ => some v
  | _ => none

end Builder

/-! ## Characters -/

/-- The characters of an unfinished token, latest first. -/
inductive Unfinished where
  | nothing
  | word (chars : List Char)
  | quoted (chars : List Char)
  /-- Inside a quoted text, right after a backslash. -/
  | escaped (chars : List Char)

/-- The state between two characters of the text. -/
structure Scanner where
  unfinished : Unfinished
  builder : Builder

namespace Scanner

/-- The token of a punctuation mark. -/
def mark? : Char → Option Token
  | '[' => some .openArray
  | ']' => some .closeArray
  | '\x7b' => some .openObject
  | '\x7d' => some .closeObject
  | ',' => some .comma
  | ':' => some .colon
  | _ => none

def isBlank (c : Char) : Bool := c == ' ' || c == '\t' || c == '\n' || c == '\r'

def isWordChar (c : Char) : Bool := c.isAlphanum || c == '-' || c == '+' || c == '.'

/-- The character after a finished token. -/
def between (b : Builder) (c : Char) : Option Scanner :=
  if isBlank c then some ⟨.nothing, b⟩
  else if c == '"' then some ⟨.quoted [], b⟩
  else if isWordChar c then some ⟨.word [c], b⟩
  else do some ⟨.nothing, ← b.take (← mark? c)⟩

/-- Take the next character. -/
def take (s : Scanner) (c : Char) : Option Scanner :=
  match s.unfinished with
  | .nothing => between s.builder c
  | .word chars =>
    if isWordChar c then some { s with unfinished := .word (c :: chars) }
    else do between (← s.builder.take (.scalar (← word? chars.reverse))) c
  | .quoted chars =>
    if c == '"' then do some ⟨.nothing, ← s.builder.take (.scalar (← text? chars.reverse))⟩
    else if c == '\\' then some { s with unfinished := .escaped chars }
    else some { s with unfinished := .quoted (c :: chars) }
  | .escaped chars => some { s with unfinished := .quoted (c :: '\\' :: chars) }

/-- The document at the end of the text. -/
def finish (s : Scanner) : Option Json :=
  match s.unfinished with
  | .nothing => s.builder.document?
  | .word chars => do (← s.builder.take (.scalar (← word? chars.reverse))).document?
  | _ => none

end Scanner

/-- The document in a text that holds one and nothing else but blanks. -/
def parse? (text : String) : Option Json :=
  text.toList.foldlM Scanner.take ⟨.nothing, Builder.start⟩ >>= Scanner.finish

/-- The deepest nesting of arrays and objects that is read. -/
def depthLimit : Nat := 127

/-- Read a document that can be taken in whole. -/
def read? (text : String) : Option Json := (parse? text).filter (fits depthLimit)

end Namesake.Json
