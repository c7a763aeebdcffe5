import BuildGraph.Script.Numeral

/-!
# Tokens of descriptions

Names, numerals, texts and marks, with blanks and comments between them.  A text is written between
quotes, with escapes, or between long brackets, where nothing is escaped and every end of a line is
a line feed.

A description is read byte by byte, and need not be text in any encoding: a byte is held as the
character of its number (`ofBytes`), so that outside ASCII no character is more than one byte.
-/

namespace BuildGraph.Script

open Text (isHexDigit natOf)

/-- A word of a description. -/
inductive Token where
  /-- A name or a reserved word. -/
  | name (s : String)
  /-- A numeral. -/
  | number (v : Value)
  | text (bytes : List UInt8)
  | mark (s : String)
  /-- What is no token; nothing after it is read. -/
  | bad
  deriving Inhabited

namespace Token

/-! ## Characters -/

/-- Whether a character may stand between tokens. -/
def isBlank (c : Char) : Bool :=
  c = ' ' ∨ c = '\t' ∨ c = '\n' ∨ c = '\r' ∨ c = '\x0b' ∨ c = '\x0c'

/-- Whether a name may start with a character. -/
def isNameStart (c : Char) : Bool := c.isAlpha ∨ c = '_'

/-- Whether a name may go on with a character. -/
def isNamePart (c : Char) : Bool := isNameStart c ∨ c.isDigit

/-- The byte that a character stands for. -/
def byteOf (c : Char) : UInt8 := UInt8.ofNat c.toNat

/-- Bytes as characters. -/
def charsOf (bytes : ByteArray) : List Char :=
  bytes.data.toList.map fun b => Char.ofNat b.toNat

/-! ## Long brackets -/

/-- The level of the long bracket that opens at the start of a text, after its first `[`. -/
def longOpen? (level : Nat) : List Char → Option (Nat × List Char)
  | '=' :: rest => longOpen? (level + 1) rest
  | '[' :: rest => some (level, rest)
  | _ => none

/-- What follows the closing bracket of a level, after its first `]`. -/
def longClose? : Nat → List Char → Option (List Char)
  | 0, ']' :: rest => some rest
  | level + 1, '=' :: rest => longClose? level rest
  | _, _ => none

/-- The text up to the closing bracket of a level. -/
def readLong (level : Nat) : List Char → Option (List UInt8 × List Char)
  | [] => none
  | '\r' :: '\n' :: rest => (readLong level rest).map fun r => (10 :: r.1, r.2)
  | '\n' :: '\r' :: rest => (readLong level rest).map fun r => (10 :: r.1, r.2)
  | '\r' :: rest => (readLong level rest).map fun r => (10 :: r.1, r.2)
  | ']' :: rest =>
    match longClose? level rest with
    | some after => some ([], after)
    | none => (readLong level rest).map fun r => (93 :: r.1, r.2)
  | c :: rest => (readLong level rest).map fun r => (byteOf c :: r.1, r.2)

/-- A text without the end of a line at its start. -/
def dropNewline : List Char → List Char
  | '\r' :: '\n' :: rest => rest
  | '\n' :: '\r' :: rest => rest
  | '\r' :: rest => rest
  | '\n' :: rest => rest
  | cs => cs

/-! ## Quoted texts -/

/-- The bytes of a number as a character; numbers beyond the last character have longer forms. -/
def utf8Bytes (n : Nat) : List UInt8 :=
  let tail (count : Nat) : List UInt8 :=
    (List.range count).reverse.map fun i => UInt8.ofNat (0x80 + n / Nat.pow 64 i % 64)
  if n < 0x80 then [UInt8.ofNat n]
  else if n < 0x800 then UInt8.ofNat (0xC0 + n / 64) :: tail 1
  else if n < 0x10000 then UInt8.ofNat (0xE0 + n / Nat.pow 64 2) :: tail 2
  else if n < 0x200000 then UInt8.ofNat (0xF0 + n / Nat.pow 64 3) :: tail 3
  else if n < 0x4000000 then UInt8.ofNat (0xF8 + n / Nat.pow 64 4) :: tail 4
  else UInt8.ofNat (0xFC + n / Nat.pow 64 5) :: tail 5

/-- The byte that a letter stands for after a backslash. -/
def letterEscape? (c : Char) : Option UInt8 :=
  if c = 'a' then some 7
  else if c = 'b' then some 8
  else if c = 't' then some 9
  else if c = 'n' then some 10
  else if c = 'v' then some 11
  else if c = 'f' then some 12
  else if c = 'r' then some 13
  else if c = '\\' then some 92
  else if c = '\x22' then some 34
  else if c = '\x27' then some 39
  else none

/-- The bytes of the escape after a backslash, and what follows it. -/
def escape? : List Char → Option (List UInt8 × List Char)
  | [] => none
  | '\r' :: '\n' :: rest => some ([10], rest)
  | '\n' :: '\r' :: rest => some ([10], rest)
  | '\n' :: rest => some ([10], rest)
  | '\r' :: rest => some ([10], rest)
  | 'z' :: rest => some ([], rest.dropWhile isBlank)
  | 'x' :: a :: b :: rest =>
    if isHexDigit a ∧ isHexDigit b then some ([UInt8.ofNat (natOf 16 [a, b])], rest) else none
  | 'u' :: '\x7b' :: rest =>
    let ds := rest.takeWhile isHexDigit
    match rest.dropWhile isHexDigit with
    | '\x7d' :: after =>
      if ds ≠ [] ∧ natOf 16 ds < Nat.pow 2 31 then some (utf8Bytes (natOf 16 ds), after) else none
    | _ => none
  | c :: rest =>
    if c.isDigit then
      let ds := (c :: rest).take 3 |>.takeWhile Char.isDigit
      if natOf 10 ds < 256 then some ([UInt8.ofNat (natOf 10 ds)], (c :: rest).drop ds.length)
      else none
    else (letterEscape? c).map fun b => ([b], rest)

/-- The text up to the closing quote; `fuel` bounds the number of characters. -/
def readQuoted (quote : Char) (fuel : Nat) (cs : List Char) : Option (List UInt8 × List Char) :=
  match fuel, cs with
  | 0, _ => none
  | _, [] => none
  | fuel + 1, c :: rest =>
    if c = quote then some ([], rest)
    else if c = '\n' ∨ c = '\r' then none
    else if c = '\\' then
      match escape? rest with
      | none => none
      | some (bytes, after) =>
        (readQuoted quote fuel after).map fun r => (bytes ++ r.1, r.2)
    else (readQuoted quote fuel rest).map fun r => (byteOf c :: r.1, r.2)

/-! ## Comments -/

/-- What follows a comment, after its two dashes. -/
def afterComment? (cs : List Char) : Option (List Char) :=
  let line := cs.dropWhile fun c => c ≠ '\n' ∧ c ≠ '\r'
  match cs with
  | '[' :: rest =>
    match longOpen? 0 rest with
    | some (level, body) => (readLong level body).map (·.2)
    | none => some line
  | _ => some line

/-! ## Tokens -/

/-- Marks of one character. -/
def isMark (c : Char) : Bool :=
  c = '=' ∨ c = '\x7b' ∨ c = '\x7d' ∨ c = '[' ∨ c = ']' ∨ c = '(' ∨ c = ')' ∨ c = ',' ∨ c = ';'
    ∨ c = '.'

/-- A numeral and what follows it; a name may not follow directly. -/
def number? (cs : List Char) : Option (Token × List Char) :=
  match Numeral.lexeme cs with
  | (ds, rest) =>
    match Numeral.value? ds, rest.head?.any isNameStart with
    | some v, false => some (.number v, rest)
    | _, _ => none

/-- The token at the start of a text that starts with no blank. -/
def next? : List Char → Option (Token × List Char)
  | [] => none
  | '[' :: rest =>
    match longOpen? 0 rest with
    | some (level, body) =>
      (readLong level (dropNewline body)).map fun r => (.text r.1, r.2)
    | none => if rest.head? = some '=' then none else some (.mark "[", rest)
  | '.' :: '.' :: '.' :: _ => none
  | '.' :: '.' :: rest => some (.mark "..", rest)
  | '.' :: d :: rest =>
    if d.isDigit then number? ('.' :: d :: rest) else some (.mark ".", d :: rest)
  | c :: rest =>
    if c = '\x22' ∨ c = '\x27' then
      (readQuoted c rest.length rest).map fun r => (.text r.1, r.2)
    else if c.isDigit then number? (c :: rest)
    else if isNameStart c then
      some (.name (String.ofList ((c :: rest).takeWhile isNamePart)),
        (c :: rest).dropWhile isNamePart)
    else if isMark c then some (.mark (String.singleton c), rest)
    else none

/-- The tokens of a text; `fuel` bounds the number of tokens, blanks and comments. -/
def scan (fuel : Nat) (cs : List Char) : List Token :=
  match fuel, cs with
  | _, [] => []
  | 0, _ => [.bad]
  | fuel + 1, '-' :: '-' :: rest =>
    match afterComment? rest with
    | none => [.bad]
    | some rest => scan fuel rest
  | fuel + 1, c :: rest =>
    if isBlank c then scan fuel rest
    else match next? (c :: rest) with
      | none => [.bad]
      | some (t, rest) => t :: scan fuel rest

/-- The tokens of characters that stand for bytes.  Each takes at least one character, so their
number is a sufficient bound. -/
def ofChars (cs : List Char) : List Token := scan cs.length cs

/-- The tokens of bytes. -/
def ofBytes (bytes : ByteArray) : List Token := ofChars (charsOf bytes)

end Token

end BuildGraph.Script
