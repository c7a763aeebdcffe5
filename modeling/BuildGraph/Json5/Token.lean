import BuildGraph.Json5.Text
import BuildGraph.Unicode

/-!
# JSON5 tokens

A document is read as tokens, with blanks and comments between them.  A token is as long as it can
be; two tokens need nothing between them, and the grammar refuses those that may not be neighbours.
-/

namespace BuildGraph.Json5

/-- A word of a document. -/
inductive Token where
  /-- A bracket, a brace, a comma or a colon. -/
  | mark (c : Char)
  /-- An identifier; `plain` says that it is written without escapes. -/
  | word (name : String) (plain : Bool)
  | string (s : String)
  | number (n : Numeral) (text : String)
  deriving DecidableEq, Repr, Inhabited

namespace Token

/-! ## Characters -/

/-- Whether a character may stand between tokens. -/
def isBlank (c : Char) : Bool :=
  c = ' ' ∨ c = '\t' ∨ c = '\x0b' ∨ c = '\x0c' ∨ c = '\ufeff' ∨ isLineEnd c ∨ Unicode.spaces.has c

/-- Whether a character is a mark. -/
def isMark (c : Char) : Bool :=
  c = '[' ∨ c = ']' ∨ c = '\x7b' ∨ c = '\x7d' ∨ c = ',' ∨ c = ':'

/-- Whether an identifier may start with a character. -/
def isWordStart (c : Char) : Bool :=
  c.isAlpha ∨ c = '$' ∨ c = '_' ∨ Unicode.letters.has c

/-- Whether an identifier may go on with a character. -/
def isWordPart (c : Char) : Bool :=
  isWordStart c ∨ c.isDigit ∨ c = '^' ∨ c = '\x60' ∨ c = '\u200c' ∨ c = '\u200d'
    ∨ Unicode.marks.has c

/-! ## Blanks and comments -/

/-- What follows the end of a block comment. -/
def afterBlock? : List Char → Option (List Char)
  | [] => none
  | '*' :: '/' :: rest => some rest
  | _ :: rest => afterBlock? rest

/-- What follows one blank or comment, if the text starts with one. -/
def afterBlank? : List Char → Option (List Char)
  | '/' :: '*' :: rest => afterBlock? rest
  | '/' :: '/' :: rest => some (rest.dropWhile fun c => !isLineEnd c)
  | c :: rest => if isBlank c then some rest else none
  | [] => none

/-! ## Tokens -/

/-- The pieces of the identifier at the start of a text. -/
def readWord : List Char → List Piece × List Char
  | '\\' :: 'u' :: a :: b :: c :: d :: rest =>
    match Piece.hex? [a, b, c, d] with
    | some n =>
      let r := readWord rest
      (.unit n :: r.1, r.2)
    | none => ([], '\\' :: 'u' :: a :: b :: c :: d :: rest)
  | c :: rest =>
    if isWordPart c then
      let r := readWord rest
      (.char c :: r.1, r.2)
    else ([], c :: rest)
  | [] => ([], [])

/-- Whether a piece is written as a character. -/
def isPlain : Piece → Bool
  | .char _ => true
  | .unit _ => false

/-- The identifier at the start of a text; escapes may stand for any character. -/
def word? (cs : List Char) : Option (Token × List Char) :=
  match readWord cs with
  | ([], _) => none
  | (ps, rest) => (Piece.text? ps).map fun name => (.word name (ps.all isPlain), rest)

/-- The string after its opening quote. -/
def string? (quote : Char) (cs : List Char) : Option (Token × List Char) :=
  match Piece.readString quote cs with
  | none => none
  | some (ps, rest) => (Piece.text? ps).map fun s => (.string s, rest)

/-- The numeral at the start of a text, if it has a value. -/
def number? (cs : List Char) : Option (Token × List Char) :=
  match Numeral.read? cs with
  | none => none
  | some (n, rest) =>
    if n.hasValue then
      some (.number n (String.ofList (cs.take (cs.length - rest.length))), rest)
    else none

/-- The token at the start of a text. -/
def next? : List Char → Option (Token × List Char)
  | [] => none
  | c :: rest =>
    if isMark c then some (.mark c, rest)
    else if c = '\x22' ∨ c = '\x27' then string? c rest
    else if isWordStart c ∨ c = '\\' then word? (c :: rest)
    else number? (c :: rest)

/-- The tokens of a text; `fuel` bounds the number of tokens, blanks and comments. -/
def scan (fuel : Nat) (cs : List Char) : Option (List Token) :=
  match fuel, cs with
  | _, [] => some []
  | 0, _ => none
  | fuel + 1, cs =>
    match afterBlank? cs with
    | some rest => scan fuel rest
    | none =>
      match next? cs with
      | none => none
      | some (t, rest) => (scan fuel rest).map (t :: ·)

/-- The tokens of a text.  Each takes at least one character, so the length of the text is a
sufficient bound. -/
def ofText? (text : String) : Option (List Token) := scan text.toList.length text.toList

end Token

end BuildGraph.Json5
