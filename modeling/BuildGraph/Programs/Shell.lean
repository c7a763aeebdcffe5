import BuildGraph.Text

/-!
# Shell scripts

The part of the shell's language that small scripts are written in: commands of words, one a line
or with `;`, `&&` and `||` between them, comments, quotes, and the arguments of the script.  A
command is `exit`, `echo`, `true`, `false` or `:`; any other is not found.  What it writes can be
sent to the notes or nowhere; complaints of the shell itself, which name the line, are notes.
-/

namespace BuildGraph.Programs.Shell

/-! ## Words -/

/-- A part of a word. -/
inductive Part where
  | text (s : List Char)
  /-- A parameter by its letter; quoted ones are not split at blanks. -/
  | parameter (name : Char) (quoted : Bool)
  deriving DecidableEq, Repr, Inhabited

/-- A word, as parts without blanks between them. -/
abbrev Word := List Part

/-- What stands after a command. -/
inductive Joint where
  /-- The end of a line. -/
  | line
  /-- A semicolon. -/
  | next
  /-- The next command is for a success only. -/
  | ifSuccess
  /-- The next command is for a failure only. -/
  | ifFailure
  deriving DecidableEq, Repr, Inhabited

/-- Where a command writes to. -/
inductive Sink where
  | output
  | notes
  | nothing
  deriving DecidableEq, Repr, Inhabited

/-- A word, or what stands between commands. -/
inductive Token where
  | word (w : Word)
  | joint (j : Joint)
  | sink (s : Sink)
  deriving DecidableEq, Repr, Inhabited

/-- Where a command is told to write to, by what follows a `>`. -/
def sinks : List (List Char × Sink) :=
  [("&2".toList, .notes), ("&1".toList, .output), ("/dev/null".toList, .nothing),
   (" /dev/null".toList, .nothing)]

/-- The sink that a text starts with, and what follows it. -/
def sink? (cs : List Char) : Option (Sink × List Char) :=
  (sinks.find? fun s => s.1.isPrefixOf cs).map fun s => (s.2, cs.drop s.1.length)

/-- Whether a letter after `$` names a parameter. -/
def isParameter (c : Char) : Bool := c.isDigit ∨ c = '@' ∨ c = '*' ∨ c = '#' ∨ c = '?'

/-- The parts between double quotes, and what follows them. -/
def quoted : List Char → Option (Word × List Char)
  | [] => none
  | '\\' :: c :: rest =>
    let kept := if c = '\\' ∨ c = '"' ∨ c = '$' then [c] else ['\\', c]
    (quoted rest).map fun r => (.text kept :: r.1, r.2)
  | '$' :: c :: rest =>
    if isParameter c then (quoted rest).map fun r => (.parameter c true :: r.1, r.2)
    else (quoted (c :: rest)).map fun r => (.text ['$'] :: r.1, r.2)
  | c :: rest =>
    if c = '"' then some ([.text []], rest)
    else (quoted rest).map fun r => (.text [c] :: r.1, r.2)

/-- A token before others, if a word has begun. -/
def close (w : Option Word) (ts : List Token) : List Token :=
  match w with
  | none => ts
  | some w => .word w :: ts

/-- The word so far with one more part. -/
def extend (w : Option Word) (p : Word) : Option Word := some (w.getD [] ++ p)

/-- The tokens of a script after a word that has begun; `fuel` bounds the number of steps. -/
def tokens (fuel : Nat) (w : Option Word) (cs : List Char) : Option (List Token) :=
  match fuel, cs with
  | _, [] => some (close w [])
  | 0, _ => none
  | fuel + 1, '&' :: '&' :: rest =>
    (tokens fuel none rest).map fun ts => close w (.joint .ifSuccess :: ts)
  | fuel + 1, '|' :: '|' :: rest =>
    (tokens fuel none rest).map fun ts => close w (.joint .ifFailure :: ts)
  | fuel + 1, '>' :: rest =>
    match sink? rest with
    | none => none
    | some (s, rest) =>
      (tokens fuel none rest).map fun ts => close (w.filter (· ≠ [.text ['1']])) (.sink s :: ts)
  | fuel + 1, '\\' :: c :: rest =>
    tokens fuel (if c = '\n' then w else extend w [.text [c]]) rest
  | fuel + 1, '$' :: c :: rest =>
    if isParameter c then tokens fuel (extend w [.parameter c false]) rest
    else tokens fuel (extend w [.text ['$']]) (c :: rest)
  | fuel + 1, c :: rest =>
    if c = ' ' ∨ c = '\t' then (tokens fuel none rest).map (close w)
    else if c = '\n' ∨ c = ';' then
      (tokens fuel none rest).map fun ts =>
        close w (.joint (if c = ';' then .next else .line) :: ts)
    else if c = '#' ∧ w = none then tokens fuel none (rest.dropWhile (· ≠ '\n'))
    else if c = '\x27' then
      let inner := rest.takeWhile (· ≠ '\x27')
      match rest.dropWhile (· ≠ '\x27') with
      | [] => none
      | _ :: rest => tokens fuel (extend w [.text inner]) rest
    else if c = '"' then
      match quoted rest with
      | none => none
      | some (parts, rest) => tokens fuel (extend w parts) rest
    else tokens fuel (extend w [.text [c]]) rest

/-! ## Commands -/

/-- What a command finds: the script's name and arguments, how the last command ended, and the
number of the line. -/
structure State where
  name : String
  args : List String
  status : Nat := 0
  line : Nat := 1

/-- The values of a parameter. -/
def State.values (s : State) (c : Char) : List String :=
  if c = '@' ∨ c = '*' then s.args
  else if c = '#' then [toString s.args.length]
  else if c = '?' then [toString s.status]
  else if c = '0' then [s.name]
  else [s.args.getD (c.toNat - '1'.toNat) ""]

/-- Whether a character separates words. -/
def isBlank (c : Char) : Bool := c = ' ' ∨ c = '\t' ∨ c = '\n'

/-- The words of a text that is not quoted. -/
def split (s : String) : List String :=
  ((Text.cut ' ' (s.toList.map fun c => if isBlank c then ' ' else c)).filter (· ≠ [])).map
    String.ofList

/-- The last word so far with more words joined to it. -/
def append (words : List String) (more : List String) : List String :=
  match words.reverse, more with
  | _, [] => words
  | [], more => more
  | last :: before, first :: rest => before.reverse ++ (last ++ first) :: rest

/-- The words that a word stands for. -/
def State.expand (s : State) : Word → List String
  | [] => []
  | p :: ps =>
    let values := match p with
      | .text cs => [String.ofList cs]
      | .parameter '*' true => [Text.join " " s.args]
      | .parameter c true => s.values c
      | .parameter c false => (s.values c).flatMap split
    append values (s.expand ps)

/-- What was written. -/
structure Written where
  output : String := ""
  notes : String := ""
  deriving DecidableEq, Repr, Inhabited

/-- What was written, and then more. -/
def Written.append (a b : Written) : Written := ⟨a.output ++ b.output, a.notes ++ b.notes⟩

/-- A text that is written to a sink. -/
def Written.ofText (text : String) : Sink → Written
  | .output => { output := text }
  | .notes => { notes := text }
  | .nothing => {}

/-- How a command ended, and what it wrote. -/
structure Result where
  status : Nat
  written : Written := {}
  /-- Whether the script ends here. -/
  ends : Bool := false
  deriving DecidableEq, Repr, Inhabited

/-- Code of a command that is not found. -/
def notFoundCode : Nat := 127

/-- Code of a script that does not follow the language. -/
def misuseCode : Nat := 2

/-- The code that a word is: a number with blanks around it and perhaps a plus sign before it. -/
def code? (word : String) : Option Nat :=
  let trimmed := (word.toList.dropWhile isBlank).reverse.dropWhile isBlank |>.reverse
  let digits := match trimmed with
    | '+' :: ds => ds
    | ds => ds
  if digits ≠ [] ∧ digits.all Char.isDigit ∧ Text.natOf 10 digits < Nat.pow 2 31 then
    some (Text.natOf 10 digits % 256)
  else none

/-- The character that a letter stands for after a backslash in what is echoed. -/
def escape? (c : Char) : Option Char :=
  if c = 'a' then some '\x07'
  else if c = 'b' then some '\x08'
  else if c = 'f' then some '\x0c'
  else if c = 'n' then some '\n'
  else if c = 'r' then some '\r'
  else if c = 't' then some '\t'
  else if c = 'v' then some '\x0b'
  else if c = '\\' then some '\\'
  else none

/-- What is shown for a text that is echoed; nothing is after `\c`. -/
def echoed : List Char → List Char
  | [] => []
  | '\\' :: 'c' :: _ => []
  | '\\' :: c :: rest =>
    match escape? c with
    | some c => c :: echoed rest
    | none => '\\' :: c :: echoed rest
  | c :: rest => c :: echoed rest

/-- What `echo` writes for its words. -/
def echo (words : List String) : String :=
  let text := match words with
    | "-n" :: words => Text.join " " words
    | words => Text.join " " words ++ "\n"
  String.ofList (echoed text.toList)

/-- A complaint of the shell. -/
def State.complain (s : State) (status : Nat) (text : String) (ends : Bool) : Result where
  status := status
  written := { notes := s.name ++ ": " ++ toString s.line ++ ": " ++ text ++ "\n" }
  ends := ends

/-- Carries out a command that writes to a sink. -/
def State.command (s : State) (sink : Sink) : List String → Result
  | [] => { status := s.status }
  | "exit" :: [] => { status := s.status, ends := true }
  | "exit" :: n :: _ =>
    match code? n with
    | some code => { status := code, ends := true }
    | none => s.complain misuseCode ("exit: Illegal number: " ++ n) true
  | "echo" :: words => { status := 0, written := .ofText (echo words) sink }
  | "true" :: _ => { status := 0 }
  | ":" :: _ => { status := 0 }
  | "false" :: _ => { status := 1 }
  | name :: _ => s.complain notFoundCode (name ++ ": not found") false

/-- Whether a command is carried out after a joint. -/
def applies (j : Joint) (status : Nat) : Bool :=
  match j with
  | .line => true
  | .next => true
  | .ifSuccess => status = 0
  | .ifFailure => status ≠ 0

/-- A command that is being read. -/
structure Pending where
  joint : Joint := .next
  words : List String := []
  sink : Sink := .output

/-- Carries out a command, if it is one to carry out. -/
def State.carryOut (s : State) (p : Pending) : Result :=
  if applies p.joint s.status then s.command p.sink p.words else { status := s.status }

/-- What a command finds after another that ended with a status. -/
def State.after (s : State) (status : Nat) (joint : Joint) : State :=
  { s with status, line := if joint = .line then s.line + 1 else s.line }

/-- The command after a joint.  A line may end where a command is still to come. -/
def Pending.after (p : Pending) (joint : Joint) : Pending :=
  { joint := if p.words = [] ∧ joint = .line then p.joint else joint }

/-- The code of commands and what they write, after one that is being read. -/
def commands (s : State) (p : Pending) : List Token → Nat × Written
  | [] =>
    let r := s.carryOut p
    (r.status, r.written)
  | .word w :: ts => commands s { p with words := p.words ++ s.expand w } ts
  | .sink sink :: ts => commands s { p with sink } ts
  | .joint joint :: ts =>
    let r := s.carryOut p
    if r.ends then (r.status, r.written)
    else
      let rest := commands (s.after r.status joint) (p.after joint) ts
      (rest.1, r.written.append rest.2)

/-- The code of a script and what it writes. -/
def run (name : String) (args : List String) (script : String) : Nat × Written :=
  let cs := script.toList
  match tokens cs.length none cs with
  | none => (misuseCode, {})
  | some ts => commands { name, args } {} ts

/-! ## Examples -/

example : run "s" ["a", "b c"] "echo \"$@\" # all\nfalse || exit 300\necho no"
    = (44, { output := "a b c\n" }) := by decide +kernel

example : run "s" [] "echo hi >&2; false && echo no" = (1, { notes := "hi\n" }) := by
  decide +kernel

example : run "s" [] ":\nnone\nexit +"
    = (2, { notes := "s: 2: none: not found\ns: 3: exit: Illegal number: +\n" }) := by
  decide +kernel

end BuildGraph.Programs.Shell
