import BuildGraph.Ninja.BuildFile

/-!
# Reading build files

The executor's side of a build file: a text is read as a list of blocks.  In paths and in the
values of an edge's variables `$` is the escape character.  `$$`, `$ ` and `$:` stand for their
second character, and `$` at the end of a line, with the spaces at the start of the next one,
stands for nothing.  On the line of an edge spaces separate paths, `:` ends the outputs and stands
before the name of the rule, and `|` and `||` stand before the implicit inputs and the order-only
paths.  An indented line `k = v` binds `k`, the spaces around `=` left out; what a rule binds
goes to the end of the line as it is, since it is decoded only when the rule is used.

Reading is a step on lists of characters (`Reader`) that gives a result and the rest of the text.
A loop over steps (`Reader.many`) ends because a step that leaves the text as long as it was ends
it.
-/

namespace BuildGraph.Ninja

/-! ## What is read -/

/-- A rule as the executor sees it. -/
structure RuleBlock where
  name : String
  /-- The command line, with the variables in it as they are. -/
  command : String
  description : Option String
  generator : Bool
  restat : Bool
  deriving DecidableEq, Repr

/-- An edge as the executor sees it. -/
structure Statement where
  outputs : List String
  rule : String
  inputs : List String
  implicits : List String
  orderOnly : List String
  vars : List (String × String)
  deriving DecidableEq, Repr

/-- A part of a build file. -/
inductive Block where
  | comment (text : String)
  /-- A variable of the whole file. -/
  | setting (name value : String)
  | rule (r : RuleBlock)
  | build (s : Statement)
  /-- The paths that are built when no other is asked for. -/
  | default (paths : List String)
  deriving DecidableEq, Repr

/-! ## Steps and loops -/

/-- A step of reading: a result and the rest of the text. -/
abbrev Reader (α : Type) := List Char → Option (α × List Char)

namespace Reader

/-- Items up to a point.  An item that leaves the text as long as it was is an error. -/
def many {α : Type} (done : List Char → Bool) (item : Reader α) (cs : List Char) :
    Option (List α × List Char) :=
  if done cs then some ([], cs)
  else match item cs with
    | none => none
    | some (a, rest) =>
      if rest.length < cs.length then
        match many done item rest with
        | none => none
        | some (as, rest) => some (a :: as, rest)
      else none
termination_by cs.length

end Reader

/-- Characters of names of rules and variables. -/
def isWordChar (c : Char) : Bool := c.isAlphanum || c == '_' || c == '.' || c == '-'

/-- The word at the start of a text, and the rest. -/
def word (cs : List Char) : String × List Char :=
  (String.ofList (cs.takeWhile isWordChar), cs.dropWhile isWordChar)

/-- A text without the spaces at its start. -/
def skipSpaces (cs : List Char) : List Char := cs.dropWhile (· == ' ')

/-- Characters that `$` makes ordinary. -/
def isEscapable (c : Char) : Bool := c == '$' || c == ' ' || c == ':'

/-- Characters that end a path. -/
def isPathEnd (c : Char) : Bool := c == ' ' || c == ':' || c == '|' || c == '\n'

/-- The end of a line. -/
def isLineEnd (c : Char) : Bool := c == '\n'

/-- A decoded text up to a character that ends it; with `skipping`, spaces at the start are those
behind a line that was continued. -/
def decodeUntil (stop : Char → Bool) (skipping : Bool) :
    List Char → Option (List Char × List Char)
  | [] => some ([], [])
  | c :: cs =>
    if skipping && c == ' ' then decodeUntil stop true cs
    else if c = '$' then
      match cs with
      | [] => none
      | d :: ds =>
        if d = '\n' then decodeUntil stop true ds
        else if isEscapable d then
          (decodeUntil stop false ds).map fun r => (d :: r.1, r.2)
        else none
    else if stop c then some ([], c :: cs)
    else (decodeUntil stop false cs).map fun r => (c :: r.1, r.2)

/-- A line up to its end, as it is. -/
def rawLine (cs : List Char) : Option (List Char × List Char) :=
  some (cs.takeWhile (!isLineEnd ·), cs.dropWhile (!isLineEnd ·))

/-- A text behind one character, which must be there. -/
def expect (c : Char) : List Char → Option (List Char)
  | [] => none
  | d :: ds => if d = c then some ds else none

/-! ## Paths -/

/-- Whether no path follows. -/
def noPath (cs : List Char) : Bool :=
  match skipSpaces cs with
  | [] => true
  | c :: _ => isPathEnd c

/-- A path and the spaces before it. -/
def readPath : Reader String := fun cs => do
  let (path, cs) ← decodeUntil isPathEnd false (skipSpaces cs)
  pure (String.ofList path, cs)

/-- Paths, and the spaces behind them. -/
def readPaths : Reader (List String) := fun cs => do
  let (paths, cs) ← Reader.many noPath readPath cs
  pure (paths, skipSpaces cs)

/-- The implicit inputs, none where no `|` stands before them. -/
def readImplicits : Reader (List String)
  | '|' :: '|' :: cs => some ([], '|' :: '|' :: cs)
  | '|' :: cs => readPaths cs
  | cs => some ([], cs)

/-- The order-only paths, none where no `||` stands before them. -/
def readOrderOnly : Reader (List String)
  | '|' :: '|' :: cs => readPaths cs
  | cs => some ([], cs)

/-! ## Bindings -/

/-- A line that binds a name; `value` reads what stands behind `=`. -/
def readBinding (value : Reader (List Char)) : Reader (String × String) := fun cs => do
  let (name, cs) := word (skipSpaces cs)
  let cs ← expect '=' (skipSpaces cs)
  let (text, cs) ← value (skipSpaces cs)
  let cs ← expect '\n' cs
  pure ((name, String.ofList text), cs)

/-- The indented lines that follow. -/
def readBindings (value : Reader (List Char)) : Reader (List (String × String)) :=
  Reader.many (·.head? != some ' ') (readBinding value)

/-! ## Blocks -/

/-- A rule with what it binds, if it binds a command. -/
def ruleBlock? (name : String) (bindings : List (String × String)) : Option RuleBlock := do
  let command ← bindings.lookup "command"
  pure {
    name
    command
    description := bindings.lookup "description"
    generator := (bindings.lookup "generator").isSome
    restat := (bindings.lookup "restat").isSome }

/-- A rule, behind the word `rule`. -/
def readRule : Reader RuleBlock := fun cs => do
  let (name, cs) := word (skipSpaces cs)
  let cs ← expect '\n' cs
  let (bindings, cs) ← readBindings rawLine cs
  let rule ← ruleBlock? name bindings
  pure (rule, cs)

/-- An edge, behind the word `build`. -/
def readStatement : Reader Statement := fun cs => do
  let (outputs, cs) ← readPaths cs
  let cs ← expect ':' cs
  let (rule, cs) := word (skipSpaces cs)
  let (inputs, cs) ← readPaths cs
  let (implicits, cs) ← readImplicits cs
  let (orderOnly, cs) ← readOrderOnly cs
  let cs ← expect '\n' cs
  let (vars, cs) ← readBindings (decodeUntil isLineEnd false) cs
  pure ({ outputs, rule, inputs, implicits, orderOnly, vars }, cs)

/-- A block, told apart by its first word. -/
def readBlock : Reader Block := fun cs => do
  if cs.head? = some '#' then
    let (text, cs) ← rawLine (cs.drop 1)
    pure (.comment (String.ofList text), cs)
  else
    let (first, rest) := word cs
    if first = "rule" then
      let (r, cs) ← readRule rest
      pure (.rule r, cs)
    else if first = "build" then
      let (s, cs) ← readStatement rest
      pure (.build s, cs)
    else if first = "default" then
      let (paths, cs) ← readPaths rest
      pure (.default paths, cs)
    else
      let ((name, value), cs) ← readBinding (decodeUntil isLineEnd false) cs
      pure (.setting name value, cs)

/-- A block and the ends of lines behind it. -/
def readBlockAndVoid : Reader Block := fun cs => do
  let (block, cs) ← readBlock cs
  pure (block, cs.dropWhile isLineEnd)

/-- The blocks of a build file. -/
def read (text : String) : Option (List Block) := do
  let (blocks, _) ← Reader.many List.isEmpty readBlockAndVoid text.toList
  pure blocks

end BuildGraph.Ninja
