import BuildGraph.Files.Resolve
import BuildGraph.Script.Concat
import BuildGraph.Script.Expression

/-!
# Evaluation of descriptions

A description sees the names that it gave to values, the table `haga`, and the library.  Requiring
a module evaluates its file once; later requests give the same value, unless it is false.  A module
that requires itself, through whatever others, never has a value: modules may require one another
only so deeply.

Only the declarative part of the language is evaluated (see the grammar).  The functions of the
library are values that a description may name, pass on and use as keys; of all calls only that of
`require` has a result.  So whatever is proved of the result of a description is about descriptions
that come to one without functions of their own, loops, assignments and calls into the library.

An evaluation keeps what it must not forget: the values of modules, the roles that tables got, and
how many tables it made, so that a new one can be told apart from all others (`fresh`).
-/

namespace BuildGraph.Script

/-- What an evaluation keeps. -/
structure Memory where
  /-- Values of modules, by name, the latest first. -/
  modules : List (ByteArray × Value) := []
  /-- Roles that tables got. -/
  roles : Value.Roles := []
  /-- Number of tables that were made. -/
  made : Nat := 0
  deriving Inhabited

/-- A computation that may require modules. -/
abbrev Evaluation := StateT Memory (Except Error)

/-- What a description sees, and what requiring a module does. -/
structure Environment where
  globals : Value
  require : Value → Evaluation (List Value)

/-- Values by name, the latest first. -/
abbrev Scope := List (String × Value)

/-! ## Names -/

/-- The table of keywords and of the description's directory. -/
def rootTable (directory : String) : Value :=
  .table { identity := .known "haga" } []
    [(.text "kw".toUTF8, .keywordTable), (.text "dir".toUTF8, .ofString directory)]

/-- The table of all names, for a description in a directory and modules at some places. -/
def globalsOf (modulePath directory : String) : Value :=
  .table { identity := .known Value.globalsName, role := .globals } []
    ((("haga", rootTable directory) :: Library.entries modulePath).map fun e =>
      (.text e.1.toUTF8, e.2))

/-- A table that was just made, told apart from all others. -/
def fresh (v : Value) : Evaluation Value :=
  match v with
  | .table tag items fields =>
    if tag.identity = .made 0 then do
      let memory ← get
      set { memory with made := memory.made + 1 }
      pure (.table { tag with identity := .made (memory.made + 1) } items fields)
    else pure v
  | v => pure v

/-- A value with the roles that its tables have by now. -/
def present (v : Value) : Evaluation Value := do pure (v.current (← get).roles)

/-- The value stored under another in a table. -/
def lookIn (t key : Value) : Evaluation Value := do
  let t ← present t
  let v ← t.index key
  fresh v

namespace Environment

/-- The value of a name; a name without one is `nil`. -/
def valueOf (env : Environment) (scope : Scope) (name : String) : Evaluation Value :=
  match scope.find? (·.1 == name) with
  | some found => pure found.2
  | none =>
    let all := match scope.find? (·.1 == Expr.scopeName) with
      | some found => found.2
      | none => env.globals
    if name = Expr.scopeName then pure all else lookIn all (.ofString name)

/-- The values that a call gives. -/
def call (env : Environment) (f argument : Value) : Evaluation (List Value) :=
  match f with
  | .function .require => env.require argument
  | _ => throw .badOperation

end Environment

/-! ## Expressions -/

/-- Stores collected values before a further one is collected. -/
def flushFull (t : Value) (next : Nat) (pending : List Value) : Value × Nat × List Value :=
  if pending.length = batch then (t.setFrom next pending, next + batch, [])
  else (t, next, pending)

/-- A table with a value as its type, for everyone who has the table. -/
def retype (t type : Value) : Evaluation Value :=
  match t.withType type with
  | .table tag items fields => do
    modify fun memory => { memory with roles := (tag.identity, tag.role) :: memory.roles }
    pure (.table tag items fields)
  | v => pure v

mutual

/-- The value of an expression. -/
def Expr.eval (env : Environment) (scope : Scope) : Expr → Evaluation Value
  | .constant v => pure v
  | .name s => env.valueOf scope s
  | .index t key => do
    let t ← t.eval env scope
    let key ← key.eval env scope
    lookIn t key
  | .concat left right => do
    let left ← left.eval env scope
    let right ← right.eval env scope
    let left ← present left
    let right ← present right
    let v ← left.concat right
    fresh v
  | .call f argument => do
    let f ← f.eval env scope
    let argument ← argument.eval env scope
    let results ← env.call f argument
    pure (results.head?.getD .nil)
  | .single e => e.eval env scope
  | .table fields => do
    let t ← fresh .emptyTable
    fields.eval env scope t 1 []
  | .typed t type => do
    let t ← t.eval env scope
    let type ← type.eval env scope
    retype t type

/-- The table with further fields; `pending` values go to the indices from `next` on. -/
def Fields.eval (env : Environment) (scope : Scope) (t : Value) (next : Nat)
    (pending : List Value) : Fields → Evaluation Value
  | .done => pure (t.setFrom next pending)
  | .positional (.call f argument) .done => do
    let (t, next, pending) := flushFull t next pending
    let f ← f.eval env scope
    let argument ← argument.eval env scope
    let results ← env.call f argument
    pure (t.setFrom next (pending ++ results))
  | .positional e rest => do
    let (t, next, pending) := flushFull t next pending
    let v ← e.eval env scope
    rest.eval env scope t next (pending ++ [v])
  | .keyed key e rest => do
    let (t, next, pending) := flushFull t next pending
    let key ← key.eval env scope
    let v ← e.eval env scope
    match key.key? with
    | none => throw .badOperation
    | some key => rest.eval env scope (t.set key v) next pending

end

/-- The scope after some statements. -/
def evalStatements (env : Environment) (scope : Scope) : List Statement → Evaluation Scope
  | [] => pure scope
  | .define name e :: rest => do
    let v ← e.eval env scope
    evalStatements env ((name, v) :: scope) rest
  | .run e :: rest => do
    let _ ← e.eval env scope
    evalStatements env scope rest

/-- The result of a description. -/
def Chunk.eval (env : Environment) (c : Chunk) : Evaluation Value := do
  let scope ← evalStatements env [] c.statements
  match c.result with
  | none => pure .nil
  | some e => e.eval env scope

/-! ## Modules -/

/-- The bytes before the first that is zero. -/
def untilZero (bytes : ByteArray) : ByteArray := ⟨(bytes.data.toList.takeWhile (· ≠ 0)).toArray⟩

/-- Where the file of a module may lie, in order of preference.  A dot in its name stands for a
slash; the places are told apart after the name is put into them, so a name with a semicolon names
others. -/
def modulePaths (modulePath : String) (name : ByteArray) : List String :=
  let path := (Token.charsOf name).map fun c => if c = '.' then '/' else c
  let filled := modulePath.toList.flatMap fun c => if c = '?' then path else [c]
  (Text.cut ';' filled).filterMap fun cs => String.fromUTF8? ⟨(cs.map Token.byteOf).toArray⟩

/-- The characters of a module's file without a mark of its encoding and a first line that is for
the system. -/
def moduleBody (content : ByteArray) : List Char :=
  let cs := match Token.charsOf content with
    | '\xef' :: '\xbb' :: '\xbf' :: rest => rest
    | cs => cs
  match cs with
  | '#' :: rest => rest.dropWhile (· ≠ '\n')
  | cs => cs

/-- The description that a file holds, read at some depth. -/
def readModule (fs : Files) (depth : Nat) (path : String) : Option Chunk :=
  match fs.read path with
  | .error _ => none
  | .ok content => (Chunk.read depth (Token.ofChars (moduleBody content))).toOption

/-- The value of a module so far. -/
def Memory.module (memory : Memory) (name : ByteArray) : Value :=
  match memory.modules.find? (·.1 == name) with
  | none => .nil
  | some m => m.2

/-- Keeps the value of a module. -/
def keepModule (name : ByteArray) (v : Value) : Evaluation Unit :=
  modify fun memory => { memory with modules := (name, v) :: memory.modules }

/-- The name of the module that a value asks for. -/
def moduleName (argument : Value) : Evaluation ByteArray :=
  match argument.bytes? with
  | none => throw .badOperation
  | some bytes => pure (untilZero bytes)

/-- The value of a module after its file was evaluated; where the file has no result, one from
before stays, and else it is `true`. -/
def settleModule (name : ByteArray) (result : Value) : Evaluation Value := do
  if !result.isNil then keepModule name result
  let v := (← get).module name
  if v.isNil then
    keepModule name (.bool true)
    pure (.bool true)
  else pure v

/-- The values that requiring a module gives: its value and, when its file was evaluated, where that
lies.  `left` is the number of levels below `maxDepth` that are left. -/
def requireModule (fs : Files) (modulePath : String) (globals : Value) : (left : Nat) → Value →
    Evaluation (List Value)
  | 0, argument => do
    let name ← moduleName argument
    let known := (← get).module name
    if known.isTrue then pure [known] else throw .badOperation
  | left + 1, argument => do
    let name ← moduleName argument
    let known := (← get).module name
    if known.isTrue then pure [known]
    else match (modulePaths modulePath name).find? fs.pathExists with
      | none => throw .badOperation
      | some path =>
        match readModule fs (maxDepth - 1 - left) path with
        | none => throw .badOperation
        | some chunk => do
          let result ← chunk.eval ⟨globals, requireModule fs modulePath globals left⟩
          let v ← settleModule name result
          pure [v, .ofString path]

/-! ## Descriptions -/

/-- The error that a flaw leads to. -/
def Flaw.error : Flaw → Error
  | .form => .badForm
  | .depth => .badOperation

/-- The tables of the library are modules from the start. -/
def startMemory (globals : Value) : Memory where
  modules := (Value.globalsName :: Library.tables.map (·.1)).map fun name =>
    (name.toUTF8, globals.get name)

/-- The result of an evaluation, with the roles that tables have at its end. -/
def resultOf (globals : Value) (evaluation : Evaluation Value) : Except Error Value := do
  let (v, memory) ← evaluation.run (startMemory globals)
  pure (v.current memory.roles)

/-- The result of a description, given as a text, in a directory.  Two levels are in use when it
requires a module. -/
def evaluate (fs : Files) (modulePath directory text : String) : Except Error Value :=
  match Chunk.readLenient (Token.ofBytes text.toUTF8) with
  | .error flaw => .error flaw.error
  | .ok chunk =>
    let globals := globalsOf modulePath directory
    let require := requireModule fs modulePath globals (maxDepth - 2)
    resultOf globals (chunk.eval ⟨globals, require⟩)

/-- The value of an expression on its own, without files. -/
def Expr.value (e : Expr) : Except Error Value :=
  let globals := globalsOf (Library.searchPath none) ""
  resultOf globals (e.eval ⟨globals, fun _ => throw .badOperation⟩ [])

end BuildGraph.Script
