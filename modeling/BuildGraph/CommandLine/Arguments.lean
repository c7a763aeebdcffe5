/-!
# Arguments

What a command line asks for.  Arguments are read from the left: an option that asks for help ends
the reading at once, and so does the first argument that is not understood.  After `--` every
argument is a plain word.  No option may be given twice, and no path may be empty.
-/

namespace BuildGraph.CommandLine

/-- The form in which a graph is printed. -/
inductive Format where
  | text
  | json
  deriving DecidableEq, Repr, Inhabited

/-- What a command line asks for. -/
inductive Request where
  /-- Print the build file of a description, or write it into a directory. -/
  | generate (file : String) (outDir : Option String) (format : Format)
  /-- Make the build file if it is missing, then build targets. -/
  | build (file : String) (targets : List String)
  | deploy (file : String)
  /-- Copy a directory that holds exactly the named files. -/
  | rsync (src dst : String) (inputs : List String)
  deriving DecidableEq, Repr, Inhabited

/-- A command line that was understood. -/
structure Line where
  /-- Whether events are logged. -/
  verbose : Bool
  request : Request
  deriving DecidableEq, Repr, Inhabited

/-- Why there is nothing to carry out. -/
inductive Stop where
  | help
  | version
  | usage
  deriving DecidableEq, Repr, Inhabited

/-- The commands. -/
inductive Command where
  | generate
  | build
  | deploy
  | rsync
  deriving DecidableEq, Repr, Inhabited

/-- The spelling of a command. -/
def Command.name : Command → String
  | .generate => "genin"
  | .build => "build"
  | .deploy => "deploy"
  | .rsync => "rsync"

/-- The command with a given spelling. -/
def Command.ofName? (s : String) : Option Command :=
  [Command.generate, .build, .deploy, .rsync].find? (·.name == s)

/-- The command that explains the others. -/
def helpName : String := "help"

/-- The description of runs that name none. -/
def defaultFile : String := "HAGA.lua"

/-! ## Reading the arguments of a command -/

/-- An option with a value. -/
inductive ValueOption where
  | outDir
  | format
  deriving DecidableEq, Repr, Inhabited

/-- What was read so far. -/
structure Reading where
  verbose : Bool := false
  outDir : Option String := none
  format : Option Format := none
  words : List String := []
  /-- The option whose value comes next. -/
  awaited : Option ValueOption := none
  /-- Whether `--` was read. -/
  escaped : Bool := false
  deriving DecidableEq, Repr, Inhabited

/-- Whether an argument is read as an option. -/
def isOption (arg : String) : Bool :=
  match arg.toList with
  | '-' :: _ :: _ => true
  | _ => false

/-- The format with a given spelling. -/
def Format.ofName? (s : String) : Option Format :=
  if s = "text" then some .text else if s = "json" then some .json else none

namespace Reading

/-- The reading with the flag set. -/
def setVerbose (r : Reading) : Except Stop Reading :=
  if r.verbose then .error .usage else .ok { r with verbose := true }

/-- The reading with the value of an option. -/
def setValue (r : Reading) (o : ValueOption) (value : String) : Except Stop Reading :=
  match o with
  | .outDir =>
    if r.outDir.isSome ∨ value = "" then .error .usage
    else .ok { r with outDir := some value, awaited := none }
  | .format =>
    match r.format, Format.ofName? value with
    | none, some f => .ok { r with format := some f, awaited := none }
    | _, _ => .error .usage

/-- Whether a word may be the next one of a command. -/
def accepts (c : Command) (words : List String) (word : String) : Bool :=
  match c, words with
  | _, [] => word ≠ ""
  | .generate, _ => false
  | .deploy, _ => false
  | .build, _ => true
  | .rsync, _ => true

/-- The reading with one more word. -/
def addWord (r : Reading) (c : Command) (word : String) : Except Stop Reading :=
  if accepts c r.words word then .ok { r with words := r.words ++ [word] } else .error .usage

/-- The text of a value that is written together with its option. -/
def attached : List Char → String
  | '=' :: value => String.ofList value
  | value => String.ofList value

/-- The reading after options of one letter that are written together. -/
def short (r : Reading) (c : Command) : List Char → Except Stop Reading
  | [] => .ok r
  | letter :: rest =>
    if letter = 'h' then .error .help
    else if letter = 'v' then
      match r.setVerbose with
      | .ok r => short r c rest
      | .error e => .error e
    else if letter = 'o' ∧ c = .generate then
      if rest = [] then .ok { r with awaited := some .outDir }
      else r.setValue .outDir (attached rest)
    else .error .usage

/-- The option with a value that a name stands for. -/
def valueOption? (c : Command) (name : String) : Option ValueOption :=
  if c ≠ .generate then none
  else if name = "out-dir" then some .outDir
  else if name = "format" then some .format
  else none

/-- The reading after an option with a name, given without its two dashes. -/
def long (r : Reading) (c : Command) (body : List Char) : Except Stop Reading :=
  let name := String.ofList (body.takeWhile (· ≠ '='))
  match valueOption? c name, body.dropWhile (· ≠ '=') with
  | some o, _ :: value => r.setValue o (String.ofList value)
  | some o, [] => .ok { r with awaited := some o }
  | none, [] =>
    if name = "help" then .error .help
    else if name = "verbose" then r.setVerbose
    else .error .usage
  | none, _ => .error .usage

/-- The reading after one more argument. -/
def step (c : Command) (r : Reading) (arg : String) : Except Stop Reading :=
  if r.escaped then r.addWord c arg
  else match r.awaited with
    | some o => if isOption arg then .error .usage else r.setValue o arg
    | none =>
      match arg.toList with
      | ['-', '-'] => .ok { r with escaped := true }
      | '-' :: '-' :: body => r.long c body
      | '-' :: letter :: rest => r.short c (letter :: rest)
      | _ => r.addWord c arg

/-- The request that a complete reading makes. -/
def request (c : Command) (r : Reading) : Except Stop Request :=
  if r.awaited.isSome then .error .usage
  else match c, r.words with
    | .generate, words =>
      .ok (.generate (words.head?.getD defaultFile) r.outDir (r.format.getD .text))
    | .build, words => .ok (.build (words.head?.getD defaultFile) words.tail)
    | .deploy, words => .ok (.deploy (words.head?.getD defaultFile))
    | .rsync, src :: dst :: inputs => .ok (.rsync src dst inputs)
    | .rsync, _ => .error .usage

end Reading

/-- The line that the arguments of a command complete; `verbose` says that the flag was read
before it. -/
def commandLine (verbose : Bool) (c : Command) (args : List String) : Except Stop Line := do
  let r ← args.foldlM (Reading.step c) {}
  let request ← r.request c
  pure { verbose := verbose || r.verbose, request }

theorem commandLine_eq_ok_iff {verbose : Bool} {c : Command} {args : List String} {l : Line} :
    commandLine verbose c args = .ok l ↔ ∃ r, args.foldlM (Reading.step c) {} = .ok r
      ∧ r.request c = .ok l.request ∧ l.verbose = (verbose || r.verbose) := by
  unfold commandLine
  cases hfold : args.foldlM (Reading.step c) {} with
  | error e => exact ⟨nofun, fun ⟨_, h, _⟩ => nomatch h⟩
  | ok r =>
      change (r.request c >>= fun request => pure { verbose := verbose || r.verbose, request })
          = .ok l ↔ _
      cases hrequest : r.request c with
      | error e =>
          refine ⟨nofun, ?_⟩
          rintro ⟨r', ⟨⟩, hr', -⟩
          rw [hrequest] at hr'
          cases hr'
      | ok q =>
          constructor
          · rintro ⟨⟩
            exact ⟨r, rfl, hrequest, rfl⟩
          · rintro ⟨r', ⟨⟩, hr', hverbose⟩
            rw [hrequest] at hr'
            obtain rfl := Except.ok.inj hr'
            rw [← hverbose]
            rfl

/-! ## Reading a whole command line -/

/-- What the command that explains the others does; it explains one at a time. -/
def explain : List String → Stop
  | [] => .help
  | [name] => if name = helpName ∨ (Command.ofName? name).isSome then .help else .usage
  | _ => .usage

/-- The flag after options of one letter that are written together, before the command. -/
def rootShort (verbose : Bool) : List Char → Except Stop Bool
  | [] => .ok verbose
  | letter :: rest =>
    if letter = 'h' then .error .help
    else if letter = 'V' then .error .version
    else if letter = 'v' ∧ verbose = false then rootShort true rest
    else .error .usage

/-- What a command line says; `verbose` says that its flag was read. -/
def lineFrom (verbose : Bool) : List String → Except Stop Line
  | [] => .error .usage
  | arg :: rest =>
    if arg = "--help" then .error .help
    else if arg = "--version" then .error .version
    else if arg = "--verbose" then
      if verbose then .error .usage else lineFrom true rest
    else match arg.toList with
      | '-' :: '-' :: _ => .error .usage
      | '-' :: letter :: letters =>
        match rootShort verbose (letter :: letters) with
        | .ok verbose => lineFrom verbose rest
        | .error e => .error e
      | _ =>
        if arg = helpName then .error (explain rest)
        else match Command.ofName? arg with
          | some c => commandLine verbose c rest
          | none => .error .usage

/-- What a command line says. -/
def readLine (args : List String) : Except Stop Line := lineFrom false args

/-- The request that a command line makes. -/
def parse (args : List String) : Except Stop Request := (readLine args).map (·.request)

theorem parse_eq_ok_iff {args : List String} {q : Request} :
    parse args = .ok q ↔ ∃ verbose, readLine args = .ok { verbose, request := q } := by
  unfold parse
  cases readLine args with
  | error => simp [Except.map]
  | ok l => cases l; simp [Except.map]

example : (readLine ["-v", "genin", "-vo", "d", "--", "-x"]).toOption
    = some { verbose := true, request := .generate "-x" (some "d") .text } := by decide +kernel

example : (readLine ["build", "-v", "F"]).toOption
    = some { verbose := true, request := .build "F" [] } := by decide +kernel

example : (parse ["genin", "-o", "--help"]).toOption = none := by decide +kernel

end BuildGraph.CommandLine
