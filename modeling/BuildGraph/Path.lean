import BuildGraph.Text

/-!
# Lexical paths

Paths are texts.  They are read as a list of components (`components`), joined as texts
(`append`), and brought to a normal form without looking at any file (`normal`): `.` vanishes
and `..` takes away the component before it.  At the root of an absolute path `..` has no effect;
at the start of a relative one it is kept, and a `..` that was kept is taken away by the next.
-/

namespace BuildGraph.Path

/-! ## Components -/

/-- One step of a path. -/
inductive Component where
  /-- The leading slash of an absolute path. -/
  | root
  /-- A leading `.` of a relative path; elsewhere `.` is no component. -/
  | here
  /-- The component `..`. -/
  | up
  /-- A name. -/
  | name (s : String)
  deriving DecidableEq, Repr, Inhabited

/-- The texts between slashes. -/
def pieces (p : String) : List String := (Text.cut '/' p.toList).map String.ofList

/-- Whether a path starts at the root. -/
def isAbsolute (p : String) : Bool := p.toList.head? == some '/'

/-- The component that a piece stands for; empty pieces and `.` stand for none. -/
def ofPiece? (piece : String) : Option Component :=
  if piece = "" ∨ piece = "." then none
  else if piece = ".." then some .up
  else some (.name piece)

/-- The components of a path. -/
def components (p : String) : List Component :=
  let rest := (pieces p).filterMap ofPiece?
  if isAbsolute p then .root :: rest
  else if (pieces p).head? = some "." then .here :: rest
  else rest

/-- The text of a component. -/
def Component.text : Component → String
  | .root => ""
  | .here => "."
  | .up => ".."
  | .name s => s

/-- The text of a list of components. -/
def ofComponents : List Component → String
  | [.root] => "/"
  | cs => Text.join "/" (cs.map Component.text)

/-! ## Normal form -/

/-- The names so far after one more component. -/
def step (absolute : Bool) (names : List String) : Component → List String
  | .root => names
  | .here => names
  | .up => if names = [] then (if absolute then [] else [".."]) else names.dropLast
  | .name s => names ++ [s]

/-- The names that remain of a list of components. -/
def reduce (absolute : Bool) (cs : List Component) : List String :=
  cs.foldl (step absolute) []

/-- The text of a path in normal form. -/
def render (absolute : Bool) (names : List String) : String :=
  (if absolute then "/" else "") ++ Text.join "/" names

/-- The names of a path in normal form. -/
def normalNames (p : String) : List String := reduce (isAbsolute p) (components p)

/-- A path without `.`, without doubled or trailing slashes, and with each `..` carried out. -/
def normal (p : String) : String := render (isAbsolute p) (normalNames p)

/-! ## Joining -/

/-- `name` read from the directory `base`; an absolute `name` replaces `base`. -/
def append (base name : String) : String :=
  if isAbsolute name then name
  else if base = "" ∨ Text.endsWith base '/' then base ++ name
  else base ++ "/" ++ name

/-- `append` in normal form. -/
def join (base name : String) : String := normal (append base name)

/-! ## Parents and prefixes -/

/-- Whether a piece that is not the first of a path stands for no component. -/
def isIdle (piece : String) : Bool := piece = "" ∨ piece = "."

/-- The pieces without the last component and all that stands for none around it. -/
def dropLastComponent (rest : List String) : List String :=
  (((rest.reverse.dropWhile isIdle).drop 1).dropWhile isIdle).reverse

/-- The path without its last component, as far as it goes a part of the text as it is; the root
and the empty path have none. -/
def parent? (p : String) : Option String :=
  match pieces p with
  | [] => none
  | head :: rest =>
    if rest.all isIdle then
      if head = "" then none else some ""
    else match head, dropLastComponent rest with
      | "", [] => some "/"
      | head, rest => some (Text.join "/" (head :: rest))

/-- The directory in which a file of this path lies, `.` if the path names none. -/
def directoryOf (p : String) : String :=
  match parent? p with
  | none => "."
  | some "" => "."
  | some dir => dir

/-- What follows `base` in a list that starts with it. -/
def dropPrefix? {α : Type} [DecidableEq α] : (base : List α) → List α → Option (List α)
  | [], rest => some rest
  | _ :: _, [] => none
  | b :: bs, c :: cs => if b = c then dropPrefix? bs cs else none

theorem dropPrefix?_eq_some_iff {α : Type} [DecidableEq α] {base whole rest : List α} :
    dropPrefix? base whole = some rest ↔ whole = base ++ rest := by
  induction base generalizing whole with
  | nil => simp [dropPrefix?, eq_comm]
  | cons b bs ih =>
      cases whole with
      | nil => simp [dropPrefix?]
      | cons c cs =>
          by_cases h : b = c
          · simp [dropPrefix?, h, ih]
          · simp [dropPrefix?, h, Ne.symm h]

/-- The path below `base`, component by component; `none` if `p` does not lie there. -/
def below? (base p : String) : Option String :=
  (dropPrefix? (components base) (components p)).map ofComponents

/-- The normal form of a path with text added to its last component. -/
def withSuffix (p suffix : String) : String := normal p ++ suffix

/-! ## Examples -/

example : normal "/a/../../b/./c//" = "/b/c" := by decide +kernel

example : normal "../../x" = "x" := by decide +kernel

example : join "/site" "../up" = "/up" := by decide +kernel

example : parent? "a//./b/./c/." = some "a//./b" := by decide +kernel

example : parent? "//c" = some "/" ∧ parent? "./c" = some "." ∧ parent? "/." = none := by
  decide +kernel

end BuildGraph.Path
