import BuildGraph.Session
import BuildGraph.Template

/-!
# Composition

Composing a template puts the values of its keywords in their places.  A keyword without a value,
like a name that is no keyword, gives the empty text and records one error, so that one run shows
every such name.  Paths are composed before they are joined, the base before the names.  Arguments
are composed for a shell: each between double quotes, with a backslash before every character that
is special there.
-/

namespace BuildGraph

/-! ## Shell words -/

namespace ShellWord

/-- Characters that double quotes do not protect. -/
def isSpecial (c : Char) : Bool := c = '\x22' ∨ c = '\\' ∨ c = '$' ∨ c = '\x60'

/-- The characters of an argument between double quotes. -/
def escape : List Char → List Char
  | [] => []
  | c :: cs => if isSpecial c then '\\' :: c :: escape cs else c :: escape cs

/-- An argument as one word of a shell. -/
def quote (arg : String) : String :=
  String.ofList ('\x22' :: escape arg.toList ++ ['\x22'])

/-- Arguments as words of a shell. -/
def quoteAll (args : List String) : String := Text.join " " (args.map quote)

example : quote "a b$c" = "\"a b\\$c\"" := by decide +kernel

end ShellWord

/-! ## Keywords -/

/-- Records a name that has no value, and gives the empty text. -/
def Build.reportMissing (name : String) : Build String := do
  modify (·.addError (.missingKeyword name))
  pure ""

namespace Keyword

/-- The value of a keyword, or an error and the empty text. -/
def value (k : Keyword) : Build String := do
  match (← get).keywords k with
  | some value => pure value
  | none => Build.reportMissing k.name

/-- The path of `name` in the directory that a keyword stands for. -/
def pathOf (k : Keyword) (name : String) : Build String := do
  let base ← k.value
  pure (Path.join base name)

end Keyword

/-! ## Templates -/

namespace Fragment

/-- The text of a fragment. -/
def compose : Fragment → Build String
  | .literal text => pure text
  | .keyword k => k.value
  | .unknown name => Build.reportMissing name

/-- The texts of fragments one after the other. -/
def composeAll : List Fragment → Build String
  | [] => pure ""
  | f :: fs => do
    let text ← f.compose
    let rest ← composeAll fs
    pure (text ++ rest)

end Fragment

namespace Template

/-- The text of a template. -/
def compose : Template → Build String
  | .literal text => pure text
  | .composed fs => Fragment.composeAll fs

/-- The texts of templates, in order. -/
def composeAll : List Template → Build (List String) := Build.each compose

/-- The text of a template that may be absent. -/
def composeOption : Option Template → Build (Option String)
  | none => pure none
  | some t => do
    let text ← t.compose
    pure (some text)

/-- The texts of templates as words of a shell. -/
def composeWords (words : List Template) : Build String := do
  let texts ← composeAll words
  pure (ShellWord.quoteAll texts)

/-- The texts of rows of templates, none of them quoted. -/
def composeRows : List (List Template) → Build (List (List String)) := Build.each composeAll

/-! ## Paths -/

/-- The path of a composed name in a composed directory. -/
def pathIn (base name : Template) : Build String := do
  let base ← base.compose
  let name ← name.compose
  pure (Path.join base name)

/-- The paths of composed names in one composed directory. -/
def pathsIn (base : Template) (names : List Template) : Build (List String) := do
  let base ← base.compose
  let names ← composeAll names
  pure (names.map (Path.join base))

/-- The normal form of a composed path with text added to its last component. -/
def pathWithSuffix (path : Template) (suffix : String) : Build String := do
  let path ← path.compose
  pure (Path.withSuffix path suffix)

end Template

end BuildGraph
