import BuildGraph.Keyword

/-!
# Templates

The texts of a description are templates: a text taken as it is, or a list of fragments whose
keywords get their values when the template is composed.  A name that is no keyword is kept, so
that it can be reported where it is used.
-/

namespace BuildGraph

/-- A part of a composed template. -/
inductive Fragment where
  | literal (text : String)
  | keyword (k : Keyword)
  /-- A name outside the set of keywords. -/
  | unknown (name : String)
  deriving DecidableEq, Repr, Inhabited

/-- The fragment that a marker of this name stands for. -/
def Fragment.ofName (name : String) : Fragment :=
  match Keyword.ofName? name with
  | some k => .keyword k
  | none => .unknown name

/-- A text of a description. -/
inductive Template where
  /-- A text taken as it is. -/
  | literal (text : String)
  /-- The fragments one after the other. -/
  | composed (fragments : List Fragment)
  deriving DecidableEq, Repr

namespace Template

/-- The template of a single keyword. -/
def ofKeyword (k : Keyword) : Template := .composed [.keyword k]

/-- A text below the value of a keyword. -/
def below (k : Keyword) (text : String) : Template := .composed [.keyword k, .literal text]

/-- The empty text. -/
def empty : Template := .literal ""

instance : Inhabited Template := ⟨empty⟩

/-- The fragments of a template, a plain text being one. -/
def fragments : Template → List Fragment
  | .literal text => [.literal text]
  | .composed fs => fs

end Template

end BuildGraph
