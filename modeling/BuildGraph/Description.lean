import BuildGraph.Composition
import BuildGraph.Graph

/-!
# Descriptions

A description is what a user writes: rules of its own, and targets of ten kinds.  The texts of its
rules are templates, which are composed when a rule is registered; the paths and arguments of its
targets are templates too, and only the whitelist and the name of a deployment are plain texts.
-/

namespace BuildGraph

/-! ## Rules -/

/-- A rule whose texts are templates. -/
structure RuleTemplate where
  name : String
  commands : List (List Template)
  description : Option Template := none
  generator : Bool := false
  restat : Bool := false
  deriving DecidableEq, Repr, Inhabited

namespace RuleTemplate

/-- The rule with its texts composed, commands first. -/
def compose (r : RuleTemplate) : Build Rule := do
  let commands ← Template.composeRows r.commands
  let description ← Template.composeOption r.description
  pure { name := r.name, commands, description, generator := r.generator, restat := r.restat }

/-- Registers the composed rule; a conflict is recorded as an error. -/
def register (r : RuleTemplate) : Build Unit := do
  let rule ← r.compose
  modify (·.register rule)

end RuleTemplate

/-! ## Targets -/

/-- One template of the preprocessor. -/
structure Preprocessing where
  input : Template
  /-- The input without its suffix `.in`, unless given. -/
  output : Option Template := none
  implicits : List Template := []
  defines : List Template := []
  deriving DecidableEq, Repr, Inhabited

/-- Many templates of the preprocessor that share their directories. -/
structure PreprocessingBatch where
  inputs : List Template
  inputDir : Option Template := none
  outputDir : Option Template := none
  implicits : List Template := []
  defines : List Template := []
  deriving DecidableEq, Repr, Inhabited

/-- Files that keep their paths on the way from one directory to another. -/
structure FileBatch where
  inputs : List Template
  inputDir : Option Template := none
  outputDir : Option Template := none
  deriving DecidableEq, Repr, Inhabited

/-- One image made from another. -/
structure Conversion where
  input : Template
  output : Template
  /-- Further arguments of the converting program. -/
  args : List Template := []
  deriving DecidableEq, Repr, Inhabited

/-- Many files packed into one archive. -/
structure Archive where
  inputs : List Template
  inputDir : Option Template := none
  output : Template
  deriving DecidableEq, Repr, Inhabited

/-- The build file made again when the description changes. -/
structure Regeneration where
  inputs : Option (List Template) := none
  outputs : Option (List Template) := none
  implicits : Option (List Template) := none
  deriving DecidableEq, Repr, Inhabited

/-- A directory of outputs deployed to a destination. -/
structure Deployment where
  /-- The alias that is built to deploy. -/
  name : String
  /-- The complete whitelist, relative to `srcDir`. -/
  inputs : List String
  srcDir : Template
  /-- The file that holds the destination. -/
  config : Template
  /-- The destination that a new config gets. -/
  dstDir : Template
  deriving DecidableEq, Repr, Inhabited

/-- A target of a description. -/
inductive Target where
  | cpp (t : Preprocessing)
  | cpps (t : PreprocessingBatch)
  | copy (t : FileBatch)
  | magick (t : Conversion)
  | rsvgConvert (t : Conversion)
  | minify (t : FileBatch)
  | zip (t : Archive)
  | regen (t : Regeneration)
  | rsync (t : Deployment)
  /-- An edge taken as it is. -/
  | core (e : Edge)
  deriving DecidableEq, Inhabited

/-- The kind of a target. -/
inductive Target.Kind where
  | cpp
  | cpps
  | copy
  | magick
  | rsvgConvert
  | minify
  | zip
  | regen
  | rsync
  | core
  deriving DecidableEq, Repr, Inhabited

namespace Target.Kind

/-- Every kind. -/
def all : List Kind :=
  [.cpp, .cpps, .copy, .magick, .rsvgConvert, .minify, .zip, .regen, .rsync, .core]

/-- The spelling of a kind in descriptions. -/
def name : Kind → String
  | .cpp => "cpp"
  | .cpps => "cpps"
  | .copy => "copy"
  | .magick => "magick"
  | .rsvgConvert => "rsvg-convert"
  | .minify => "minify"
  | .zip => "zip"
  | .regen => "regen"
  | .rsync => "rsync"
  | .core => "core"

/-- The kind with a given spelling. -/
def ofName? (s : String) : Option Kind := all.find? (·.name == s)

@[simp] theorem ofName?_name (k : Kind) : ofName? k.name = some k := by
  cases k <;> decide

/-- The rule that edges of a kind use; both kinds of preprocessing share one. -/
def rule? : Kind → Option String
  | .cpps => some "cpp"
  | .core => none
  | k => some k.name

end Target.Kind

/-- The kind of a target. -/
def Target.kind : Target → Target.Kind
  | .cpp _ => .cpp
  | .cpps _ => .cpps
  | .copy _ => .copy
  | .magick _ => .magick
  | .rsvgConvert _ => .rsvgConvert
  | .minify _ => .minify
  | .zip _ => .zip
  | .regen _ => .regen
  | .rsync _ => .rsync
  | .core _ => .core

/-! ## Descriptions -/

/-- A whole description. -/
structure Description where
  rules : List RuleTemplate := []
  targets : List Target := []
  deriving DecidableEq, Inhabited

end BuildGraph
