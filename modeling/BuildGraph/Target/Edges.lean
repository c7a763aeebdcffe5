import BuildGraph.Deploy.Destination
import BuildGraph.Graph
import BuildGraph.Ninja.BuildFile
import BuildGraph.Target.Builtin

/-!
# Edges of targets

Each kind of target says where its inputs are read, where its outputs go, and which variables its
rule sees.  A target always has its edges: what is wrong with it is recorded in the session, and a
deployment that cannot be carried out has none.
-/

namespace BuildGraph

/-! ## Preprocessing -/

namespace Preprocessing

/-- Suffix of inputs that their outputs lack. -/
def inputSuffix : String := ".in"

/-- Suffix of the file that lists what was read for an output. -/
def dependencySuffix : String := ".d"

/-- The edge with the definitions that its rule sees; without definitions no variable is set. -/
def withDefines (edge : Edge) (defines : List Template) : Build Edge := do
  if defines = [] then pure edge
  else
    let texts ← Template.composeAll defines
    pure (edge.bind "defines" (ShellWord.quoteAll (texts.map ("-D" ++ ·))))

/-- The output, which the composed input gives unless there is one of its own. -/
def outputFor (t : Preprocessing) (input : String) : Build String :=
  match t.output with
  | some output => output.compose
  | none => pure (Text.withoutSuffix input inputSuffix)

/-- The edge without its definitions. -/
def plainEdge (input output : String) (implicits : List String) : Edge :=
  let edge : Edge := {
    inputs := [input]
    outputs := [output, output ++ dependencySuffix]
    implicits
    rule := Target.Kind.cpp.name }
  (edge.bind "outfile" output).bind "depfile" (output ++ dependencySuffix)

/-- The edge of one preprocessed file. -/
def edge (t : Preprocessing) : Build Edge := do
  let input ← t.input.compose
  let output ← t.outputFor input
  let inputPath ← Keyword.currentInputDir.pathOf input
  let outputPath ← Keyword.currentOutputDir.pathOf output
  let implicits ← Template.pathsIn (.ofKeyword .inputDir) t.implicits
  withDefines (plainEdge inputPath outputPath implicits) t.defines

end Preprocessing

namespace PreprocessingBatch

/-- The target of one input of the batch, in directories that were composed. -/
def single (t : PreprocessingBatch) (inputDir outputDir name : String) : Preprocessing where
  input := .literal (Path.join inputDir name)
  output := some (.literal
    (Path.join outputDir (Text.withoutSuffix name Preprocessing.inputSuffix)))
  implicits := t.implicits
  defines := t.defines

/-- The edges of a batch of preprocessed files. -/
def edges (t : PreprocessingBatch) : Build (List Edge) := do
  let inputDir ← (t.inputDir.getD (.ofKeyword .currentInputDir)).compose
  let outputDir ← (t.outputDir.getD (.ofKeyword .currentOutputDir)).compose
  Build.each (fun input => do
    let name ← input.compose
    (t.single inputDir outputDir name).edge) t.inputs

end PreprocessingBatch

/-! ## Files -/

namespace FileBatch

/-- One edge for each file, which keeps its path on the way from one directory to the other. -/
def edges (t : FileBatch) (kind : Target.Kind) : Build (List Edge) := do
  let outDir ← Template.pathIn (.ofKeyword .currentOutputDir) (t.outputDir.getD .empty)
  let inDir ← Template.pathIn (.ofKeyword .currentInputDir) (t.inputDir.getD .empty)
  Build.each (fun input => do
    let name ← input.compose
    pure {
      inputs := [Path.join inDir name]
      outputs := [Path.join outDir name]
      rule := kind.name }) t.inputs

/-- The edges of files to be minified; all wait for the script. -/
def minifiedEdges (t : FileBatch) : Build (List Edge) := do
  let edges ← t.edges .minify
  let script ← Target.Kind.minifier.compose
  pure (edges.map fun e => { e with implicits := e.implicits ++ [script] })

end FileBatch

/-- The edge of an image to be converted. -/
def Conversion.edge (t : Conversion) (kind : Target.Kind) : Build Edge := do
  let input ← Template.pathIn (.ofKeyword .currentInputDir) t.input
  let output ← Template.pathIn (.ofKeyword .currentOutputDir) t.output
  let args ← Template.composeWords t.args
  let edge : Edge := { inputs := [input], outputs := [output], rule := kind.name }
  pure (edge.bind "args" args)

/-- The edge of an archive; it waits for the script. -/
def Archive.edge (t : Archive) : Build Edge := do
  let inDir ← Template.pathIn (.ofKeyword .currentInputDir) (t.inputDir.getD .empty)
  let names ← Template.composeAll t.inputs
  let output ← Template.pathIn (.ofKeyword .currentOutputDir) t.output
  let script ← Target.Kind.archiver.compose
  let edge : Edge := {
    inputs := names.map (Path.join inDir)
    outputs := [output]
    implicits := [script]
    rule := Target.Kind.zip.name }
  pure (edge.bind "indir" inDir)

/-! ## Regeneration -/

namespace Regeneration

/-- The build files that are made again. -/
def outputPaths (t : Regeneration) : Build (List String) :=
  match t.outputs with
  | some outputs => Template.pathsIn (.ofKeyword .currentOutputDir) outputs
  | none => do
    let output ← Keyword.outputDir.pathOf Ninja.buildFileName
    pure [output]

/-- The edge that makes the build file again. -/
def edge (t : Regeneration) : Build Edge := do
  let inputs ← Template.pathsIn (.ofKeyword .currentInputDir)
    (t.inputs.getD [.ofKeyword .descriptionFile])
  let outputs ← t.outputPaths
  let implicits ← Template.pathsIn (.ofKeyword .currentInputDir)
    (t.implicits.getD [.ofKeyword .ownCommand])
  pure { inputs, outputs, implicits, rule := Target.Kind.regen.name }

end Regeneration

/-! ## Deployment -/

namespace Deployment

/-- Suffix of the file that says when the deployment was last carried out. -/
def timestampSuffix : String := ".timestamp"

/-- Whether a whitelisted file cannot be named in the deployment command. -/
def isUnsupported (input : String) : Bool :=
  input.toList.contains ' ' || input.toList.contains '\n'

/-- The edge that deploys a directory. -/
def copyEdge (t : Deployment) (config dst src timestamp : String) : Edge :=
  let edge : Edge := {
    inputs := t.inputs.map (Path.join src)
    outputs := [timestamp]
    regenImplicits := [config]
    rule := Target.Kind.rsync.name
    all := false }
  let edge := edge.bind "srcDir" (ShellWord.quote src)
  let edge := edge.bind "dstDir" (ShellWord.quote dst)
  edge.bind "inputs" (ShellWord.quoteAll t.inputs)

/-- The alias by which the deployment is asked for. -/
def aliasEdge (t : Deployment) (timestamp : String) : Edge where
  inputs := [timestamp]
  outputs := [t.name]
  rule := Rule.aliasName
  all := false

/-- The edges of a deployment: two, or none if the config or an input cannot be used. -/
def edges (t : Deployment) : Build (List Edge) := do
  let config ← Template.pathIn (.ofKeyword .currentInputDir) t.config
  let destination ← Deploy.Destination.obtain config t.dstDir.compose
  let unsupported := t.inputs.filter isUnsupported
  modify (·.addWarnings (unsupported.map .unnameableInput))
  match destination with
  | .error e =>
    modify (·.addError e.problem)
    pure []
  | .ok destination =>
    if unsupported ≠ [] then pure []
    else
      let src ← Template.pathIn (.ofKeyword .currentOutputDir) t.srcDir
      let timestamp ← Template.pathWithSuffix (.literal src) timestampSuffix
      pure [t.copyEdge config destination.dst src timestamp, t.aliasEdge timestamp]

end Deployment

/-! ## Targets -/

/-- The edges of a target. -/
def Target.edges : Target → Build (List Edge)
  | .cpp t => do
    let edge ← t.edge
    pure [edge]
  | .cpps t => t.edges
  | .copy t => t.edges .copy
  | .magick t => do
    let edge ← t.edge .magick
    pure [edge]
  | .rsvgConvert t => do
    let edge ← t.edge .rsvgConvert
    pure [edge]
  | .minify t => t.minifiedEdges
  | .zip t => do
    let edge ← t.edge
    pure [edge]
  | .regen t => do
    let edge ← t.edge
    pure [edge]
  | .rsync t => t.edges
  | .core e => pure [e]

theorem Target.edges_rsync (t : Deployment) : Target.edges (.rsync t) = t.edges := rfl

end BuildGraph
