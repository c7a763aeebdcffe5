import BuildGraph.CommandLine.Run

/-!
# Sources

The files that a run may read, as far as the files that are known already tell: the description,
the modules that a known file could require, the build file, and the configs of the deployments
that are described.  Who reads files one by one asks again until nothing new is named.
-/

namespace BuildGraph.CommandLine

/-- The texts that a description holds. -/
def textsOf (content : ByteArray) : List ByteArray :=
  (Script.Token.ofChars (Script.moduleBody content)).filterMap fun
    | .text bytes => some ⟨bytes.toArray⟩
    | _ => none

/-- Where the modules may lie that an entry could require. -/
def moduleSources (modulePath : String) : Entry → List String
  | .file content _ => (textsOf content).flatMap (Script.modulePaths modulePath)
  | _ => []

/-- The configs of the deployments that a generation met. -/
def configSources (g : Generated) : List String :=
  g.graph.edges.flatMap (·.regenImplicits) ++ g.report.errors.filterMap fun
    | .unusableConfig _ path _ => some path
    | _ => none

namespace Host

/-- The files that a generation from a description may read. -/
def generationSources (h : Host) (file : String) : List String :=
  let configs := match Generated.ofFile h.files h.modulePath h.cwd file h.executable h.tools with
    | .ok g => configSources g
    | .error _ => []
  Path.append h.cwd file :: h.files.entries.flatMap (fun e => moduleSources h.modulePath e.2) ++ configs

/-- The files that a run may read.  A deployment reads a directory as a whole, which has no list
here, so it finds none and is refused. -/
def sources (h : Host) : Request → List String
  | .generate file _ _ => h.generationSources file
  | .build file _ => h.buildFile :: h.generationSources file
  | .deploy file => h.buildFile :: h.generationSources file
  | .rsync _ _ _ => []

/-- The sources that are not known yet. -/
def missing (h : Host) (r : Request) : List String :=
  (h.sources r).filter fun path => !h.files.pathExists path

end Host

end BuildGraph.CommandLine
