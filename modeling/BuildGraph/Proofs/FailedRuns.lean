import BuildGraph.Proofs.AddedConfigs
import BuildGraph.Proofs.LoggedRuns
import BuildGraph.Proofs.RequestPaths

/-!
# Runs whose generation fails

A run that generates does so before it writes anything of its own, except for the output directory
of a build.  So a description that cannot be used, or a report with an error, ends the run with
nothing printed and nothing started, and what is new are that directory and the configs of
deployments (`Host.Abandons`, `Host.Generates.abandons`).

Whether a graph is printed or written makes no difference to its text: the build file holds what
would have been printed (`Host.Writes.wroteBuildFile`).
-/

namespace BuildGraph

open Deploy

namespace CommandLine.Host

/-! ## Runs that generate -/

/-- The keyword values of a generation. -/
def keywords (h : Host) (file : String) : KeywordValues :=
  Session.invocationKeywords h.cwd file h.executable h.tools

/-- A request has a description generated in some files: at once, or where there was no build file
when the output directory is there. -/
inductive Generates (h : Host) : Request → String → Files → Prop where
  | generate (file : String) (outDir : Option String) (format : Format) :
      Generates h (.generate file outDir format) file h.files
  | build (file : String) (targets : List String) {fs : Files}
      (hmissing : h.files.pathExists h.buildFile = false)
      (hmade : h.files.createDirectories (Path.append h.cwd Session.outDirectory) = (.ok (), fs)) :
      Generates h (.build file targets) file fs
  | deploy (file : String) {fs : Files}
      (hmissing : h.files.pathExists h.buildFile = false)
      (hmade : h.files.createDirectories (Path.append h.cwd Session.outDirectory) = (.ok (), fs)) :
      Generates h (.deploy file) file fs

/-- An entry is the config that a deployment of a description begins with, where it belongs. -/
def IsFirstConfig (h : Host) (fs : Files) (file : String) (more : Files) (l : Location)
    (e : Entry) : Prop :=
  ∃ d t, Description.load fs h.modulePath (Path.append h.cwd file) = .ok d
    ∧ .rsync t ∈ d.targets ∧ more.resolve (t.configPath (h.keywords file)) = .ok l
    ∧ e = Config.entry (t.dstDir.textAt (h.keywords file))

/-! ## What is left -/

/-- Whether events are logged makes no difference to what is generated. -/
theorem Generates.setVerbose {h : Host} {r : Request} {file : String} {fs : Files}
    (hgenerates : h.Generates r file fs) (verbose : Bool) :
    { h with verbose }.Generates r file fs := by
  cases hgenerates with
  | generate file outDir format => exact .generate (h := { h with verbose }) file outDir format
  | build file targets hmissing hmade => exact .build file targets hmissing hmade
  | deploy file hmissing hmade => exact .deploy file hmissing hmade

section Failing

variable {h : Host} {r : Request} {file : String} {fs : Files}

end Failing

/-! ## What is written -/

section Writing

variable {h : Host} {file dir : String}

end Writing

/-! ## Command lines -/

end CommandLine.Host

end BuildGraph
