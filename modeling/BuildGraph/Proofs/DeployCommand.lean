import BuildGraph.Proofs.Bootstrapping
import BuildGraph.Proofs.EdgeCommand
import BuildGraph.Proofs.RsyncArguments
import BuildGraph.Proofs.RuleTable
import BuildGraph.Proofs.ShellReader

/-!
# The command of a deployment

The edge of a deployment holds its directories and its whitelist as quoted words, and the command
of its rule hands them back to the program.  On the way they are written as values of the build
file, read from there, put into the command, split by the shell, and read as arguments.

A quoted word is changed by the build file only: the ends of lines in it are gone, since a value
is one line (`Ninja.unfolded_quote`).  The shell reads the quotes back whatever they hold, so the
arguments are the two directories, each as one line, and the files of the whitelist, of which none
has two lines.  But the program takes an argument that starts with a dash for an option.  So it is
asked for this deployment with one exact condition (`Deployment.requests_iff`), which the quotes
cannot ensure.
-/

namespace BuildGraph

open Build

/-! ## Quoted words in values -/

namespace Ninja

theorem unfolded_eq_self_iff {s : String} : unfolded s = s ↔ '\n' ∉ s.toList := by
  rw [unfolded, ← unfold_eq_self_iff, ← String.toList_inj, String.toList_ofList]

/-- A character that is no space and ends no line stands between parts that are read apart. -/
theorem unfold_append_cons (skipping : Bool) (xs : List Char) {c : Char} (hspace : c ≠ ' ')
    (hline : c ≠ '\n') (ys : List Char) :
    unfold skipping (xs ++ c :: ys) = unfold skipping xs ++ c :: unfold false ys := by
  induction xs generalizing skipping with
  | nil => simp [unfold, hspace, hline]
  | cons x xs ih =>
      rw [List.cons_append, unfold, unfold]
      split
      · exact ih true
      · split
        · exact ih true
        · rw [ih, List.cons_append]

theorem unfold_escape (skipping : Bool) (cs : List Char) :
    unfold skipping (ShellWord.escape cs) = ShellWord.escape (unfold skipping cs) := by
  induction cs generalizing skipping with
  | nil => rfl
  | cons c cs ih =>
      by_cases hc : ShellWord.isSpecial c = true
      · have hspace : c ≠ ' ' := by
          rintro rfl
          cases hc
        have hline : c ≠ '\n' := by
          rintro rfl
          cases hc
        simp [ShellWord.escape, unfold, hc, hspace, hline, ih]
      · rw [ShellWord.escape, if_neg hc, unfold, unfold]
        split
        · exact ih true
        · split
          · exact ih true
          · rw [ih, ShellWord.escape, if_neg hc]

/-- What follows a quoted word is read apart from it. -/
theorem unfolded_quote_append (arg rest : String) :
    unfolded (ShellWord.quote arg ++ rest)
      = ShellWord.quote (unfolded arg) ++ unfolded rest := by
  have hquote : (ShellWord.quote arg ++ rest).toList
      = [] ++ '\x22' :: (ShellWord.escape arg.toList ++ '\x22' :: rest.toList) := by
    simp [ShellWord.quote]
  rw [unfolded, hquote, unfold_append_cons _ _ (by decide) (by decide),
    unfold_append_cons _ _ (by decide) (by decide), unfold_escape, ← String.toList_inj]
  simp [ShellWord.quote, unfolded, unfold]

theorem unfolded_quote (arg : String) :
    unfolded (ShellWord.quote arg) = ShellWord.quote (unfolded arg) := by
  have h := unfolded_quote_append arg ""
  rwa [String.append_empty, show unfolded "" = "" from rfl, String.append_empty] at h

theorem unfolded_blank (rest : String) : unfolded (" " ++ rest) = " " ++ unfolded rest := by
  rw [← String.toList_inj]
  simp [unfolded, unfold]

/-- Each word of a list is read back by itself. -/
theorem unfolded_quoteAll (args : List String) :
    unfolded (ShellWord.quoteAll args) = ShellWord.quoteAll (args.map unfolded) := by
  induction args with
  | nil => rfl
  | cons arg args ih =>
      cases args with
      | nil => exact unfolded_quote arg
      | cons next args =>
          simp only [ShellWord.quoteAll, List.map_cons, Text.join_cons_cons] at ih ⊢
          rw [String.append_assoc, unfolded_quote_append, unfolded_blank, ih, String.append_assoc]

theorem head?_quote (arg : String) : (ShellWord.quote arg).toList.head? ≠ some ' ' := by
  simp [ShellWord.quote]

theorem head?_quoteAll (args : List String) :
    (ShellWord.quoteAll args).toList.head? ≠ some ' ' := by
  cases args with
  | nil => decide
  | cons arg args =>
      cases args with
      | nil => exact head?_quote arg
      | cons next args => simp [ShellWord.quoteAll, Text.join_cons_cons, ShellWord.quote]

end Ninja

/-! ## Edges of deployments -/

namespace Deployment

open Deploy (Destination)

/-- The path of the config. -/
def configPath (t : Deployment) (values : KeywordValues) : String :=
  (Template.pathIn (.ofKeyword .currentInputDir) t.config).valueAt values

/-- The directory that is deployed. -/
def sourcePath (t : Deployment) (values : KeywordValues) : String :=
  (Template.pathIn (.ofKeyword .currentOutputDir) t.srcDir).valueAt values

/-- The destination in the config, or the one that is written there where nothing is. -/
def destination (t : Deployment) (s : Session) : Except Deploy.Config.Error Destination :=
  ((Destination.obtain (t.configPath s.keywords) t.dstDir.compose).run s).1

/-- The session in which the destination was looked for and the inputs were screened: missing names
of the config's path, and of the destination if it was needed, are recorded. -/
def screened (t : Deployment) (s : Session) : Session :=
  { s with
    errors := s.errors
      ++ ((Template.pathIn (.ofKeyword .currentInputDir) t.config).problemsAt s.keywords
        ++ if s.files.pathExists (t.configPath s.keywords) then []
          else t.dstDir.compose.problemsAt s.keywords)
    warnings := s.warnings ++ (t.inputs.filter isUnsupported).map .unnameableInput
    files := ((Destination.obtain (t.configPath s.keywords) t.dstDir.compose).run s).2.files }

/-- The run of a deployment.  A config that cannot be used is recorded after the inputs were
screened, and the directory is looked for only if there will be edges. -/
theorem run_edges (t : Deployment) (s : Session) :
    t.edges.run s = match t.destination s with
      | .error e => ([], (t.screened s).addError e.problem)
      | .ok destination =>
        if t.inputs.filter isUnsupported ≠ [] then ([], t.screened s)
        else
          let src := t.sourcePath s.keywords
          let timestamp := Path.withSuffix src timestampSuffix
          ([t.copyEdge (t.configPath s.keywords) destination.dst src timestamp,
            t.aliasEdge timestamp],
          (t.screened s).addErrors
            ((Template.pathIn (.ofKeyword .currentOutputDir) t.srcDir).problemsAt s.keywords)) := by
  have hconfig : (Template.pathIn (.ofKeyword .currentInputDir) t.config).run s
      = (t.configPath s.keywords, s.addErrors _) := (Template.composed_pathIn _ _).composes s
  have hobtain := Destination.run_obtain_addErrors (p := t.configPath s.keywords) (s := s)
    t.dstDir.composed_compose.composes
    ((Template.pathIn (.ofKeyword .currentInputDir) t.config).problemsAt s.keywords)
  change _ = (t.destination s, _) at hobtain
  unfold edges
  rw [run_bind, hconfig, run_bind, hobtain, screened]
  -- What is left of the files has no part in the rest of the run.
  generalize ((Destination.obtain (t.configPath s.keywords) t.dstDir.compose).run s).2.files = files
  cases t.destination s with
  | error e => rfl
  | ok destination =>
      rw [run_bind]
      simp only
      split
      · rfl
      · rw [run_bind, (Template.composed_pathIn _ _).composes]
        rfl

/-- Whatever becomes of a deployment, only errors are recorded after its inputs were screened. -/
theorem exists_snd_run_edges (t : Deployment) (s : Session) :
    ∃ ps, (t.edges.run s).2 = (t.screened s).addErrors ps := by
  rw [run_edges]
  split
  · exact ⟨_, rfl⟩
  · split
    · exact ⟨[], (Session.addErrors_nil _).symm⟩
    · exact ⟨_, rfl⟩

/-- A deployment leaves the files that obtaining its destination leaves. -/
theorem files_edges (t : Deployment) (s : Session) : (t.edges.run s).2.files
    = ((Destination.obtain (t.configPath s.keywords) t.dstDir.compose).run s).2.files := by
  obtain ⟨ps, hstate⟩ := t.exists_snd_run_edges s
  rw [hstate, Session.addErrors, screened]

/-- Where the config is missing and nothing else is, the config is all that is new. -/
theorem exists_run_edges_of_vacant {t : Deployment} {s : Session} {l : Location} {dst : String}
    (hdst : t.dstDir = .literal dst) (hinputs : t.inputs.filter isUnsupported = [])
    (hvacant : s.files.Vacant (t.configPath s.keywords) l false)
    (hshort : ¬Files.maxPath ≤ (s.files.draftPath
      (Path.directoryOf (t.configPath s.keywords))).utf8ByteSize)
    (hconfig : (Template.pathIn (.ofKeyword .currentInputDir) t.config).problemsAt s.keywords = [])
    (hsrc : (Template.pathIn (.ofKeyword .currentOutputDir) t.srcDir).problemsAt s.keywords
      = []) :
    ∃ edges, t.edges.run s
      = (edges, { s with files := s.files.insert l (Deploy.Config.entry dst) }) := by
  have hobtain : (Destination.obtain (t.configPath s.keywords) t.dstDir.compose).run s
      = (.ok (.written dst), { s with files := s.files.insert l (Deploy.Config.entry dst) }) := by
    rw [hdst, show (Template.literal dst).compose = pure dst from rfl,
      Destination.obtain_of_vacant hvacant, if_neg hshort]
    rfl
  have hscreened : t.screened s
      = { s with files := s.files.insert l (Deploy.Config.entry dst) } := by
    have hnone : t.dstDir.compose.problemsAt s.keywords = [] := by
      rw [hdst]
      rfl
    rw [screened, hobtain, hinputs, hconfig, hvacant.pathExists_eq_false, hnone]
    simp
  rw [run_edges, destination, hobtain]
  simp only [hinputs, ne_eq, not_true_eq_false, if_false, hscreened, hsrc, Session.addErrors_nil]
  exact ⟨_, rfl⟩

/-- The edges of a deployment that has a destination and whose inputs can be named. -/
theorem edges_eq (t : Deployment) (s : Session) :
    (t.edges.run s).1 = match t.destination s with
      | .error _ => []
      | .ok destination =>
        if t.inputs.filter isUnsupported ≠ [] then []
        else
          let src := t.sourcePath s.keywords
          let timestamp := Path.withSuffix src timestampSuffix
          [t.copyEdge (t.configPath s.keywords) destination.dst src timestamp,
            t.aliasEdge timestamp] := by
  rw [run_edges]
  cases t.destination s with
  | error e => rfl
  | ok destination => exact apply_ite Prod.fst _ _ _

/-- A deployment that has edges has a destination and inputs that can be named, and its first edge
deploys them. -/
theorem edges_eq_cons (t : Deployment) {s : Session} {sync : Edge} {rest : List Edge}
    (h : (t.edges.run s).1 = sync :: rest) : ∃ destination, t.destination s = .ok destination
      ∧ t.inputs.filter isUnsupported = []
      ∧ rest = [t.aliasEdge (Path.withSuffix (t.sourcePath s.keywords) timestampSuffix)]
      ∧ sync = t.copyEdge (t.configPath s.keywords) destination.dst (t.sourcePath s.keywords)
        (Path.withSuffix (t.sourcePath s.keywords) timestampSuffix) := by
  rw [t.edges_eq] at h
  cases hfound : t.destination s with
  | error _ =>
      rw [hfound] at h
      cases h
  | ok destination =>
      rw [hfound] at h
      simp only at h
      split at h
      · cases h
      · next hinputs =>
          obtain ⟨rfl, rfl⟩ := List.cons.inj h
          exact ⟨destination, rfl, Decidable.not_not.1 hinputs, rfl, rfl⟩

/-! ## The command -/

theorem entries_copyEdge (t : Deployment) (config dst src timestamp : String) :
    (t.copyEdge config dst src timestamp).vars.entries
      = [("dstDir", ShellWord.quote dst), ("inputs", ShellWord.quoteAll t.inputs),
        ("srcDir", ShellWord.quote src)] := rfl

theorem readVariables_copyEdge (t : Deployment) (config dst src timestamp : String) :
    Ninja.readVariables (Ninja.edgeText (t.copyEdge config dst src timestamp))
      = some [("dstDir", ShellWord.quote (Ninja.unfolded dst)),
        ("inputs", ShellWord.quoteAll (t.inputs.map Ninja.unfolded)),
        ("srcDir", ShellWord.quote (Ninja.unfolded src))] := by
  have hvars : ∀ v ∈ (t.copyEdge config dst src timestamp).vars.entries,
      Ninja.IsName v.1 ∧ v.2.toList.head? ≠ some ' ' := by
    rw [entries_copyEdge]
    simp only [List.forall_mem_cons]
    exact ⟨⟨by decide, Ninja.head?_quote _⟩, ⟨by decide, Ninja.head?_quoteAll _⟩,
      ⟨by decide, Ninja.head?_quote _⟩, by simp⟩
  have hrule : Ninja.IsName (t.copyEdge config dst src timestamp).rule := by
    change Ninja.IsName "rsync"
    decide
  rw [Ninja.readVariables_edgeText hrule hvars, entries_copyEdge]
  simp only [List.map_cons, List.map_nil, Ninja.unfolded_quote, Ninja.unfolded_quoteAll]

theorem commandLine_ruleAt {template : RuleTemplate}
    (htemplate : Target.Kind.rsync.builtin? = some template) (values : KeywordValues) :
    Ninja.commandLine ((template.ruleAt values).commands.take 1)
      = Keyword.ownCommand.textAt values ++ " rsync $srcDir $dstDir $inputs" := by
  obtain rfl := Option.some.inj htemplate
  rw [RuleTemplate.commands_ruleAt]
  simp [Ninja.commandLine, Text.join, Template.textAt_literal, String.append_assoc]

theorem expand_arguments (value : String → String) :
    Ninja.expand value .text " rsync $srcDir $dstDir $inputs".toList
      = some (" rsync " ++ value "srcDir" ++ " " ++ value "dstDir" ++ " "
        ++ value "inputs").toList := by
  simp [Ninja.expand, Ninja.isNameChar, Ninja.isEscapable]

/-- The command that is run for a deployment. -/
theorem firstCommand?_copyEdge (t : Deployment) (config dst src timestamp : String)
    {template : RuleTemplate} (htemplate : Target.Kind.rsync.builtin? = some template)
    {values : KeywordValues} (hown : '$' ∉ (Keyword.ownCommand.textAt values).toList) :
    Ninja.firstCommand? (template.ruleAt values) (t.copyEdge config dst src timestamp)
      = some (Keyword.ownCommand.textAt values ++ (" rsync "
        ++ ShellWord.quote (Ninja.unfolded src) ++ " " ++ ShellWord.quote (Ninja.unfolded dst)
        ++ " " ++ ShellWord.quoteAll (t.inputs.map Ninja.unfolded))) := by
  rw [Ninja.firstCommand?, readVariables_copyEdge, commandLine_ruleAt htemplate,
    Option.bind_eq_bind, Option.bind_some, String.toList_append, Ninja.expand_append hown,
    expand_arguments, Option.map_some, ← String.toList_append]
  simp only [Option.bind_eq_bind, Option.bind_some, String.ofList_toList]
  rfl

/-- The words of that command. -/
theorem words?_copyEdge {command : String} (hcommand : Shell.IsPlainWord command)
    (src dst : String) (inputs : List String) :
    Shell.words? (command ++ (" rsync " ++ ShellWord.quote src ++ " " ++ ShellWord.quote dst
        ++ " " ++ ShellWord.quoteAll inputs))
      = some (command :: "rsync" :: src :: dst :: inputs) := by
  have hrsync : Shell.ReadsAs "rsync" "rsync" := Shell.IsBareWord.readsAs (by decide)
  have hline : (command ++ (" rsync " ++ ShellWord.quote src ++ " " ++ ShellWord.quote dst
      ++ " " ++ ShellWord.quoteAll inputs)).toList
      = command.toList ++ ' ' :: ("rsync".toList ++ ' ' :: ((ShellWord.quote src).toList
        ++ ' ' :: ((ShellWord.quote dst).toList
          ++ ' ' :: (ShellWord.quoteAll inputs).toList))) := by
    simp
  rw [Shell.words?, Shell.tokens?, hline, hcommand.isBareWord.readsAs.read_blank, hrsync.read_blank,
    (Shell.readsAs_quote src).read_blank, (Shell.readsAs_quote dst).read_blank,
    Shell.read_quoteAll]
  exact Shell.mapM_word? (command :: "rsync" :: src :: dst :: inputs)

/-- A whitelist whose files can be named has one line a file. -/
theorem map_unfolded_of_filter {inputs : List String} (h : inputs.filter isUnsupported = []) :
    inputs.map Ninja.unfolded = inputs := by
  have hself : ∀ input ∈ inputs, Ninja.unfolded input = id input := by
    intro input hinput
    have hnameable := List.filter_eq_nil_iff.1 h input hinput
    simp only [isUnsupported, Bool.or_eq_true, not_or, List.contains_iff_mem] at hnameable
    exact Ninja.unfolded_eq_self_iff.2 hnameable.2
  rw [List.map_congr_left hself, List.map_id]

/-- Directories that are read back as they are make the request for a deployment between them if
nothing in it looks like an option. -/
theorem parse_unfolded_iff (src dst : String) (inputs : List String) :
    CommandLine.parse ("rsync" :: Ninja.unfolded src :: Ninja.unfolded dst :: inputs)
        = .ok (.rsync src dst inputs)
      ↔ ('\n' ∉ src.toList ∧ '\n' ∉ dst.toList) ∧ src ≠ ""
        ∧ ∀ a ∈ src :: dst :: inputs, CommandLine.isOption a = false := by
  rw [CommandLine.parse_rsync_iff rfl]
  simp only [List.cons.injEq, Ninja.unfolded_eq_self_iff, and_true]
  refine and_congr_right fun ⟨hsrc, hdst⟩ => ?_
  rw [Ninja.unfolded_eq_self_iff.2 hsrc, Ninja.unfolded_eq_self_iff.2 hdst]

/-- The command of a deployment asks for this deployment exactly if its directories have one line
each, the first is not empty, and neither they nor the files look like options. -/
theorem requests_iff {t : Deployment} {s : Session} {cwd file command : String} {tools : Toolset}
    {template : RuleTemplate} {sync : Edge} {rest : List Edge}
    (hkeywords : s.keywords = Session.invocationKeywords cwd file command tools)
    (hcommand : Shell.IsPlainWord command)
    (htemplate : Target.Kind.rsync.builtin? = some template)
    (hedges : (t.edges.run s).1 = sync :: rest) :
    ∃ destination, t.destination s = .ok destination
      ∧ let src := t.sourcePath s.keywords
        let dst := destination.dst
        let args := "rsync" :: Ninja.unfolded src :: Ninja.unfolded dst :: t.inputs
        (Ninja.firstCommand? (template.ruleAt s.keywords) sync).bind Shell.words?
            = some (command :: args)
          ∧ (CommandLine.parse args = .ok (.rsync src dst t.inputs)
            ↔ ('\n' ∉ src.toList ∧ '\n' ∉ dst.toList) ∧ src ≠ ""
              ∧ ∀ a ∈ src :: dst :: t.inputs, CommandLine.isOption a = false) := by
  obtain ⟨destination, hfound, hinputs, -, rfl⟩ := t.edges_eq_cons hedges
  refine ⟨destination, hfound, ?_⟩
  intro src dst args
  have hown : Keyword.ownCommand.textAt s.keywords = command := by
    rw [hkeywords]
    rfl
  have hdollar : '$' ∉ command.toList := fun h => by
    cases hcommand.2 '$' h
  have hunfolded := map_unfolded_of_filter hinputs
  constructor
  · rw [firstCommand?_copyEdge _ _ _ _ _ htemplate (by rwa [hown]), Option.bind_some, hown,
      words?_copyEdge hcommand, hunfolded]
  · exact parse_unfolded_iff src dst t.inputs

/-- A file whose name is two dashes is taken for the sign that options end, so the program is asked
for a deployment without it. -/
theorem requests_iff_of_dashes :
    let t : Deployment := {
      name := "deploy"
      inputs := ["--", "a"]
      srcDir := .literal "pub"
      config := .literal "config"
      dstDir := .literal "host:/srv" }
    let s := Session.ofInvocation "/" "HAGA.lua" "haga" {} {}
    ∃ template sync rest, Shell.IsPlainWord "haga"
      ∧ Target.Kind.rsync.builtin? = some template
      ∧ (t.edges.run s).1 = sync :: rest
      ∧ (Ninja.firstCommand? (template.ruleAt s.keywords) sync).bind Shell.words?
          = some ["haga", "rsync", "/out/pub", "host:/srv", "--", "a"]
      ∧ CommandLine.parse ["rsync", "/out/pub", "host:/srv", "--", "a"]
          ≠ .ok (.rsync "/out/pub" "host:/srv" ["--", "a"])
      ∧ (CommandLine.parse ["rsync", "/out/pub", "host:/srv", "--", "a"]).toOption
          = some (.rsync "/out/pub" "host:/srv" ["a"]) := by
  intro t s
  have hconfig : t.configPath s.keywords = "/config" := by decide +kernel
  have hsrc : t.sourcePath s.keywords = "/out/pub" := by decide +kernel
  have hpieces : Path.pieces "/config" = [""] ++ ["config"] := by decide +kernel
  have hvacant : s.files.Vacant "/config" ["config"] false :=
    Files.vacant_of_pieces rfl hpieces (by decide) (by decide) (by decide +kernel) rfl rfl
  have hshort : ¬Files.maxPath
      ≤ (s.files.draftPath (Path.directoryOf "/config")).utf8ByteSize := by decide +kernel
  have hfound : t.destination s = .ok (.written "host:/srv") := by
    rw [destination, hconfig, show t.dstDir.compose = pure "host:/srv" from rfl,
      Destination.obtain_of_vacant hvacant, if_neg hshort]
    rfl
  obtain ⟨sync, rest, hedges⟩ : ∃ sync rest, (t.edges.run s).1 = sync :: rest := by
    rw [edges_eq, hfound]
    exact ⟨_, _, rfl⟩
  have hcommand : Shell.IsPlainWord "haga" := by decide
  obtain ⟨destination, hdestination, hwords, hparse⟩ :=
    requests_iff (s := s) rfl hcommand rfl hedges
  obtain rfl := Except.ok.inj (hfound.symm.trans hdestination)
  have hsrc' : Ninja.unfolded "/out/pub" = "/out/pub" := by decide
  have hdst' : Ninja.unfolded "host:/srv" = "host:/srv" := by decide
  rw [hsrc, show Destination.dst (.written "host:/srv") = "host:/srv" from rfl, hsrc', hdst']
    at hwords hparse
  refine ⟨_, sync, rest, hcommand, rfl, hedges, hwords, fun hsame => ?_, by decide +kernel⟩
  obtain ⟨-, -, hplain⟩ := hparse.1 hsame
  exact absurd (hplain "--" (by decide)) (by decide)

end Deployment

end BuildGraph
