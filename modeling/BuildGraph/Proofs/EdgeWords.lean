import BuildGraph.Proofs.BareWords
import BuildGraph.Proofs.DeployCommand

/-!
# Variables as words of the shell

Rules put the variables of an edge into their commands as they are, so the shell splits the value of
a variable into words.  Arguments, definitions, whitelists and the directories of a deployment are
quoted where the variable is set, so they are split into the words that were meant, whatever these
hold (`Shell.words?_composed`).  The paths of a preprocessed file and the directory of an archive
are not quoted, so each of them is one word only if it needs no quotes (`Target.splits_iff`).

Everything but a deployment is composed, so the variables of its edges are functions of the keyword
values (`Build.YieldsAt`).
-/

namespace BuildGraph

open Build

/-! ## Results at keyword values -/

namespace Build

variable {α β : Type} {values : KeywordValues}

/-- The result of a composed computation is a function of the keyword values. -/
theorem Composed.fst_run {c : Build α} (hc : c.Composed) (s : Session) :
    (c.run s).1 = c.valueAt s.keywords := by
  rw [hc.composes s]

/-- A composed computation whose result at some keyword values has a property. -/
structure YieldsAt (values : KeywordValues) (p : α → Prop) (c : Build α) : Prop where
  composed : c.Composed
  value : p (c.valueAt values)

theorem YieldsAt.fst_run {p : α → Prop} {c : Build α} {s : Session} (h : YieldsAt s.keywords p c) :
    p (c.run s).1 := by
  rw [h.composed.fst_run]
  exact h.value

theorem yieldsAt_pure {p : α → Prop} {a : α} (h : p a) : YieldsAt values p (pure a : Build α) :=
  ⟨.pure a, h⟩

/-- The property of the final result may depend on the intermediate one. -/
theorem yieldsAt_bind_at (p : α → β → Prop) {c : Build α} {f : α → Build β} (hc : c.Composed)
    (hf : ∀ a, YieldsAt values (p a) (f a)) : YieldsAt values (p (c.valueAt values)) (c >>= f) where
  composed := hc.bind fun a => (hf a).composed
  value := by
    rw [hc.valueAt_bind fun a => (hf a).composed]
    exact (hf _).value

theorem yieldsAt_bind {p : β → Prop} {c : Build α} {f : α → Build β} (hc : c.Composed)
    (hf : ∀ a, YieldsAt values p (f a)) : YieldsAt values p (c >>= f) :=
  yieldsAt_bind_at (fun _ => p) hc hf

theorem yieldsAt_each {p : β → Prop} {step : α → Build β} (h : ∀ a, YieldsAt values p (step a))
    (l : List α) : YieldsAt values (fun bs => ∀ b ∈ bs, p b) (Build.each step l) where
  composed := .each (fun a => (h a).composed) l
  value := by
    rw [Composed.valueAt_each fun a => (h a).composed]
    intro b hb
    obtain ⟨a, -, rfl⟩ := List.mem_map.1 hb
    exact (h a).value

end Build

namespace Template

theorem fst_run_compose (t : Template) (s : Session) :
    (t.compose.run s).1 = t.textAt s.keywords := by
  rw [t.composed_compose.fst_run, valueAt_compose]

end Template

/-- A target of one edge. -/
theorem Build.YieldsAt.of_mem_one {p : Edge → Prop} {c : Build Edge} {s : Session} {e : Edge}
    (hc : YieldsAt s.keywords p c) (he : e ∈ ((c >>= fun edge => pure [edge]).run s).1) : p e := by
  rw [List.mem_singleton.1 he]
  exact hc.fst_run

/-! ## Variables of edges -/

namespace Preprocessing

/-- The words of definitions, each an argument of the preprocessor. -/
def defineWords (defines : List Template) (values : KeywordValues) : List String :=
  defines.map fun d => "-D" ++ d.textAt values

/-- An edge has the outputs and variables of a preprocessed file. -/
def Binds (defines : List Template) (values : KeywordValues) (e : Edge) : Prop :=
  ∃ output, e.outputs = [output, output ++ dependencySuffix]
    ∧ e.vars.entries = (if defines = [] then [] else
        [("defines", ShellWord.quoteAll (defineWords defines values))])
      ++ [("depfile", output ++ dependencySuffix), ("outfile", output)]

variable {values : KeywordValues}

theorem binds_withDefines (input output : String) (implicits : List String)
    (defines : List Template) : YieldsAt values (Binds defines values)
      (withDefines (plainEdge input output implicits) defines) := by
  refine ⟨composed_withDefines _ _, output, ?_⟩
  unfold withDefines
  split
  · exact ⟨rfl, rfl⟩
  · rw [(Template.composed_composeAll defines).valueAt_bind fun _ => .pure _,
      Template.valueAt_composeAll, valueAt_pure, List.map_map]
    exact ⟨rfl, rfl⟩

theorem binds_edge (t : Preprocessing) :
    YieldsAt values (Binds t.defines values) t.edge :=
  yieldsAt_bind t.input.composed_compose fun input =>
    yieldsAt_bind (t.composed_outputFor input) fun output =>
      yieldsAt_bind (Keyword.composed_pathOf _ input) fun _ =>
        yieldsAt_bind (Keyword.composed_pathOf _ output) fun _ =>
          yieldsAt_bind (Template.composed_pathsIn _ _) fun _ => binds_withDefines _ _ _ _

end Preprocessing

theorem PreprocessingBatch.binds_edges (t : PreprocessingBatch) {values : KeywordValues} :
    YieldsAt values (fun es => ∀ e ∈ es, Preprocessing.Binds t.defines values e) t.edges :=
  yieldsAt_bind (Template.composed_compose _) fun inputDir =>
    yieldsAt_bind (Template.composed_compose _) fun outputDir =>
      yieldsAt_each (fun input => yieldsAt_bind input.composed_compose fun name =>
        Preprocessing.binds_edge (t.single inputDir outputDir name)) t.inputs

namespace FileBatch

theorem vars_edges (t : FileBatch) (kind : Target.Kind) :
    Yields (fun es => ∀ e ∈ es, e.vars = .empty) (t.edges kind) := by
  refine yields_bind fun _ => yields_bind fun _ => yields_each (fun input => ?_) t.inputs
  exact yields_bind fun _ => yields_pure rfl

theorem vars_minifiedEdges (t : FileBatch) :
    Yields (fun es => ∀ e ∈ es, e.vars = .empty) t.minifiedEdges :=
  (t.vars_edges .minify).bind fun es hes => yields_bind fun script => yields_pure fun e he => by
    obtain ⟨e', he', rfl⟩ := List.mem_map.1 he
    exact hes e' he'

end FileBatch

theorem Conversion.entries_edge (t : Conversion) (kind : Target.Kind) {values : KeywordValues} :
    YieldsAt values (fun e => e.vars.entries
      = [("args", ShellWord.quoteAll (t.args.map (·.textAt values)))]) (t.edge kind) := by
  rw [← Template.valueAt_composeWords]
  refine yieldsAt_bind (Template.composed_pathIn _ _) fun _ =>
    yieldsAt_bind (Template.composed_pathIn _ _) fun _ => ?_
  exact yieldsAt_bind_at (fun args (e : Edge) => e.vars.entries = [("args", args)])
    (Template.composed_composeWords _) fun _ => yieldsAt_pure rfl

/-- The directory in which the files of an archive are found. -/
def Archive.inputPath (t : Archive) (values : KeywordValues) : String :=
  (Template.pathIn (.ofKeyword .currentInputDir) (t.inputDir.getD .empty)).valueAt values

theorem Archive.entries_edge (t : Archive) {values : KeywordValues} :
    YieldsAt values (fun e => e.vars.entries = [("indir", t.inputPath values)]) t.edge :=
  yieldsAt_bind_at (fun dir (e : Edge) => e.vars.entries = [("indir", dir)])
    (Template.composed_pathIn _ _) fun _ => yieldsAt_bind (Template.composed_composeAll _) fun _ =>
      yieldsAt_bind (Template.composed_pathIn _ _) fun _ =>
        yieldsAt_bind (Template.composed_compose _) fun _ => yieldsAt_pure rfl

theorem Regeneration.vars_edge (t : Regeneration) : Yields (fun e => e.vars = .empty) t.edge :=
  yields_bind fun _ => yields_bind fun _ => yields_bind fun _ => yields_pure rfl

/-! ## Words that are meant -/

namespace Target

/-- The words that the variables of a target's edge stand for, by the names of the variables. -/
def intendedWords (t : Target) (s : Session) (e : Edge) : List (String × List String) :=
  match t with
  | .cpp t => preprocessed t.defines
  | .cpps t => preprocessed t.defines
  | .magick t => [("args", t.args.map (·.textAt s.keywords))]
  | .rsvgConvert t => [("args", t.args.map (·.textAt s.keywords))]
  | .zip t => [("indir", [t.inputPath s.keywords])]
  | .rsync t =>
    if e.isAlias then []
    else [("dstDir", (t.destination s).toOption.toList.map (·.dst)), ("inputs", t.inputs),
      ("srcDir", [t.sourcePath s.keywords])]
  | _ => []
where
  /-- The words of a preprocessed file. -/
  preprocessed (defines : List Template) : List (String × List String) :=
    (if defines = [] then [] else [("defines", Preprocessing.defineWords defines s.keywords)])
      ++ [("depfile", e.outputs[1]?.toList), ("outfile", e.outputs[0]?.toList)]

/-- The paths among them that are written as they are. -/
def unquotedPaths (t : Target) (values : KeywordValues) (e : Edge) : List String :=
  match t with
  | .cpp _ => e.outputs
  | .cpps _ => e.outputs
  | .zip t => [t.inputPath values]
  | _ => []

end Target

/-- The values of an edge's variables are split into these words. -/
def Edge.SplitsInto (e : Edge) (words : List (String × List String)) : Prop :=
  (e.vars.entries.map fun v => (v.1, Shell.words? v.2)) = words.map fun v => (v.1, some v.2)

theorem Edge.splitsInto_nil {e : Edge} (h : e.vars = .empty) : e.SplitsInto [] := by
  rw [SplitsInto, h]
  rfl

theorem Edge.splitsInto_args {e : Edge} {args : List String}
    (h : e.vars.entries = [("args", ShellWord.quoteAll args)]) : e.SplitsInto [("args", args)] := by
  rw [SplitsInto, h, List.map_singleton, List.map_singleton, Shell.words?_quoteAll]

/-- The variables of a preprocessed file are split into the words that are meant exactly if its
outputs need no quotes. -/
theorem Preprocessing.Binds.splitsInto_iff {defines : List Template} {s : Session} {e : Edge}
    (h : Binds defines s.keywords e) :
    e.SplitsInto (Target.intendedWords.preprocessed s e defines)
      ↔ ∀ path ∈ e.outputs, Shell.IsBareWord path := by
  obtain ⟨output, houtputs, hentries⟩ := h
  have hdefines : ((if defines = [] then [] else
      [("defines", ShellWord.quoteAll (defineWords defines s.keywords))]).map
        fun v : String × String => (v.1, Shell.words? v.2))
      = (if defines = [] then [] else [("defines", defineWords defines s.keywords)]).map
        fun v => (v.1, some v.2) := by
    split
    · rfl
    · rw [List.map_singleton, List.map_singleton, Shell.words?_quoteAll]
  rw [Edge.SplitsInto, hentries, Target.intendedWords.preprocessed, houtputs, List.map_append,
    List.map_append, hdefines, List.append_cancel_left_eq]
  simp only [List.map_cons, List.map_nil, List.cons.injEq, Prod.mk.injEq, true_and, and_true,
    List.getElem?_cons_zero, List.getElem?_cons_succ, Option.toList_some, Shell.words?_eq_self_iff,
    List.forall_mem_cons]
  simp [and_comm]

/-- The variables of a deployment are split into the words that are meant. -/
theorem Deployment.splitsInto {t : Deployment} {s : Session} {e : Edge}
    (he : e ∈ (t.edges.run s).1) : e.SplitsInto (Target.intendedWords (.rsync t) s e) := by
  have hword (word : String) : Shell.words? (ShellWord.quote word) = some [word] :=
    Shell.words?_quoteAll [word]
  obtain ⟨sync, rest, hedges⟩ := List.exists_cons_of_ne_nil (List.ne_nil_of_mem he)
  obtain ⟨destination, hfound, -, rfl, rfl⟩ := t.edges_eq_cons hedges
  rw [hedges] at he
  rcases List.mem_cons.1 he with rfl | he
  · have hwords : Target.intendedWords (.rsync t) s (t.copyEdge (t.configPath s.keywords)
        destination.dst (t.sourcePath s.keywords)
        (Path.withSuffix (t.sourcePath s.keywords) timestampSuffix))
        = [("dstDir", [destination.dst]), ("inputs", t.inputs),
          ("srcDir", [t.sourcePath s.keywords])] := by
      rw [Target.intendedWords, hfound]
      rfl
    rw [Edge.SplitsInto, entries_copyEdge, hwords]
    simp only [List.map_cons, List.map_nil, hword, Shell.words?_quoteAll]
  · obtain rfl := List.mem_singleton.1 he
    exact Edge.splitsInto_nil rfl

namespace Target

/-- The variables of an edge are split into the words that are meant exactly if those of its paths
that are not quoted need no quotes. -/
theorem splits_iff {t : Target} {s : Session} {e : Edge} (hkind : t.kind ≠ .core)
    (he : e ∈ (t.edges.run s).1) :
    e.SplitsInto (t.intendedWords s e)
      ↔ ∀ path ∈ t.unquotedPaths s.keywords e, Shell.IsBareWord path := by
  -- Without paths that are not quoted there is no condition.
  have quoted {words : List (String × List String)} (h : e.SplitsInto words) :
      e.SplitsInto words ↔ ∀ path ∈ ([] : List String), Shell.IsBareWord path :=
    iff_of_true h (by simp)
  cases t with
  | cpp t => exact (t.binds_edge.of_mem_one he).splitsInto_iff
  | cpps t => exact (t.binds_edges.fst_run e he).splitsInto_iff
  | copy t => exact quoted (Edge.splitsInto_nil (t.vars_edges .copy s e he))
  | magick t => exact quoted (Edge.splitsInto_args ((t.entries_edge .magick).of_mem_one he))
  | rsvgConvert t =>
      exact quoted (Edge.splitsInto_args ((t.entries_edge .rsvgConvert).of_mem_one he))
  | minify t => exact quoted (Edge.splitsInto_nil (t.vars_minifiedEdges s e he))
  | zip t =>
      have hentries := t.entries_edge.of_mem_one he
      rw [Edge.SplitsInto, hentries]
      simp [intendedWords, unquotedPaths, Shell.words?_eq_self_iff]
  | regen t =>
      obtain rfl := List.mem_singleton.1 he
      exact quoted (Edge.splitsInto_nil (t.vars_edge s))
  | rsync t => exact quoted (t.splitsInto he)
  | core e => exact absurd rfl hkind

/-- Below a directory with a space in its name the outputs of a preprocessed file are cut in two;
its definitions are not. -/
theorem splits_iff_of_space :
    let t : Target := .cpp { input := .literal "a.in", defines := [.literal "X=1 2"] }
    let s := Session.ofInvocation "/my site" "HAGA.lua" "haga" {} {}
    ∃ e ∈ (t.edges.run s).1, t.kind ≠ .core ∧ ¬e.SplitsInto (t.intendedWords s e)
      ∧ (e.vars.entries.map fun v => (v.1, Shell.words? v.2)) = [
        ("defines", some ["-DX=1 2"]),
        ("depfile", some ["/my", "site/out/a.d"]),
        ("outfile", some ["/my", "site/out/a"])] := by
  intro t s
  have hkind : t.kind ≠ .core := by decide
  obtain ⟨e, hedges, houtput, hvars⟩ : ∃ e, (t.edges.run s).1 = [e]
      ∧ "/my site/out/a" ∈ e.outputs
      ∧ (e.vars.entries.map fun v => (v.1, Shell.words? v.2)) = [
        ("defines", some ["-DX=1 2"]),
        ("depfile", some ["/my", "site/out/a.d"]),
        ("outfile", some ["/my", "site/out/a"])] :=
    ⟨_, rfl, by decide +kernel, by decide +kernel⟩
  have he : e ∈ (t.edges.run s).1 := by
    rw [hedges]
    exact List.mem_singleton_self e
  refine ⟨e, he, hkind, fun hsplits => ?_, hvars⟩
  have hbare := (splits_iff hkind he).1 hsplits _ houtput
  exact absurd hbare (by decide)

end Target

theorem Preprocessing.Binds.valueIn_defines {defines : List Template} {values : KeywordValues}
    {e : Edge} (h : Binds defines values e) : Ninja.valueIn e.vars.entries "defines"
      = ShellWord.quoteAll (defineWords defines values) := by
  obtain ⟨output, -, hentries⟩ := h
  rw [hentries]
  split
  · next hnone =>
      rw [hnone]
      rfl
  · rfl

/-- Arguments, definitions and the whitelist of a deployment are split into the words that were
composed.  They start no expansion, since what would start one is not read at all. -/
theorem Shell.words?_composed :
    (∀ (args : List Template) (s : Session), Shell.words? ((Template.composeWords args).run s).1
        = some (args.map fun a => (a.compose.run s).1))
      ∧ (∀ (t : Preprocessing) (s : Session),
        Shell.words? (Ninja.valueIn (t.edge.run s).1.vars.entries "defines")
          = some (t.defines.map fun d => "-D" ++ (d.compose.run s).1))
      ∧ ∀ (t : Deployment) (s : Session) (sync : Edge) (rest : List Edge),
        (t.edges.run s).1 = sync :: rest →
          Shell.words? (Ninja.valueIn sync.vars.entries "inputs") = some t.inputs := by
  refine ⟨fun args s => ?_, fun t s => ?_, fun t s sync rest hedges => ?_⟩
  · simp only [Template.fst_run_compose]
    rw [(Template.composed_composeWords args).fst_run, Template.valueAt_composeWords,
      Shell.words?_quoteAll]
  · simp only [Template.fst_run_compose]
    rw [t.binds_edge.fst_run.valueIn_defines, Shell.words?_quoteAll]
    rfl
  · obtain ⟨destination, -, -, -, hsync⟩ := t.edges_eq_cons hedges
    rw [hsync]
    exact Shell.words?_quoteAll t.inputs

/-- Words that are empty, hold the end of a line or end with a backslash, and words that would start
an expansion without quotes. -/
theorem Shell.words?_composed_of_specials :
    let args : List Template := [.literal "", .literal "a\n$b `c` \"d\\", .composed [.unknown "X"]]
    let t : Preprocessing := { input := .literal "a.in", defines := [.literal "T=\"$x\"", .empty] }
    let u : Deployment := {
      name := "deploy"
      inputs := ["$(id)", "", "b\\"]
      srcDir := .literal "pub"
      config := .literal "config"
      dstDir := .literal "host:/srv" }
    let s := Session.ofInvocation "/" "HAGA.lua" "haga" {} {}
    Shell.words? ((Template.composeWords args).run s).1
        = some ["", "a\n$b `c` \"d\\", ""]
      ∧ Shell.words? (Ninja.valueIn (t.edge.run s).1.vars.entries "defines")
        = some ["-DT=\"$x\"", "-D"]
      ∧ ∃ sync rest, (u.edges.run s).1 = sync :: rest
        ∧ Shell.words? (Ninja.valueIn sync.vars.entries "inputs") = some ["$(id)", "", "b\\"] := by
  intro args t u s
  obtain ⟨hargs, hdefines, hinputs⟩ := Shell.words?_composed
  have hconfig : u.configPath s.keywords = "/config" := by decide +kernel
  have hpieces : Path.pieces "/config" = [""] ++ ["config"] := by decide +kernel
  have hvacant : s.files.Vacant "/config" ["config"] false :=
    Files.vacant_of_pieces rfl hpieces (by decide) (by decide) (by decide +kernel) rfl rfl
  have hshort : ¬Files.maxPath
      ≤ (s.files.draftPath (Path.directoryOf "/config")).utf8ByteSize := by decide +kernel
  have hfound : u.destination s = .ok (.written "host:/srv") := by
    rw [Deployment.destination, hconfig, show u.dstDir.compose = pure "host:/srv" from rfl,
      Deploy.Destination.obtain_of_vacant hvacant, if_neg hshort]
    rfl
  obtain ⟨sync, rest, hedges⟩ : ∃ sync rest, (u.edges.run s).1 = sync :: rest := by
    rw [Deployment.edges_eq, hfound]
    exact ⟨_, _, rfl⟩
  exact ⟨hargs args s, hdefines t s, sync, rest, hedges, hinputs u s sync rest hedges⟩

end BuildGraph
