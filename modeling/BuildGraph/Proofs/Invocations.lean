import BuildGraph.Proofs.Mirroring
import BuildGraph.Proofs.FinalPaths

/-!
# The directories of a run

A run names its directories by the paths of locations, wherever its description lies: the directory
of the description (`Path.parent?_path`), and an output directory that lies below the root of all
outputs as the description's directory lies below the working directory, or is this root if it lies
elsewhere (`KeywordValues.Mirrors`, `Session.exists_mirrors`).  The names that follow the working
directory are those that follow the root of all outputs, so that directories of outputs are the same
just if the directories of inputs are (`KeywordValues.Mirrors.currentOutputDir_eq_iff`).

The path of the description is absolute and in normal form, so a run on this path has the same
keywords (`Session.invocationKeywords_join`).
-/

namespace BuildGraph

namespace Path

/-! ## Normal forms of locations -/

/-- Names behind a path follow its names. -/
theorem foldl_step_names (absolute : Bool) (front names : List String) :
    (names.map Component.name).foldl (step absolute) front = front ++ names := by
  induction names generalizing front with
  | nil => exact (List.append_nil front).symm
  | cons n names ih =>
      rw [List.map_cons, List.foldl_cons, step, ih, List.append_assoc, List.singleton_append]

/-- The names of a location are those of its path in normal form. -/
theorem normalNames_path {l : Location} (h : ∀ n ∈ l, IsEntryName n) : normalNames l.path = l := by
  have hmoves : moves l.path = l.map .name := (moves_names h true).2
  rw [normalNames_eq_foldl, hmoves, foldl_step_names, List.nil_append]

theorem path_inj {l m : Location} (hl : ∀ n ∈ l, IsEntryName n) (hm : ∀ n ∈ m, IsEntryName n) :
    l.path = m.path ↔ l = m := render_eq_iff hl hm

/-- What is read behind a location leads along its names. -/
theorem join_path_names {l names : Location} (hl : ∀ n ∈ l, IsEntryName n)
    (hnames : ∀ n ∈ names, IsEntryName n) :
    join l.path (Text.join "/" names) = Location.path (l ++ names) := by
  obtain ⟨hrelative, hmoves⟩ := moves_names hnames false
  have hrender : render false names = Text.join "/" names := String.empty_append
  rw [hrender] at hrelative hmoves
  have habsolute := isAbsolute_append (isAbsolute_path l) (Text.join "/" names)
  rw [join, ← path_normalNames habsolute, normalNames_append hrelative, isAbsolute_path,
    normalNames_path hl, hmoves, foldl_step_names]

/-! ## Parents and descendants of locations -/

theorem trimIdle_eq_self {names : List String} (h : ∀ n ∈ names, isIdle n = false) :
    trimIdle names = names := by
  obtain ⟨idle, hidle, hall⟩ := exists_append_trimIdle names
  cases idle with
  | nil => rwa [List.append_nil, eq_comm] at hidle
  | cons s idle =>
      have hs : s ∈ names := hidle ▸ List.mem_append_right _ List.mem_cons_self
      have hbusy := h s hs
      rw [hall s List.mem_cons_self] at hbusy
      cases hbusy

/-- The parent of a text of names is the text of the names before the last. -/
theorem parent?_render {absolute : Bool} {front : List String} {name : String}
    (h : ∀ n ∈ front ++ [name], isIdle n = false ∧ '/' ∉ n.toList) :
    parent? (render absolute (front ++ [name])) = some (render absolute front) := by
  obtain ⟨hfront, hname⟩ := List.forall_mem_append.1 h
  have hbusy : isIdle name = false := (List.forall_mem_singleton.1 hname).1
  have hpieces : pieces (Text.join "/" (front ++ [name])) = front ++ [name] := by
    obtain ⟨n, ns, hcons⟩ := List.exists_cons_of_ne_nil (List.concat_ne_nil name front)
    rw [hcons] at h ⊢
    exact pieces_join fun n hn => (h n hn).2
  cases absolute with
  | true =>
      have hrender : render true (front ++ [name])
          = "" ++ "/" ++ Text.join "/" (front ++ [name]) := by simp [render]
      have hall : pieces (render true (front ++ [name])) = "" :: (front ++ [name]) := by
        rw [hrender, pieces_append_slash, hpieces]
        rfl
      rw [parent?_of_pieces_eq hall hbusy (List.forall_mem_nil _),
        trimIdle_eq_self fun n hn => (hfront n hn).1]
      cases front with
      | nil => rfl
      | cons n front => exact congrArg some (by simp [render, Text.join_cons_cons])
  | false =>
      have hrender (names : List String) : render false names = Text.join "/" names :=
        String.empty_append
      rw [hrender, hrender]
      cases front with
      | nil =>
          have hne : name ≠ "" := fun hempty => absurd (isIdle_iff.2 (.inl hempty))
            (by simp [hbusy])
          rw [List.nil_append, Text.join_singleton] at hpieces
          rw [List.nil_append, Text.join_singleton, parent?, hpieces]
          simp [hne]
      | cons n front =>
          have hne : n ≠ "" := fun hempty => absurd (isIdle_iff.2 (.inl hempty))
            (by simp [(hfront n List.mem_cons_self).1])
          rw [parent?_of_pieces_eq hpieces hbusy (List.forall_mem_nil _),
            trimIdle_eq_self fun m hm => (hfront m (List.mem_cons_of_mem _ hm)).1,
            if_neg fun hhead => hne hhead.1]

theorem parent?_root : parent? (Location.path []) = none := by decide +kernel

theorem isIdle_eq_false_of_isEntryName {name : String} (h : IsEntryName name) :
    isIdle name = false := by
  rw [← Bool.not_eq_true, isIdle_iff]
  exact not_or.2 ⟨h.ne_empty, h.ne_dot⟩

/-- The parent of a location is the directory that it lies in. -/
theorem parent?_path {dir : Location} {name : String} (hdir : ∀ n ∈ dir, IsEntryName n)
    (hname : IsEntryName name) : parent? (Location.path (dir ++ [name])) = some dir.path :=
  parent?_render fun n hn =>
    have h : IsEntryName n :=
      List.forall_mem_append.2 ⟨hdir, List.forall_mem_singleton.2 hname⟩ n hn
    ⟨isIdle_eq_false_of_isEntryName h, h.no_slash⟩

theorem below?_path_eq_none {l m : Location} (hl : ∀ n ∈ l, IsEntryName n)
    (hm : ∀ n ∈ m, IsEntryName n) (h : ¬l <+: m) : below? l.path m.path = none := by
  rw [below?, Option.map_eq_none_iff, Option.eq_none_iff_forall_ne_some]
  intro rest hrest
  rw [dropPrefix?_eq_some_iff, components_path hl, components_path hm, List.cons_append] at hrest
  have hprefix : l.map Component.name <+: m.map Component.name :=
    ⟨rest, (List.cons.inj hrest).2.symm⟩
  obtain ⟨l', hl', hmap⟩ := List.prefix_map_iff.1 hprefix
  exact h ((List.map_inj_right fun _ _ => Component.name.inj).1 hmap ▸ hl')

end Path

open BuildGraph.Path

/-! ## Mirrored directories -/

/-- The directories of a run in `work` on a description in `input`, and its directory `output` for
outputs: this lies in the root of all outputs where `input` lies in `work`, and is the root of all
outputs if `input` lies elsewhere. -/
structure KeywordValues.Mirrors (values : KeywordValues) (work input output : Location) : Prop where
  isEntryName_input : ∀ n ∈ input, IsEntryName n
  isEntryName_output : ∀ n ∈ output, IsEntryName n
  inputDir : values .inputDir = some work.path
  outputDir : values .outputDir = some (Location.path (work ++ [Session.outDirectory]))
  currentInputDir : values .currentInputDir = some input.path
  currentOutputDir : values .currentOutputDir = some output.path
  below : ∀ names, input = work ++ names → output = work ++ Session.outDirectory :: names
  elsewhere : ¬work <+: input → output = work ++ [Session.outDirectory]

namespace KeywordValues.Mirrors

variable {values values' : KeywordValues} {work input output input' output' : Location}

theorem input_eq {l : Location} (h : values.Mirrors work input output)
    (hl : ∀ n ∈ l, IsEntryName n) (hvalue : values .currentInputDir = some l.path) : input = l := by
  rw [h.currentInputDir, Option.some_inj, path_inj h.isEntryName_input hl] at hvalue
  exact hvalue

/-- The outputs of a run lie in the root of all outputs. -/
theorem prefix_output (h : values.Mirrors work input output) :
    work ++ [Session.outDirectory] <+: output := by
  by_cases hin : work <+: input
  · obtain ⟨names, rfl⟩ := hin
    exact ⟨names, by rw [h.below names rfl, List.append_assoc, List.singleton_append]⟩
  · rw [h.elsewhere hin]

/-- Descriptions below the working directory have the same directory for outputs just if they lie
in the same directory. -/
theorem currentOutputDir_eq_iff (h : values.Mirrors work input output)
    (h' : values'.Mirrors work input' output') (hin : work <+: input) (hin' : work <+: input') :
    values .currentOutputDir = values' .currentOutputDir
      ↔ values .currentInputDir = values' .currentInputDir := by
  obtain ⟨names, rfl⟩ := hin
  obtain ⟨names', rfl⟩ := hin'
  rw [h.currentOutputDir, h'.currentOutputDir, h.currentInputDir, h'.currentInputDir,
    Option.some_inj, Option.some_inj, path_inj h.isEntryName_output h'.isEntryName_output,
    path_inj h.isEntryName_input h'.isEntryName_input, h.below names rfl, h'.below names' rfl,
    List.append_cancel_left_eq, List.append_cancel_left_eq, List.cons_inj_right]

end KeywordValues.Mirrors

namespace Session

variable {cwd : String}

/-- A run on the path that a run names for its description has the keywords of that run. -/
theorem invocationKeywords_join (h : isAbsolute cwd = true) (file command : String)
    (tools : Toolset) :
    invocationKeywords cwd (join cwd file) command tools
      = invocationKeywords cwd file command tools := by
  simp only [invocationKeywords, join_join_self h]

/-- The directories of a run whose description lies in `input`. -/
theorem exists_mirrors {work input : Location} {file : String} (hwork : ∀ n ∈ work, IsEntryName n)
    (hinput : ∀ n ∈ input, IsEntryName n)
    (hparent : (parent? (join work.path file)).getD work.path = input.path) (command : String)
    (tools : Toolset) :
    ∃ output, (invocationKeywords work.path file command tools).Mirrors work input output := by
  have hout : IsEntryName outDirectory := by decide
  have hroot : ∀ n ∈ work ++ [outDirectory], IsEntryName n :=
    List.forall_mem_append.2 ⟨hwork, List.forall_mem_singleton.2 hout⟩
  have houtputDir : append work.path outDirectory = Location.path (work ++ [outDirectory]) :=
    append_path hwork hout
  have hcurrent {rest : List String} (hrest : ∀ n ∈ rest, IsEntryName n)
      (hbelow : (below? work.path input.path).getD "" = Text.join "/" rest) :
      join (append work.path outDirectory)
        ((below? work.path ((parent? (join work.path file)).getD work.path)).getD "")
          = Location.path (work ++ [outDirectory] ++ rest) := by
    rw [hparent, hbelow, houtputDir, join_path_names hroot hrest]
  by_cases hin : work <+: input
  · obtain ⟨names, rfl⟩ := hin
    have hnames : ∀ n ∈ names, IsEntryName n := (List.forall_mem_append.1 hinput).2
    have hbelow := congrArg (Option.getD · "") (below?_path hwork hnames)
    exact ⟨work ++ [outDirectory] ++ names, {
      isEntryName_input := hinput
      isEntryName_output := List.forall_mem_append.2 ⟨hroot, hnames⟩
      inputDir := rfl
      outputDir := congrArg some houtputDir
      currentInputDir := congrArg some hparent
      currentOutputDir := congrArg some (hcurrent hnames hbelow)
      below := fun names' hsame => by
        rw [List.append_cancel_left hsame, List.append_assoc, List.singleton_append]
      elsewhere := fun hnot => absurd (List.prefix_append _ _) hnot }⟩
  · have hbelow := congrArg (Option.getD · "") (below?_path_eq_none hwork hinput hin)
    exact ⟨work ++ [outDirectory] ++ [], {
      isEntryName_input := hinput
      isEntryName_output := List.forall_mem_append.2 ⟨hroot, List.forall_mem_nil _⟩
      inputDir := rfl
      outputDir := congrArg some houtputDir
      currentInputDir := congrArg some hparent
      currentOutputDir := congrArg some (hcurrent (List.forall_mem_nil _) hbelow)
      below := fun names hsame => absurd ⟨names, hsame.symm⟩ hin
      elsewhere := fun _ => List.append_nil _ }⟩

/-- A run from a working directory in normal form mirrors its sources, wherever its description
lies: its directory for outputs lies in the root of all outputs as the description's directory lies
in the working directory, or is this root if the description lies elsewhere; the outputs of
descriptions in two directories below the working directory are kept apart; and a run on the path
that it names for its description has the same keywords. -/
theorem invocation_mirrors_sources (habsolute : isAbsolute cwd = true)
    (hnormal : normal cwd = cwd) (file command : String) (tools : Toolset) :
    let work : Location := normalNames cwd
    let values := invocationKeywords cwd file command tools
    ∃ description input output : Location, values .descriptionFile = some description.path
      ∧ (description = [] ∧ input = work ∨ ∃ name, description = input ++ [name])
      ∧ values.Mirrors work input output ∧ work ++ [outDirectory] <+: output
      ∧ (∀ other input' output',
        let values' := invocationKeywords cwd other command tools
        values'.Mirrors work input' output' → work <+: input → work <+: input' →
          (values .currentOutputDir = values' .currentOutputDir
            ↔ values .currentInputDir = values' .currentInputDir))
      ∧ invocationKeywords cwd description.path command tools = values := by
  intro work values
  have hwork : ∀ n ∈ work, IsEntryName n := fun n => isEntryName_of_mem_normalNames habsolute
  have hcwd : work.path = cwd := (path_normalNames habsolute).trans hnormal
  obtain ⟨description, hdescription, hfile⟩ := isFinal_iff.1 (isFinal_join habsolute file)
  obtain ⟨input, hinput, hwhere, hparent⟩ : ∃ input : Location, (∀ n ∈ input, IsEntryName n)
      ∧ (description = [] ∧ input = work ∨ ∃ name, description = input ++ [name])
      ∧ (parent? (join work.path file)).getD work.path = input.path := by
    rw [hcwd, ← hfile, ← hcwd]
    obtain rfl | ⟨dir, name, rfl⟩ := List.eq_nil_or_concat description
    · rw [parent?_root]
      exact ⟨work, hwork, .inl ⟨rfl, rfl⟩, rfl⟩
    · rw [List.concat_eq_append] at hdescription ⊢
      obtain ⟨hdir, hname⟩ := List.forall_mem_append.1 hdescription
      rw [parent?_path hdir (List.forall_mem_singleton.1 hname)]
      exact ⟨dir, hdir, .inr ⟨name, rfl⟩, rfl⟩
  obtain ⟨output, hmirrors⟩ := exists_mirrors hwork hinput hparent command tools
  rw [hcwd] at hmirrors
  refine ⟨description, input, output, congrArg some hfile.symm, hwhere, hmirrors,
    hmirrors.prefix_output, ?_, ?_⟩
  · intro other input' output' values' hmirrors' hin hin'
    exact hmirrors.currentOutputDir_eq_iff hmirrors' hin hin'
  · rw [hfile, invocationKeywords_join habsolute]

/-- A description that is found on a detour, one in another directory, and one elsewhere. -/
theorem invocation_mirrors_sources_of_site :
    let values := invocationKeywords "/site" "../site/./d/x/..//HAGA.lua" "haga" {}
    let values' := invocationKeywords "/site" "e/HAGA.lua" "haga" {}
    isAbsolute "/site" = true ∧ normal "/site" = "/site"
      ∧ values.Mirrors ["site"] ["site", "d"] ["site", "out", "d"]
      ∧ values .currentOutputDir ≠ values' .currentOutputDir
      ∧ invocationKeywords "/site" "/site/d/HAGA.lua" "haga" {} = values
      ∧ (invocationKeywords "/site" "../up/HAGA.lua" "haga" {}).Mirrors ["site"] ["up"]
        ["site", "out"] := by
  intro values values'
  have habsolute : isAbsolute "/site" = true := by decide
  have hnormal : normal "/site" = "/site" := by decide +kernel
  have hwork : normalNames "/site" = ["site"] := by decide +kernel
  obtain ⟨description, input, output, hfile, -, hmirrors, -, hapart, hagain⟩ :=
    invocation_mirrors_sources habsolute hnormal "../site/./d/x/..//HAGA.lua" "haga" {}
  obtain ⟨-, input', output', -, -, hmirrors', -⟩ :=
    invocation_mirrors_sources habsolute hnormal "e/HAGA.lua" "haga" {}
  obtain ⟨-, above, elsewhere, -, -, hmirrorsAbove, -⟩ :=
    invocation_mirrors_sources habsolute hnormal "../up/HAGA.lua" "haga" {}
  rw [hwork] at hmirrors hmirrors' hmirrorsAbove hapart
  have hdescription : description.path = "/site/d/HAGA.lua" :=
    Option.some.inj (hfile.symm.trans (by decide +kernel))
  obtain rfl : input = ["site", "d"] := hmirrors.input_eq (by decide) (by decide +kernel)
  obtain rfl : input' = ["site", "e"] := hmirrors'.input_eq (by decide) (by decide +kernel)
  obtain rfl : above = ["up"] := hmirrorsAbove.input_eq (by decide) (by decide +kernel)
  obtain rfl : output = ["site", "out", "d"] := hmirrors.below ["d"] rfl
  obtain rfl : elsewhere = ["site", "out"] := hmirrorsAbove.elsewhere (by decide)
  refine ⟨habsolute, hnormal, hmirrors, fun hsame => ?_, hdescription ▸ hagain, hmirrorsAbove⟩
  have hdirs := (hapart "e/HAGA.lua" _ _ hmirrors' (by decide) (by decide)).1 hsame
  exact absurd hdirs (by decide +kernel)

end Session

end BuildGraph
