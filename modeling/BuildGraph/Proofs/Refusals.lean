import BuildGraph.Proofs.DeployGate

/-!
# What a refusal says

A request is refused with a list of violations.  Each declared file with which something is wrong
has one, in the order in which the files are declared (`Deploy.Refusals`), and the entries that
were not declared share one behind them.  They are listed in the order of their paths, name by name,
each once (`Deploy.pairwise_present`), which is why neither the order nor the number in which files
are declared has a part in it (`Deploy.unexpected_congr`).

The directory of a request has a location where every directory can be listed and every link can be
read (`Files.exists_locate_of_directory`).
-/

namespace BuildGraph

/-! ## Order of locations -/

namespace Text

/-- Lists of texts are compared text by text, a list before those that it starts. -/
theorem listLe_iff {ss ts : List String} : listLe ss ts = true ↔ ss < ts ∨ ss = ts := by
  induction ss generalizing ts with
  | nil => cases ts <;> simp [listLe]
  | cons s ss ih =>
      cases ts with
      | nil => simp [listLe]
      | cons t ts =>
          rw [listLe, List.cons_lt_cons_iff, List.cons.injEq]
          by_cases h : s = t
          · simp [h, ih]
          · simp [h]

theorem listLe_trans (a b c : List String) (hab : listLe a b = true) (hbc : listLe b c = true) :
    listLe a c = true := by
  obtain hab | rfl := listLe_iff.1 hab
  · obtain hbc | rfl := listLe_iff.1 hbc
    · exact listLe_iff.2 (.inl (List.lt_trans hab hbc))
    · exact listLe_iff.2 (.inl hab)
  · exact hbc

theorem listLe_total (a b : List String) : (listLe a b || listLe b a) = true := by
  rw [Bool.or_eq_true, listLe_iff, listLe_iff]
  obtain h | h | h := @Std.Trichotomous.rel_or_eq_or_rel_swap (List String) (· < ·) _ a b
  · exact .inl (.inl h)
  · exact .inl (.inr h)
  · exact .inr (.inl h)

end Text

/-! ## Directories that can be found -/

namespace Files

/-- Every link can be read. -/
def ReadsLinks (fs : Files) : Prop :=
  ∀ l target, fs.lookup l = some (.link target) → l.path.utf8ByteSize < maxPath

variable {fs : Files} {here l : Location}

/-- A walk by name to a directory goes by absolute paths as well, where these are short enough for
directories and links. -/
theorem Walks.byLocation_of_directory (hr : fs.IsReadable) (hlinks : fs.ReadsLinks) {links : Nat}
    {xs : List String} (h : fs.Walks false links here xs l)
    (hl : fs.lookup l = some .directory) : fs.Walks true links here xs l := by
  have hlook {here : Location} {name : String} (h : canLook false here name = true)
      (hshort : (Location.path (here ++ [name])).utf8ByteSize < maxPath) :
      canLook true here name = true := by
    simp only [canLook, Bool.and_eq_true] at h ⊢
    exact ⟨h.1, by simpa using hshort⟩
  induction h with
  | done => exact .done
  | stay hdir hpiece _ ih => exact .stay hdir hpiece (ih hl)
  | up hdir _ ih => exact .up hdir (ih hl)
  | @enter links here l name rest e hdir hdot hdots hname he hlink hrest ih =>
      have hnext : fs.lookup (here ++ [name]) = some .directory := by
        cases rest with
        | nil =>
            cases hrest
            exact hl
        | cons piece rest => exact hrest.lookup_here
      have hshort := hr _ hnext
      exact .enter hdir hdot hdots (hlook hname (by simpa [Deploy.canList] using hshort)) he hlink
        (ih hl)
  | follow hdir hdot hdots hname he _ ih =>
      exact .follow hdir hdot hdots (hlook hname (hlinks _ _ he)) he (ih hl)

/-- What a path names that names a directory has a location. -/
theorem exists_locate_of_directory (hr : fs.IsReadable) (hlinks : fs.ReadsLinks) {p : String}
    (h : fs.stat p = .ok .directory) :
    ∃ root, fs.locate p = .ok root ∧ fs.lookup root = some .directory := by
  obtain ⟨l, hresolve, hl⟩ := stat_eq_ok_iff.1 h
  have hwalks := walk_eq_ok_iff.1 (resolve_eq_ok_iff.1 hresolve).2
  exact ⟨l, locate_eq_ok_iff.2 ⟨⟨_, h⟩, hwalks.byLocation_of_directory hr hlinks hl⟩, hl⟩

end Files

namespace Deploy

open BuildGraph.Path

variable {fs : Files} {root l : Location} {inputs : List String} {input : String}

/-! ## What is wrong with a declared file -/

/-- The declared file that a violation is about. -/
def Violation.input? : Violation → Option String
  | .outside input => some input
  | .missing input => some input
  | .directory input => some input
  | .notRegular input => some input
  | _ => none

/-- A declared file lies, without a look at any file, at a location from the directory, and what is
there is, links followed, a regular file. -/
def Accepts (fs : Files) (root : Location) (input : String) (l : Location) : Prop :=
  normalNames (append root.path input) = root ++ l ∧ IsRegular fs (root ++ l)

/-- What is wrong with a declared file. -/
inductive Fault (fs : Files) (root : Location) (input : String) : DeployCode → Prop where
  /-- It does not lie in the directory. -/
  | outside (h : ∀ l, normalNames (append root.path input) ≠ root ++ l) :
      Fault fs root input .inputOutsideSrcDir
  /-- There is no regular file and no directory, links followed. -/
  | absent {l : Location} (hl : normalNames (append root.path input) = root ++ l)
      (hfile : ¬IsRegular fs (root ++ l))
      (hdir : fs.stat (Location.path (root ++ l)) ≠ .ok .directory) :
      Fault fs root input .inputNotFound
  /-- There is a directory. -/
  | directory {l : Location} (hl : normalNames (append root.path input) = root ++ l)
      (hdir : fs.stat (Location.path (root ++ l)) = .ok .directory) :
      Fault fs root input .inputIsDirectory

/-- Declared files with what stands against them: one violation for each with which something is
wrong, in their order. -/
inductive Refusals (fs : Files) (root : Location) : List String → List Violation → Prop where
  | none : Refusals fs root [] []
  | accept {input : String} {inputs : List String} {vs : List Violation} {l : Location}
      (h : Accepts fs root input l) (hrest : Refusals fs root inputs vs) :
      Refusals fs root (input :: inputs) vs
  | refuse {input : String} {inputs : List String} {v : Violation} {vs : List Violation}
      (hinput : v.input? = some input) (h : Fault fs root input v.code)
      (hrest : Refusals fs root inputs vs) : Refusals fs root (input :: inputs) (v :: vs)

/-- What is found wrong with a declared file is wrong with it. -/
theorem fault_of_locateInput {v : Violation} (h : locateInput fs root input = .error v) :
    v.input? = some input ∧ Fault fs root input v.code := by
  rw [locateInput] at h
  split at h
  · next hdrop =>
      obtain rfl := Except.error.inj h
      refine ⟨rfl, .outside fun l hl => ?_⟩
      rw [dropPrefix?_eq_some_iff.2 hl] at hdrop
      cases hdrop
  · next l hdrop =>
      have hl := dropPrefix?_eq_some_iff.1 hdrop
      rw [hl] at h
      have hregular {r : Except FileError Entry} (hstat : fs.stat (Location.path (root ++ l)) = r)
          (hr : ∀ content executable, r ≠ .ok (.file content executable)) :
          ¬IsRegular fs (root ++ l) := by
        rintro ⟨content, executable, hfile⟩
        exact hr content executable (hstat.symm.trans hfile)
      split at h
      · next cause hstat =>
          obtain rfl := Except.error.inj h
          refine ⟨rfl, .absent hl (hregular hstat (by simp)) ?_⟩
          rw [hstat]
          simp
      · next hstat =>
          obtain rfl := Except.error.inj h
          exact ⟨rfl, .directory hl hstat⟩
      · cases h
      · next e hdir hfile hstat =>
          obtain rfl := Except.error.inj h
          refine ⟨rfl, .absent hl (hregular hstat fun content executable he => ?_) ?_⟩
          · exact hfile content executable (Except.ok.inj he)
          · rw [hstat]
            exact fun he => hdir (Except.ok.inj he)

theorem refusals_inputViolations (fs : Files) (root : Location) (inputs : List String) :
    Refusals fs root inputs (inputViolations fs root inputs) := by
  induction inputs with
  | nil => exact .none
  | cons input inputs ih =>
      rw [inputViolations, List.filterMap_cons]
      cases h : locateInput fs root input with
      | error v =>
          obtain ⟨hinput, hfault⟩ := fault_of_locateInput h
          exact .refuse hinput hfault ih
      | ok l => exact .accept (locateInput_eq_ok_iff.1 h) ih

/-- Whether anything is wrong does not depend on the order and number of the files. -/
theorem inputViolations_eq_nil_congr {inputs' : List String}
    (h : ∀ input, input ∈ inputs' ↔ input ∈ inputs) :
    inputViolations fs root inputs' = [] ↔ inputViolations fs root inputs = [] := by
  simp only [inputViolations_eq_nil_iff, h]

/-! ## Entries that were not declared -/

/-- No two entries of a directory lie at one location. -/
theorem nodup_listing (ht : fs.IsTree) (root : Location) :
    ((fs.listing root).map (·.1)).Nodup := by
  refine ((List.mergeSort_perm _ _).map _).nodup_iff.2 ?_
  rw [List.Nodup, List.pairwise_map, List.pairwise_filterMap]
  refine (List.pairwise_map.1 ht.nodup).imp ?_
  intro e e' hne b hb b' hb' hsame
  split at hb
  · next hdrop =>
      obtain rfl := Option.some.inj hb
      split at hb'
      · next hdrop' =>
          obtain rfl := Option.some.inj hb'
          rw [dropPrefix?_eq_some_iff.1 hdrop, dropPrefix?_eq_some_iff.1 hdrop'] at hne
          exact hne (congrArg (root ++ ·) hsame)
      · cases hb'
  · cases hb

/-- What is present is listed in order, each entry once. -/
theorem pairwise_present (ht : fs.IsTree) (root : Location) :
    (present fs root).Pairwise (· < ·) := by
  have hnodup : (present fs root).Nodup := by
    rw [present, (List.mergeSort_perm _ _).nodup_iff]
    exact (nodup_listing ht root).sublist (List.filter_sublist.map _)
  have hsorted : (present fs root).Pairwise (fun a b => Text.listLe a b = true) :=
    List.pairwise_mergeSort Text.listLe_trans Text.listLe_total _
  refine (hsorted.and hnodup).imp ?_
  rintro a b ⟨hle, hne⟩
  exact (Text.listLe_iff.1 hle).resolve_right hne

theorem mem_unexpected (ht : fs.IsTree) (hr : fs.IsReadable) :
    l ∈ unexpected fs root inputs
      ↔ IsPresent fs root l ∧ ¬∃ input ∈ inputs, Accepts fs root input l := by
  have haccepts : (∃ input ∈ inputs, Accepts fs root input l)
      ↔ IsDeclared root inputs l ∧ IsRegular fs (root ++ l) := by
    simp only [Accepts, IsDeclared, ← and_assoc, exists_and_right]
  rw [unexpected, List.mem_filter, mem_present ht hr, decide_eq_true_iff, mem_accepted, haccepts]

/-- The order and number of the declared files has no part in what is unexpected. -/
theorem unexpected_congr {inputs' : List String} (h : ∀ input, input ∈ inputs' ↔ input ∈ inputs) :
    unexpected fs root inputs' = unexpected fs root inputs := by
  rw [unexpected, unexpected]
  refine List.filter_congr fun l _ => ?_
  rw [decide_eq_decide, mem_accepted, mem_accepted]
  simp only [IsDeclared, h]

/-! ## Refusals as a whole -/

theorem violations_of_locate {r : Request} (hlocate : fs.locate r.srcDir = .ok root)
    (hdir : fs.lookup root = some .directory) :
    r.violations fs = rootViolations fs root r.inputs := by
  obtain ⟨e, hstat, he⟩ := Files.exists_stat_of_locate hlocate
  obtain rfl := Option.some.inj (he.symm.trans hdir)
  rw [Request.violations, hstat]
  simp only [hlocate]
  rfl

/-- The violation in which entries are listed, if there are any. -/
def Leftover (ls : List Location) (last : List Violation) : Prop :=
  (ls = [] ∧ last = []) ∨ (ls ≠ [] ∧ ∃ v : Violation, last = [v] ∧ v.code = .unexpectedFile
    ∧ v.message = "Unexpected files found in srcDir that would be copied by rsync:"
      ++ Text.concat (ls.map fun l => "\n  - " ++ Text.join "/" l))

theorem message_unexpected (paths : List String) : (Violation.unexpected paths).message
    = "Unexpected files found in srcDir that would be copied by rsync:"
      ++ Text.concat (paths.map ("\n  - " ++ ·)) := rfl

theorem exists_rootViolations (ht : fs.IsTree) (hr : fs.IsReadable) (root : Location)
    (inputs : List String) : ∃ last, Leftover (unexpected fs root inputs) last
      ∧ ∀ inputs', (∀ input, input ∈ inputs' ↔ input ∈ inputs) →
        rootViolations fs root inputs' = inputViolations fs root inputs' ++ last := by
  have hroot {ls : List Location} (hls : unexpected fs root inputs = ls) (inputs' : List String)
      (h : ∀ input, input ∈ inputs' ↔ input ∈ inputs) :
      unlisted fs root = [] ∧ unexpected fs root inputs' = ls :=
    ⟨unlisted_eq_nil ht hr, (unexpected_congr h).trans hls⟩
  cases hls : unexpected fs root inputs with
  | nil =>
      refine ⟨[], .inl ⟨rfl, rfl⟩, fun inputs' h => ?_⟩
      obtain ⟨hlisted, hnone⟩ := hroot hls inputs' h
      rw [rootViolations, hlisted, hnone]
      rfl
  | cons l ls =>
      refine ⟨[.unexpected ((l :: ls).map (Text.join "/"))],
        .inr ⟨List.cons_ne_nil l ls, _, rfl, rfl, ?_⟩, fun inputs' h => ?_⟩
      · rw [message_unexpected, List.map_map, Function.comp_def]
      · obtain ⟨hlisted, hsome⟩ := hroot hls inputs' h
        rw [rootViolations, hlisted, hsome]
        rfl

/-- What stands against a request is all that is wrong.  Where its directory is one, this is one
violation for each declared file with which something is wrong, in their order, and then one with
the entries that no declared file accounts for, in order of their paths, if there are any.  The last
one, and whether there are any at all, are the same however often and in which order the files are
declared.  Where the directory is none, this alone stands against it, whatever is declared. -/
theorem Request.refusals_iff (ht : fs.IsTree) (hr : fs.IsReadable) (hlinks : fs.ReadsLinks)
    (r : Request) :
    (fs.stat r.srcDir = .ok .directory →
        ∃ root ls last, fs.locate r.srcDir = .ok root
          ∧ ls.Pairwise (· < ·)
          ∧ (∀ l, l ∈ ls ↔ IsPresent fs root l ∧ ¬∃ input ∈ r.inputs, Accepts fs root input l)
          ∧ Leftover ls last
          ∧ ∀ inputs, (∀ input, input ∈ inputs ↔ input ∈ r.inputs) →
            (∃ vs, { r with inputs }.violations fs = vs ++ last ∧ Refusals fs root inputs vs)
              ∧ ({ r with inputs }.violations fs = [] ↔ r.violations fs = []))
      ∧ (fs.stat r.srcDir ≠ .ok .directory →
        ∃ v, v.code = (if fs.pathExists r.srcDir then .srcDirNotDirectory else .srcDirNotFound)
          ∧ ∀ inputs, { r with inputs }.violations fs = [v]) := by
  constructor
  · intro hstat
    obtain ⟨root, hlocate, hdir⟩ := Files.exists_locate_of_directory hr hlinks hstat
    obtain ⟨last, hleftover, hroot⟩ := exists_rootViolations ht hr root r.inputs
    have hviolations (inputs : List String) (h : ∀ input, input ∈ inputs ↔ input ∈ r.inputs) :
        { r with inputs }.violations fs = inputViolations fs root inputs ++ last :=
      (violations_of_locate (r := { r with inputs }) hlocate hdir).trans (hroot inputs h)
    refine ⟨root, unexpected fs root r.inputs, last, hlocate, ?_, fun l => mem_unexpected ht hr,
      hleftover, fun inputs h =>
        ⟨⟨_, hviolations inputs h, refusals_inputViolations fs root inputs⟩, ?_⟩⟩
    · exact (pairwise_present ht root).filter _
    · have hself : r.violations fs = inputViolations fs root r.inputs ++ last :=
        hviolations r.inputs fun _ => Iff.rfl
      rw [hviolations inputs h, hself, List.append_eq_nil_iff, List.append_eq_nil_iff,
        inputViolations_eq_nil_congr h]
  · intro hstat
    cases hfound : fs.stat r.srcDir with
    | error cause =>
        refine ⟨.srcMissing r.srcDir, ?_, fun inputs => ?_⟩
        · rw [Files.pathExists, hfound]
          rfl
        · rw [violations, hfound]
    | ok e =>
        refine ⟨.srcNotDirectory r.srcDir, ?_, fun inputs => ?_⟩
        · rw [Files.pathExists, hfound]
          rfl
        · have hkind : e.isDirectory = false := by
            cases e with
            | directory => exact absurd hfound hstat
            | file => rfl
            | link => rfl
            | special => rfl
          simp only [violations, hfound, hkind]
          rfl

/-- A file outside is declared and a pipe is not; the regular file may be declared twice. -/
theorem Request.refusals_iff_of_pipe :
    let fs : Files := {
      entries := [
        (["s"], .directory),
        (["s", "a"], .file .empty false),
        (["s", "b"], .special)] }
    let r : Request := {
      inputs := ["../x", "a"]
      srcDir := "/s"
      dstDir := "host:/srv" }
    (fs.IsTree ∧ fs.IsReadable ∧ fs.ReadsLinks) ∧ fs.stat "/s" = .ok .directory
      ∧ ∃ v w, r.violations fs = [v, w] ∧ v.code = .inputOutsideSrcDir
        ∧ w.message = "Unexpected files found in srcDir that would be copied by rsync:\n  - b"
        ∧ ∃ vs, { r with inputs := ["a", "../x", "a"] }.violations fs = vs ++ [w] := by
  intro fs r
  have ht : fs.IsTree := by constructor <;> decide
  have hlookup {l : Location} {e : Entry} (hl : l ≠ []) (h : fs.lookup l = some e) :
      (l, e) = (["s"], .directory) ∨ (l, e) = (["s", "a"], .file .empty false)
        ∨ (l, e) = (["s", "b"], .special) := by
    simpa [fs] using Files.mem_of_lookup hl h
  have hr : fs.IsReadable := by
    intro l h
    by_cases hl : l = []
    · rw [hl]
      decide
    · obtain h | h | h := hlookup hl h
      · rw [(Prod.mk.inj h).1]
        decide
      · cases (Prod.mk.inj h).2
      · cases (Prod.mk.inj h).2
  have hlinks : fs.ReadsLinks := by
    intro l target h
    by_cases hl : l = []
    · rw [hl] at h
      cases h
    · obtain h | h | h := hlookup hl h <;> cases (Prod.mk.inj h).2
  have hs : fs.Walks true 40 [] ["", "s"] ["s"] :=
    .stay rfl (by decide) (.enter rfl (by decide) (by decide) (by decide) rfl (by simp) .done)
  have hstat : fs.stat "/s" = .ok .directory := Files.stat_of_walks rfl hs.byName rfl
  have hroot : fs.locate "/s" = .ok ["s"] := Files.locate_eq_ok_iff.2 ⟨⟨_, hstat⟩, hs⟩
  have hregular : IsRegular fs ["s", "a"] := by
    have hfile : fs.Walks false 40 [] ["s", "a"] ["s", "a"] :=
      .enter rfl (by decide) (by decide) (by decide) rfl (by simp)
        (.enter rfl (by decide) (by decide) (by decide) rfl (by simp) .done)
    exact ⟨.empty, false, Files.stat_of_walks rfl (.stay rfl (by decide) hfile) rfl⟩
  have hnames : normalNames (append (Location.path ["s"]) "../x") = ["x"]
      ∧ normalNames (append (Location.path ["s"]) "a") = ["s", "a"] := by decide
  obtain ⟨root, ls, last, hlocate, hsorted, hmem, hleftover, hall⟩ :=
    (refusals_iff ht hr hlinks r).1 hstat
  obtain rfl := Except.ok.inj (hroot.symm.trans hlocate)
  obtain rfl : ls = [["b"]] := by
    have hb {l : Location} : l ∈ ls ↔ l = ["b"] := by
      rw [hmem, isPresent_iff ht]
      constructor
      · rintro ⟨⟨hl, e, he, hne⟩, hnone⟩
        have hentry := hlookup (by simp) he
        simp only [Prod.mk.injEq, List.cons_append, List.nil_append, List.cons.injEq, true_and]
          at hentry
        obtain ⟨hl', -⟩ | ⟨rfl, -⟩ | ⟨hl', -⟩ := hentry
        · exact absurd hl' hl
        · exact absurd ⟨"a", by decide, hnames.2, hregular⟩ hnone
        · exact hl'
      · rintro rfl
        refine ⟨⟨by decide, _, rfl, by decide⟩, ?_⟩
        rintro ⟨input, hinput, haccepts, -⟩
        simp only [r, List.mem_cons, List.not_mem_nil, or_false] at hinput
        obtain rfl | rfl := hinput
        · exact absurd (hnames.1.symm.trans haccepts) (by decide)
        · exact absurd (hnames.2.symm.trans haccepts) (by decide)
    cases ls with
    | nil => cases hb.2 rfl
    | cons l ls =>
        obtain rfl := hb.1 List.mem_cons_self
        cases ls with
        | nil => rfl
        | cons l' ls =>
            obtain rfl := hb.1 (List.mem_cons_of_mem _ List.mem_cons_self)
            have hlt := (List.pairwise_cons.1 hsorted).1 _ List.mem_cons_self
            exact absurd hlt (List.lt_irrefl _)
  obtain ⟨h, -⟩ | ⟨-, w, rfl, -, hmessage⟩ := hleftover
  · cases h
  obtain ⟨⟨vs, hviolations, hvs⟩, -⟩ := hall r.inputs fun _ => Iff.rfl
  obtain ⟨⟨vs', hviolations', -⟩, -⟩ := hall ["a", "../x", "a"] (by simp [r, or_comm])
  refine ⟨⟨ht, hr, hlinks⟩, hstat, ?_⟩
  have hinside {input : String} {l names : Location} (hl : normalNames
      (append (Location.path ["s"]) input) = ["s"] ++ l)
      (h : normalNames (append (Location.path ["s"]) input) = names) : names = ["s"] ++ l :=
    h.symm.trans hl
  cases hvs with
  | accept h => simpa using hinside h.1 hnames.1
  | @refuse _ _ v vs _ hfault hrest =>
      have hcode : v.code = .inputOutsideSrcDir := by
        generalize v.code = code at hfault
        cases hfault with
        | outside => rfl
        | absent hl => simpa using hinside hl hnames.1
        | directory hl => simpa using hinside hl hnames.1
      cases hrest with
      | accept _ hnone =>
          cases hnone
          refine ⟨v, w, hviolations, hcode, ?_, vs', hviolations'⟩
          rw [hmessage]
          decide
      | @refuse _ _ v' _ _ hfault' =>
          generalize v'.code = code at hfault'
          cases hfault' with
          | outside h => exact absurd hnames.2 (h ["a"])
          | absent hl hnot =>
              obtain rfl := List.append_cancel_left (hinside hl hnames.2)
              exact absurd hregular hnot
          | directory hl hdir =>
              obtain rfl := List.append_cancel_left (hinside hl hnames.2)
              obtain ⟨content, executable, hfile⟩ := hregular
              have hsame := hfile.symm.trans hdir
              simp at hsame

end Deploy

end BuildGraph
