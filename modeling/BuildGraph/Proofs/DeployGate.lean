import BuildGraph.Deploy.Transport
import BuildGraph.Proofs.Walks

/-!
# The gate of deployments

Nothing stands against a request exactly if its directory holds the declared files and no others,
each of them, links followed, a regular file (`Request.Exact`).  Only then is the transport asked
to copy, once.

A scan of the directory follows no links, but a declared file is looked at through them.  A file
that is reached through a link to a directory is declared and regular and yet no entry of the
scan.  A request that declares one is refused all the same, because the link itself is an entry
(`isPresent_of_isRegular`): the first entry on the way to the file that is no directory must be
declared and regular itself, and nothing can be reached through a regular file.

The directory of a request is where its absolute path without links leads (`Files.locate`).  It
has one whenever paths are short enough for the system (`Files.locate_of_resolve`).
-/

namespace BuildGraph

/-- Every directory can be listed. -/
def Files.IsReadable (fs : Files) : Prop :=
  ∀ l, fs.lookup l = some .directory → Deploy.canList l = true

namespace Deploy

open BuildGraph.Path

/-! ## What the gate asks for -/

/-- A scan of a directory that follows no links finds an entry that is no directory. -/
def IsPresent (fs : Files) (root l : Location) : Prop := ∃ e, fs.Scans root l e ∧ e ≠ .directory

/-- One of the declared files lies, without a look at any file, at a location from a directory. -/
def IsDeclared (root : Location) (inputs : List String) (l : Location) : Prop :=
  ∃ input ∈ inputs, normalNames (append root.path input) = root ++ l

/-- The path of a location names, links followed, a regular file. -/
def IsRegular (fs : Files) (l : Location) : Prop :=
  ∃ content executable, fs.stat l.path = .ok (.file content executable)

/-- The directory of a request, at a location without links, holds exactly the declared files. -/
structure Request.Exact (r : Request) (fs : Files) (root : Location) : Prop where
  located : fs.locate r.srcDir = .ok root
  directory : fs.lookup root = some .directory
  inside : ∀ input ∈ r.inputs, ∃ l, normalNames (append root.path input) = root ++ l
  present_iff : ∀ l, IsPresent fs root l ↔ IsDeclared root r.inputs l
  regular : ∀ l, IsPresent fs root l → IsRegular fs (root ++ l)

variable {fs : Files} {root l : Location} {inputs : List String}

/-! ## Present entries -/

theorem isPresent_iff (ht : fs.IsTree) :
    IsPresent fs root l
      ↔ l ≠ [] ∧ ∃ e, fs.lookup (root ++ l) = some e ∧ e ≠ .directory := by
  simp only [IsPresent, ht.scans_iff, and_assoc, exists_and_left]

theorem mem_listing (ht : fs.IsTree) {e : Entry} :
    (l, e) ∈ fs.listing root ↔ l ≠ [] ∧ fs.lookup (root ++ l) = some e := by
  rw [Files.listing, List.mem_mergeSort, List.mem_filterMap]
  constructor
  · rintro ⟨⟨m, e'⟩, hmem, hfound⟩
    split at hfound
    · next hdrop =>
        obtain ⟨rfl, rfl⟩ := Prod.mk.inj (Option.some.inj hfound)
        have hloc : m = root ++ _ := dropPrefix?_eq_some_iff.1 hdrop
        rw [hloc] at hmem
        exact ⟨List.cons_ne_nil _ _, (ht.mem_iff.1 hmem).2⟩
    · cases hfound
  · rintro ⟨hl, h⟩
    refine ⟨(root ++ l, e), Files.mem_of_lookup (by simp [hl]) h, ?_⟩
    rw [dropPrefix?_eq_some_iff.2 rfl]
    cases l with
    | nil => exact absurd rfl hl
    | cons => rfl

/-- What is above an entry can be listed. -/
theorem canList_dropLast (ht : fs.IsTree) (hr : fs.IsReadable) (hl : l ≠ []) {e : Entry}
    (h : fs.lookup (root ++ l) = some e) : canList (root ++ l.dropLast) = true := by
  have hparent := ht.lookup_dropLast h
  rw [List.dropLast_append_of_ne_nil hl] at hparent
  exact hr _ hparent

/-- An entry that is no directory is present if the directory that it lies in can be listed. -/
theorem mem_present_of_canList (ht : fs.IsTree) (h : IsPresent fs root l)
    (hlist : canList (root ++ l.dropLast) = true) : l ∈ present fs root := by
  obtain ⟨hl, e, he, hne⟩ := (isPresent_iff ht).1 h
  have hkind : e.isDirectory = false := by
    cases e with
    | directory => exact absurd rfl hne
    | file => rfl
    | link => rfl
    | special => rfl
  rw [present, List.mem_mergeSort, List.mem_map]
  exact ⟨(l, e), List.mem_filter.2 ⟨(mem_listing ht).2 ⟨hl, he⟩, by simp [hkind, hlist]⟩, rfl⟩

theorem mem_present (ht : fs.IsTree) (hr : fs.IsReadable) :
    l ∈ present fs root ↔ IsPresent fs root l := by
  constructor
  · intro h
    rw [present, List.mem_mergeSort, List.mem_map] at h
    obtain ⟨⟨m, e⟩, hmem, rfl⟩ := h
    obtain ⟨hlist, hkind⟩ := List.mem_filter.1 hmem
    obtain ⟨hl, h⟩ := (mem_listing ht).1 hlist
    refine (isPresent_iff ht).2 ⟨hl, e, h, ?_⟩
    rintro rfl
    cases hkind
  · intro h
    obtain ⟨hl, e, he, -⟩ := (isPresent_iff ht).1 h
    exact mem_present_of_canList ht h (canList_dropLast ht hr hl he)

theorem unlisted_eq_nil (ht : fs.IsTree) (hr : fs.IsReadable) : unlisted fs root = [] := by
  rw [unlisted, List.filterMap_eq_nil_iff]
  rintro ⟨m, e⟩ hmem
  obtain ⟨-, h⟩ := (mem_listing ht).1 hmem
  cases e with
  | directory => simp [hr _ h]
  | file => rfl
  | link => rfl
  | special => rfl

/-! ## Declared files -/

theorem locateInput_eq_ok_iff {input : String} :
    locateInput fs root input = .ok l
      ↔ normalNames (append root.path input) = root ++ l ∧ IsRegular fs (root ++ l) := by
  rw [locateInput]
  constructor
  · intro h
    split at h
    · cases h
    · next relative hdrop =>
        have hnames := dropPrefix?_eq_some_iff.1 hdrop
        split at h
        · cases h
        · cases h
        · next content executable hstat =>
            obtain rfl := Except.ok.inj h
            rw [hnames] at hstat
            exact ⟨hnames, content, executable, hstat⟩
        · cases h
  · rintro ⟨hnames, content, executable, hstat⟩
    simp only [hnames, dropPrefix?_eq_some_iff.2 rfl, hstat]

theorem inputViolations_eq_nil_iff :
    inputViolations fs root inputs = []
      ↔ ∀ input ∈ inputs, ∃ l, locateInput fs root input = .ok l := by
  rw [inputViolations, List.filterMap_eq_nil_iff]
  refine forall_congr' fun input => forall_congr' fun _ => ?_
  cases locateInput fs root input with
  | error => simp
  | ok => simp

theorem mem_accepted :
    l ∈ accepted fs root inputs ↔ IsDeclared root inputs l ∧ IsRegular fs (root ++ l) := by
  have hok {input : String} : (locateInput fs root input).toOption = some l
      ↔ locateInput fs root input = .ok l := by
    cases locateInput fs root input with
    | error => simp [Except.toOption]
    | ok => simp [Except.toOption]
  rw [accepted, List.mem_filterMap]
  constructor
  · rintro ⟨input, hinput, h⟩
    obtain ⟨hnames, hregular⟩ := locateInput_eq_ok_iff.1 (hok.1 h)
    exact ⟨⟨input, hinput, hnames⟩, hregular⟩
  · rintro ⟨⟨input, hinput, hnames⟩, hregular⟩
    exact ⟨input, hinput, hok.2 (locateInput_eq_ok_iff.2 ⟨hnames, hregular⟩)⟩

theorem unexpected_eq_nil_iff :
    unexpected fs root inputs = []
      ↔ ∀ l ∈ present fs root, IsDeclared root inputs l ∧ IsRegular fs (root ++ l) := by
  rw [unexpected, List.filter_eq_nil_iff]
  refine forall_congr' fun l => forall_congr' fun _ => ?_
  rw [decide_eq_true_iff, Decidable.not_not, mem_accepted]

theorem rootViolations_eq_nil_iff :
    rootViolations fs root inputs = []
      ↔ unlisted fs root = [] ∧ inputViolations fs root inputs = []
        ∧ unexpected fs root inputs = [] := by
  rw [rootViolations, List.append_eq_nil_iff, List.append_eq_nil_iff, and_assoc]
  cases unexpected fs root inputs with
  | nil => simp
  | cons => simp

/-- Nothing stands against a request if its directory has a location and nothing stands against
that. -/
theorem violations_eq_nil_iff_root {r : Request} :
    r.violations fs = []
      ↔ ∃ root, fs.locate r.srcDir = .ok root ∧ fs.lookup root = some .directory
        ∧ rootViolations fs root r.inputs = [] := by
  constructor
  · intro h
    rw [Request.violations] at h
    split at h
    · cases h
    · next e hstat =>
        split at h
        · cases h
        · next hdir =>
            split at h
            · cases h
            · next root hlocate =>
                obtain ⟨e', hstat', he⟩ := Files.exists_stat_of_locate hlocate
                obtain rfl := Except.ok.inj (hstat.symm.trans hstat')
                refine ⟨root, hlocate, ?_, h⟩
                cases e with
                | directory => exact he
                | file => exact absurd rfl hdir
                | link => exact absurd rfl hdir
                | special => exact absurd rfl hdir
  · rintro ⟨root, hlocate, hdir, h⟩
    obtain ⟨e, hstat, he⟩ := Files.exists_stat_of_locate hlocate
    obtain rfl := Option.some.inj (he.symm.trans hdir)
    simp only [Request.violations, hstat, hlocate]
    exact h

/-! ## Declared files are present -/

/-- If every present entry is a regular file, whatever is a regular file is present, also what is
reached through links. -/
theorem isPresent_of_isRegular (ht : fs.IsTree) (hroot : fs.lookup root = some .directory)
    (hpresent : ∀ l, IsPresent fs root l → IsRegular fs (root ++ l))
    (hnames : ∀ n ∈ root ++ l, IsEntryName n) (hl : IsRegular fs (root ++ l)) :
    IsPresent fs root l := by
  obtain ⟨content, executable, hstat⟩ := hl
  obtain ⟨m, hwalk, hm⟩ := Files.walk_of_stat_path hnames hstat
  obtain ⟨-, hdir⟩ | ⟨front, back, e, hsplit, he, hne⟩ :=
    hwalk.directory_or_prefix hnames (Files.lookup_root fs)
  · rw [hm] at hdir
    cases hdir
  · rw [List.nil_append] at he
    obtain ⟨inner, rfl, rfl⟩ | ⟨outer, rfl, rfl⟩ := List.append_eq_append_iff.1 hsplit
    · have hinner : inner ≠ [] := by
        rintro rfl
        rw [List.append_nil, hroot] at he
        exact hne (Option.some.inj he).symm
      have hfound : IsPresent fs root inner := (isPresent_iff ht).2 ⟨hinner, e, he, hne⟩
      obtain ⟨content', executable', hstat'⟩ := hpresent inner hfound
      have hnames' : ∀ n ∈ root ++ inner, IsEntryName n := ht.isEntryName_of_lookup he
      obtain ⟨m', hwalk', hm'⟩ := Files.walk_of_stat_path hnames' hstat'
      obtain ⟨left, hleft⟩ := hwalk'.walk_append
      cases back with
      | nil => rwa [List.append_nil]
      | cons n back =>
          -- Nothing lies behind the regular file to which the first entry leads.
          have hfile : fs.lookup m' ≠ some .directory := by
            rw [hm']
            exact fun h => Entry.noConfusion (Option.some.inj h)
          have hgone := hleft (n :: back)
          rw [Files.walk_of_not_directory hfile, List.append_assoc,
            Files.walk_eq_ok_iff.2 hwalk] at hgone
          cases hgone
    · exfalso
      have hfront : fs.lookup front = some .directory := by
        cases outer with
        | nil => rwa [List.append_nil] at hroot
        | cons n outer => exact ht.lookup_of_append (List.cons_ne_nil n outer) hroot
      rw [hfront] at he
      exact hne (Option.some.inj he).symm

/-- The names of a declared file are names of entries. -/
theorem IsDeclared.isEntryName (h : IsDeclared root inputs l) : ∀ n ∈ root ++ l, IsEntryName n := by
  obtain ⟨input, -, hnames⟩ := h
  intro n hn
  rw [← hnames] at hn
  exact isEntryName_of_mem_normalNames (isAbsolute_append (isAbsolute_path root) input) hn

/-- Nothing stands against a request exactly if its directory holds the declared files. -/
theorem violations_eq_nil_iff_exact (ht : fs.IsTree) (hr : fs.IsReadable) (r : Request) :
    r.violations fs = [] ↔ ∃ root, r.Exact fs root := by
  rw [violations_eq_nil_iff_root]
  constructor
  · rintro ⟨root, hlocate, hdir, h⟩
    obtain ⟨-, hinputs, hunexpected⟩ := rootViolations_eq_nil_iff.1 h
    rw [inputViolations_eq_nil_iff] at hinputs
    rw [unexpected_eq_nil_iff] at hunexpected
    simp only [mem_present ht hr] at hunexpected
    have hregular : ∀ l, IsPresent fs root l → IsRegular fs (root ++ l) :=
      fun l hl => (hunexpected l hl).2
    refine ⟨root, hlocate, hdir, ?inside, fun l => ⟨fun hl => (hunexpected l hl).1, ?declared⟩,
      hregular⟩
    case inside =>
      intro input hinput
      obtain ⟨l, hl⟩ := hinputs input hinput
      exact ⟨l, (locateInput_eq_ok_iff.1 hl).1⟩
    case declared =>
      intro hl
      have hentry := hl.isEntryName
      obtain ⟨input, hinput, hnames⟩ := hl
      obtain ⟨l', hl'⟩ := hinputs input hinput
      obtain ⟨hnames', hfile⟩ := locateInput_eq_ok_iff.1 hl'
      obtain rfl := List.append_cancel_left (hnames'.symm.trans hnames)
      exact isPresent_of_isRegular ht hdir hregular hentry hfile
  · rintro ⟨root, hexact⟩
    refine ⟨root, hexact.located, hexact.directory, rootViolations_eq_nil_iff.2
      ⟨unlisted_eq_nil ht hr, inputViolations_eq_nil_iff.2 ?_, unexpected_eq_nil_iff.2 ?_⟩⟩
    · intro input hinput
      obtain ⟨l, hl⟩ := hexact.inside input hinput
      have hpresent := (hexact.present_iff l).2 ⟨input, hinput, hl⟩
      exact ⟨l, locateInput_eq_ok_iff.2 ⟨hl, hexact.regular l hpresent⟩⟩
    · intro l hl
      have hpresent := (mem_present ht hr).1 hl
      exact ⟨(hexact.present_iff l).1 hpresent, hexact.regular l hpresent⟩

/-! ## Calls of the transport -/

/-- A transport that also keeps what it was asked to copy. -/
def Transport.recorded {m : Type → Type} [Monad m] (t : Transport m) :
    Transport (StateT (List (String × String)) m) where
  copyOver src dst := do
    modify (· ++ [(src, dst)])
    StateT.lift (t.copyOver src dst)

/-- The transport is asked once, for the directory and the destination of the request, or never. -/
theorem run_carryOut_recorded {m : Type → Type} [Monad m] [LawfulMonad m] (t : Transport m)
    (fs : Files) (r : Request) (calls : List (String × String)) :
    (r.carryOut t.recorded fs).run calls
      = if r.violations fs = [] then
          (fun result => (result, calls ++ [(r.srcDir, r.dstDir)]))
            <$> t.copyOver r.srcDir r.dstDir
        else pure (.error (.refused (r.violations fs)), calls) := by
  by_cases h : r.violations fs = []
  · rw [if_pos h, Request.carryOut, h]
    simp [Transport.recorded]
  · rw [if_neg h, Request.carryOut_of_violations_ne_nil t.recorded h, StateT.run_pure]

/-- The gate opens exactly for requests whose directory holds the declared files, and whatever
transport stands behind it is asked once if it opens and never otherwise. -/
theorem Request.gate_iff_exact (ht : fs.IsTree) (hr : fs.IsReadable) (r : Request) :
    (r.violations fs = [] ↔ ∃ root, r.Exact fs root)
      ∧ ∀ {m : Type → Type} [Monad m] [LawfulMonad m] (t : Transport m)
          (calls : List (String × String)),
        (r.carryOut t.recorded fs).run calls
          = if r.violations fs = [] then
              (fun result => (result, calls ++ [(r.srcDir, r.dstDir)]))
                <$> t.copyOver r.srcDir r.dstDir
            else pure (.error (.refused (r.violations fs)), calls) :=
  ⟨violations_eq_nil_iff_exact ht hr r, fun t calls => run_carryOut_recorded t fs r calls⟩

/-- A link stands beside the file that it leads to; both are declared, the file with
dots that lead through a directory that is not there. -/
theorem Request.gate_iff_exact_of_link :
    let fs : Files := {
      entries := [
        (["s"], .directory),
        (["s", "a"], .file .empty false),
        (["s", "b"], .link "../s/a")] }
    let r : Request := {
      inputs := ["c/../a", "b"]
      srcDir := "/s"
      dstDir := "host:/srv" }
    (fs.IsTree ∧ fs.IsReadable) ∧ r.violations fs = [] := by
  intro fs r
  have ht : fs.IsTree := by constructor <;> decide
  have hlookup {l : Location} {e : Entry} (hl : l ≠ []) (h : fs.lookup l = some e) :
      (l, e) = (["s"], .directory) ∨ (l, e) = (["s", "a"], .file .empty false)
        ∨ (l, e) = (["s", "b"], .link "../s/a") := by
    simpa [fs] using Files.mem_of_lookup hl h
  have hr : fs.IsReadable := by
    intro l h
    by_cases hl : l = []
    · rw [hl]
      decide
    · obtain h | h | h := hlookup hl h
      · rw [(Prod.mk.inj h).1]
        decide
      · cases (Prod.mk.inj h).2
      · cases (Prod.mk.inj h).2
  have hfile : fs.Walks false 40 [] ["s", "a"] ["s", "a"] :=
    .enter rfl (by decide) (by decide) (by decide) rfl (by simp)
      (.enter rfl (by decide) (by decide) (by decide) rfl (by simp) .done)
  have hlink : fs.Walks false 40 [] ["s", "b"] ["s", "a"] :=
    .enter rfl (by decide) (by decide) (by decide) rfl (by simp)
      (.follow rfl (by decide) (by decide) (by decide) rfl
        (.up rfl (.enter rfl (by decide) (by decide) (by decide) rfl (by simp)
          (.enter rfl (by decide) (by decide) (by decide) rfl (by simp) .done))))
  have hroot : fs.locate "/s" = .ok ["s"] := by
    have hs : fs.Walks true 40 [] ["", "s"] ["s"] :=
      .stay rfl (by decide) (.enter rfl (by decide) (by decide) (by decide) rfl (by simp) .done)
    exact Files.locate_eq_ok_iff.2 ⟨⟨_, Files.stat_of_walks rfl hs.byName rfl⟩, hs⟩
  have hnames : normalNames (append (Location.path ["s"]) "c/../a") = ["s", "a"]
      ∧ normalNames (append (Location.path ["s"]) "b") = ["s", "b"] := by decide
  have hdeclared {l : Location} : IsDeclared ["s"] r.inputs l ↔ l = ["a"] ∨ l = ["b"] := by
    simp [IsDeclared, r, hnames, eq_comm]
  have hpresent {l : Location} : IsPresent fs ["s"] l ↔ l = ["a"] ∨ l = ["b"] := by
    rw [isPresent_iff ht]
    constructor
    · rintro ⟨hl, e, h, hne⟩
      have hentry := hlookup (by simp) h
      simp only [Prod.mk.injEq, List.cons_append, List.nil_append, List.cons.injEq, true_and]
        at hentry
      obtain ⟨hl', -⟩ | ⟨hl', -⟩ | ⟨hl', -⟩ := hentry
      · exact absurd hl' hl
      · exact .inl hl'
      · exact .inr hl'
    · rintro (rfl | rfl)
      · exact ⟨by decide, _, rfl, by decide⟩
      · exact ⟨by decide, _, rfl, by decide⟩
  have hregular {l : Location} (h : IsPresent fs ["s"] l) : IsRegular fs (["s"] ++ l) := by
    obtain rfl | rfl := hpresent.1 h
    · exact ⟨.empty, false, Files.stat_of_walks rfl (.stay rfl (by decide) hfile) rfl⟩
    · exact ⟨.empty, false, Files.stat_of_walks rfl (.stay rfl (by decide) hlink) rfl⟩
  have hexact : r.Exact fs ["s"] := {
    located := hroot
    directory := rfl
    inside := by
      intro input hinput
      simp only [r, List.mem_cons, List.not_mem_nil, or_false] at hinput
      obtain rfl | rfl := hinput
      · exact ⟨["a"], hnames.1⟩
      · exact ⟨["b"], hnames.2⟩
    present_iff := fun l => hpresent.trans hdeclared.symm
    regular := fun l => hregular }
  exact ⟨⟨ht, hr⟩, (gate_iff_exact ht hr r).1.2 ⟨_, hexact⟩⟩

end Deploy

end BuildGraph
