import BuildGraph.Proofs.DeployGate
import BuildGraph.Proofs.Invocations

/-!
# Timestamps of deployments

The file that says when a deployment was last carried out lies beside the directory that is
deployed: the suffix stands behind the last name of the directory's path, and there is such a name
unless the directory is the root (`Path.exists_withSuffix`).  So neither is the path of the file the
one of the directory nor does it lie below (`Path.beside_path`).

This is said of texts, but the directory may be found through links.  If its path is that of a link
to a directory around this link, the timestamp is put among the files that are deployed.  But so is
the link, which is no regular file (`Deploy.not_isRegular_of_walks`), and the gate is closed for
such a directory.  Where the gate is open, what is put at the path of the timestamp, if nothing lies
there, is found by no scan of the directory (`Deploy.not_prefix_of_vacant`), and the gate stays open
(`Deploy.Request.violations_of_extends`).  A link that lies at this path itself is not meant here:
it leads wherever it leads.
-/

namespace BuildGraph

open BuildGraph.Path

/-! ## What is put elsewhere -/

/-- What does not lie below a directory is found by no scan of it. -/
theorem Files.listing_insert_of_not_prefix (fs : Files) {root l : Location} (h : ¬root <+: l)
    (e : Entry) : (fs.insert l e).listing root = fs.listing root := by
  have hout {m : Location} (hm : m = l) : dropPrefix? root m = none := by
    rw [Option.eq_none_iff_forall_ne_some]
    intro rest hrest
    exact h ⟨rest, hm ▸ (dropPrefix?_eq_some_iff.1 hrest).symm⟩
  unfold listing insert
  refine congrArg (List.mergeSort · _) ?_
  rw [List.filterMap_cons_none (by rw [hout rfl]), List.filterMap_filter]
  refine List.filterMap_congr fun found _ => ?_
  by_cases hl : found.1 = l
  · rw [if_neg (by simp [hl]), hout hl]
  · rw [if_pos (by simpa using hl)]

namespace Deploy

variable {fs more : Files} {root dir l : Location} {name : String}

theorem IsRegular.mono (h : IsRegular fs l) (hgrows : fs.Extends more) : IsRegular more l := by
  obtain ⟨content, executable, hstat⟩ := h
  exact ⟨content, executable, hgrows.stat_eq hstat⟩

/-- Nothing comes to stand against a request as files grow elsewhere. -/
theorem Request.violations_of_extends {r : Request} (h : r.violations fs = [])
    (hgrows : fs.Extends more) (hroot : fs.locate r.srcDir = .ok root)
    (hsame : more.listing root = fs.listing root) : r.violations more = [] := by
  obtain ⟨root', hroot', hdir, hnone⟩ := violations_eq_nil_iff_root.1 h
  obtain rfl : root = root' := Except.ok.inj (hroot.symm.trans hroot')
  obtain ⟨hunlisted, hinputs, hunexpected⟩ := rootViolations_eq_nil_iff.1 hnone
  refine violations_eq_nil_iff_root.2 ⟨root, hgrows.locate_eq hroot, hgrows.lookup_eq hdir,
    rootViolations_eq_nil_iff.2 ⟨?unlisted, ?inputs, ?unexpected⟩⟩
  case unlisted => rwa [unlisted, hsame]
  case inputs =>
    rw [inputViolations_eq_nil_iff] at hinputs ⊢
    intro input hinput
    obtain ⟨l, hl⟩ := hinputs input hinput
    obtain ⟨hnames, hregular⟩ := locateInput_eq_ok_iff.1 hl
    exact ⟨l, locateInput_eq_ok_iff.2 ⟨hnames, hregular.mono hgrows⟩⟩
  case unexpected =>
    have hpresent : present more root = present fs root := by rw [present, hsame, present]
    rw [unexpected_eq_nil_iff] at hunexpected ⊢
    rw [hpresent]
    intro l hl
    obtain ⟨hdeclared, hregular⟩ := hunexpected l hl
    exact ⟨hdeclared, hregular.mono hgrows⟩

/-! ## Links to directories around them -/

/-- What can be looked at by its absolute path lies where entries can be listed. -/
theorem canList_of_canLook (h : Files.canLook true dir name = true) : canList dir = true := by
  cases dir with
  | nil => decide
  | cons n dir =>
      have hpath : Location.path (n :: dir ++ [name])
          = Location.path (n :: dir) ++ ("/" ++ name) := by
        rw [Location.path, Location.path, render, render, Text.join_append, Text.join_singleton]
        simp only [String.append_assoc]
      simp only [Files.canLook, Bool.not_true, Bool.false_or, Bool.and_eq_true,
        decide_eq_true_eq] at h
      rw [hpath, String.utf8ByteSize_append] at h
      rw [canList, decide_eq_true_iff]
      omega

/-- A name that leads to a directory is none of a regular file. -/
theorem not_isRegular_of_walks (ht : fs.IsTree) (hdir : fs.lookup dir = some .directory)
    (hname : IsEntryName name) {left : Nat} (h : fs.Walks false left dir [name] root)
    (hroot : fs.lookup root = some .directory) : ¬IsRegular fs (dir ++ [name]) := by
  rintro ⟨content, executable, hstat⟩
  have hnames : ∀ n ∈ dir ++ [name], IsEntryName n :=
    List.forall_mem_append.2 ⟨ht.isEntryName_of_lookup hdir, List.forall_mem_singleton.2 hname⟩
  obtain ⟨l, hwalks, hl⟩ := Files.walk_of_stat_path hnames hstat
  obtain ⟨here, left', hfront, hlast⟩ := hwalks.split
  obtain rfl : here = dir := by
    have hends : fs.walk false Files.maxLinks [] dir = .ok dir
        ∨ fs.walk false Files.maxLinks [] dir = .error .nameTooLong :=
      ht.walk_directories (show fs.lookup ([] ++ dir) = _ from hdir)
    obtain hwalk | hwalk := hends
    · exact hfront.unique (Files.walk_eq_ok_iff.1 hwalk)
    · rw [Files.walk_eq_ok_iff.2 hfront] at hwalk
      cases hwalk
  rw [hlast.unique h, hroot] at hl
  cases hl

/-- Where the present entries of a directory are regular files, no place in the directory of its
path lies below it. -/
theorem not_prefix_of_walks (ht : fs.IsTree) (hdir : fs.lookup dir = some .directory)
    {other : String} (hname : IsEntryName name) (hne : name ≠ other) {left : Nat}
    (h : fs.Walks true left dir [name] root) (hroot : fs.lookup root = some .directory)
    (hregular : ∀ m ∈ present fs root, IsRegular fs (root ++ m))
    (hnone : fs.lookup (dir ++ [other]) = none) : ¬root <+: dir ++ [other] := by
  rintro ⟨inner, hinner⟩
  cases id h with
  | stay _ hpiece => exact hpiece.elim hname.ne_empty hname.ne_dot
  | up => exact hname.ne_dots rfl
  | enter _ _ _ _ _ _ hdone =>
      cases hdone
      rw [List.append_assoc, List.append_cancel_left_eq] at hinner
      exact hne (List.cons.inj hinner).1
  | @follow _ _ _ _ target _ _ _ _ hlook hlink _ =>
      obtain rfl | ⟨front, n, rfl⟩ := List.eq_nil_or_concat inner
      · rw [List.append_nil] at hinner
        rw [← hinner, hroot] at hnone
        cases hnone
      · rw [List.concat_eq_append, ← List.append_assoc] at hinner
        obtain ⟨rfl, -⟩ := List.append_inj' hinner rfl
        -- The link lies below the directory to which it leads.
        have hpresent : front ++ [name] ∈ present fs root := by
          refine mem_present_of_canList ht ((isPresent_iff ht).2 ⟨List.concat_ne_nil name front,
            .link target, ?_, Entry.noConfusion⟩) ?_
          · rw [← List.append_assoc, hlink]
          · rw [List.dropLast_concat]
            exact canList_of_canLook hlook
        have hfile := hregular _ hpresent
        rw [← List.append_assoc] at hfile
        exact not_isRegular_of_walks ht hdir hname h.byName hroot hfile

/-- So no free path beside the path of the directory leads below it. -/
theorem not_prefix_of_vacant (ht : fs.IsTree) {base : Location} {other : String} {slash : Bool}
    (hbase : ∀ n ∈ base, IsEntryName n) (hname : IsEntryName name) (hother : IsEntryName other)
    (hne : name ≠ other) (hlocate : fs.locate (Location.path (base ++ [name])) = .ok root)
    (hroot : fs.lookup root = some .directory)
    (hregular : ∀ m ∈ present fs root, IsRegular fs (root ++ m))
    (hvacant : fs.Vacant (Location.path (base ++ [other])) l slash) : ¬root <+: l := by
  obtain ⟨dir, last, hplace, rfl, hnone⟩ := hvacant
  have hplaced := Files.Placed.of_place hplace
  rw [← append_path hbase hother] at hplaced
  obtain ⟨rfl, -, -⟩ := hplaced.of_append (path_ne_empty base) hother
  have hnames : ∀ n ∈ base ++ [name], IsEntryName n :=
    List.forall_mem_append.2 ⟨hbase, List.forall_mem_singleton.2 hname⟩
  have hbefore : fs.Walks false Files.maxLinks [] base dir :=
    Files.walks_of_resolve_path hbase (hplaced.resolve_base (path_ne_empty base) hother)
  have hwhole : fs.Walks true Files.maxLinks [] (base ++ [name]) root :=
    Files.walks_of_locate_path hnames hlocate
  obtain ⟨m, left, hm, hlast⟩ := hwhole.split
  obtain rfl : m = dir := hm.byName.unique hbefore
  exact not_prefix_of_walks ht hplaced.directory hname hne hlast hroot hregular hnone

end Deploy

/-! ## Names beside others -/

namespace Path

/-- Two names in one directory. -/
theorem beside_path {dir : Location} {name other : String} (hdir : ∀ n ∈ dir, IsEntryName n)
    (hname : IsEntryName name) (hother : IsEntryName other) (hne : name ≠ other) :
    parent? (Location.path (dir ++ [name])) = some dir.path
      ∧ parent? (Location.path (dir ++ [other])) = some dir.path
      ∧ Location.path (dir ++ [other]) ≠ Location.path (dir ++ [name])
      ∧ below? (Location.path (dir ++ [name])) (Location.path (dir ++ [other])) = none := by
  have hentry {n : String} (hn : IsEntryName n) : ∀ m ∈ dir ++ [n], IsEntryName m :=
    List.forall_mem_append.2 ⟨hdir, List.forall_mem_singleton.2 hn⟩
  have hapart : ¬dir ++ [name] <+: dir ++ [other] := by
    rw [List.prefix_append_right_inj, List.singleton_prefix_cons_iff]
    exact hne
  refine ⟨parent?_path hdir hname, parent?_path hdir hother, fun hsame => ?_,
    below?_path_eq_none (hentry hname) (hentry hother) hapart⟩
  rw [path_inj (hentry hother) (hentry hname)] at hsame
  exact hapart (hsame ▸ List.prefix_rfl)

theorem IsTail.ne_append {suffix : String} (h : IsTail suffix) (name : String) :
    name ≠ name ++ suffix := by
  obtain ⟨c, hc, -⟩ := h.busy
  intro hsame
  have hlength := congrArg String.length hsame
  have hpositive := List.length_pos_of_mem hc
  rw [String.length_append, ← String.length_toList (s := suffix)] at hlength
  omega

/-- A suffix of a final path other than the root stands behind its last name. -/
theorem exists_withSuffix {p : String} (hp : IsFinal p) (hroot : p ≠ "/") (suffix : String) :
    ∃ (dir : Location) (name : String), (∀ n ∈ dir, IsEntryName n) ∧ IsEntryName name
      ∧ p = Location.path (dir ++ [name])
      ∧ withSuffix p suffix = Location.path (dir ++ [name ++ suffix]) := by
  obtain ⟨l, hl, rfl⟩ := isFinal_iff.1 hp
  obtain rfl | ⟨dir, name, rfl⟩ := List.eq_nil_or_concat l
  · exact absurd rfl hroot
  · rw [List.concat_eq_append] at hl ⊢
    obtain ⟨hdir, hname⟩ := List.forall_mem_append.1 hl
    have hnormal : normal (Location.path (dir ++ [name])) = Location.path (dir ++ [name]) := by
      rw [← path_normalNames (isAbsolute_path _), normalNames_path hl]
    refine ⟨dir, name, hdir, List.forall_mem_singleton.1 hname, rfl, ?_⟩
    rw [withSuffix, hnormal, Location.path, render_append, extendLast_concat, Location.path]

end Path

/-! ## The timestamp -/

namespace Deployment

theorem sourcePath_eq (t : Deployment) (values : KeywordValues) : t.sourcePath values
    = join (Keyword.currentOutputDir.textAt values) (t.srcDir.textAt values) := by
  rw [sourcePath, Template.valueAt_pathIn, Template.textAt_ofKeyword]

theorem isTail_timestampSuffix : IsTail timestampSuffix := by decide

/-- A deployment that has edges, of a directory that is not the root, has its timestamp beside this
directory and not below it.  Whenever the gate is open for the directory and nothing lies at the
path of the timestamp, what is put there does not lie below the directory either: the directory
lies where it did, a scan of it finds what it found, and the gate stays open. -/
theorem timestamp_beside_source (t : Deployment) (s : Session)
    (hout : isAbsolute (Keyword.currentOutputDir.textAt s.keywords) = true)
    (hedges : (t.edges.run s).1 ≠ []) (hroot : t.sourcePath s.keywords ≠ "/") :
    let src := t.sourcePath s.keywords
    let timestamp := withSuffix src timestampSuffix
    src = join (Keyword.currentOutputDir.textAt s.keywords) (t.srcDir.textAt s.keywords)
      ∧ (∃ sync name, (t.edges.run s).1 = [sync, name] ∧ sync.rule = Target.Kind.rsync.name
        ∧ sync.outputs = [timestamp])
      ∧ (∃ dir, parent? src = some dir ∧ parent? timestamp = some dir)
      ∧ timestamp ≠ src ∧ below? src timestamp = none
      ∧ ∀ (fs : Files) (r : Deploy.Request), fs.IsTree → r.srcDir = src → r.violations fs = [] →
        ∀ l slash, fs.Vacant timestamp l slash → ∀ e, ∃ root, fs.locate src = .ok root
          ∧ ¬root <+: l ∧ (fs.insert l e).locate src = .ok root
          ∧ (fs.insert l e).listing root = fs.listing root
          ∧ r.violations (fs.insert l e) = [] := by
  intro src timestamp
  have hsrc : src = join _ _ := t.sourcePath_eq s.keywords
  have hfinal : IsFinal src := hsrc ▸ isFinal_join hout _
  obtain ⟨dir, name, hdir, hname, hpath, htimestamp⟩ :=
    exists_withSuffix hfinal hroot timestampSuffix
  have hother : IsEntryName (name ++ timestampSuffix) :=
    isTail_timestampSuffix.isEntryName hname.no_slash
  have hne : name ≠ name ++ timestampSuffix := isTail_timestampSuffix.ne_append name
  obtain ⟨hparent, hparent', hapart, hbelow⟩ := beside_path hdir hname hother hne
  rw [← hpath] at hparent
  rw [← htimestamp] at hparent'
  rw [← htimestamp, ← hpath] at hapart hbelow
  obtain ⟨sync, rest, hcons⟩ := List.exists_cons_of_ne_nil hedges
  obtain ⟨destination, -, -, rfl, rfl⟩ := t.edges_eq_cons hcons
  refine ⟨hsrc, ⟨_, _, hcons, rfl, rfl⟩, ⟨dir.path, hparent, hparent'⟩, hapart, hbelow, ?_⟩
  intro fs r ht hr hopen l slash hvacant e
  obtain ⟨root, hlocate, hdirectory, hnone⟩ := Deploy.violations_eq_nil_iff_root.1 hopen
  have hunexpected := (Deploy.rootViolations_eq_nil_iff.1 hnone).2.2
  have hregular := fun m hm => (Deploy.unexpected_eq_nil_iff.1 hunexpected m hm).2
  have helsewhere : ¬root <+: l := by
    rw [hr, hpath] at hlocate
    rw [show timestamp = _ from htimestamp] at hvacant
    exact Deploy.not_prefix_of_vacant ht hdir hname hother hne hlocate hdirectory hregular hvacant
  have hgrows : fs.Extends (fs.insert l e) := .of_insert hvacant.lookup_eq_none e
  have hsame := fs.listing_insert_of_not_prefix helsewhere e
  have hstays := Deploy.Request.violations_of_extends hopen hgrows hlocate hsame
  rw [hr] at hlocate
  exact ⟨root, hlocate, helsewhere, hgrows.locate_eq hlocate, hsame, hstays⟩

/-- The directory is found through a link, beside which the timestamp is made. -/
theorem timestamp_beside_source_of_link :
    let t : Deployment := {
      name := "deploy"
      inputs := ["a"]
      srcDir := .literal "x/..//pub/."
      config := .literal "config"
      dstDir := .literal "host:/srv" }
    let s := Session.ofInvocation "/" "HAGA.lua" "haga" {}
      (({} : Files).insert ["config"] (Deploy.Config.entry "host:/var"))
    let fs : Files := {
      entries := [
        (["data"], .directory),
        (["data", "a"], .file .empty false),
        (["out"], .directory),
        (["out", "pub"], .link "../data")] }
    let r : Deploy.Request := {
      inputs := ["a"]
      srcDir := "/out/pub"
      dstDir := "host:/var" }
    (∃ sync name, (t.edges.run s).1 = [sync, name] ∧ sync.outputs = ["/out/pub.timestamp"])
      ∧ (∃ dir, parent? "/out/pub" = some dir ∧ parent? "/out/pub.timestamp" = some dir)
      ∧ below? "/out/pub" "/out/pub.timestamp" = none
      ∧ fs.Vacant "/out/pub.timestamp" ["out", "pub.timestamp"] false
      ∧ r.violations fs = []
      ∧ r.violations (fs.insert ["out", "pub.timestamp"] (.file .empty false)) = [] := by
  intro t s fs r
  have hsrc : t.sourcePath s.keywords = "/out/pub" := by decide +kernel
  have htimestamp : withSuffix "/out/pub" timestampSuffix = "/out/pub.timestamp" := by
    decide +kernel
  have hedges : (t.edges.run s).1 ≠ [] := by
    have hconfig : t.configPath s.keywords = "/config" := by decide +kernel
    have hpieces : pieces "/config" = [""] ++ ["config"] := by decide +kernel
    have hfree : ({} : Files).Vacant "/config" ["config"] false :=
      Files.vacant_of_pieces rfl hpieces (by decide) (by decide) (by decide +kernel) rfl rfl
    have hfound : t.destination s = .ok (.found "host:/var") := by
      rw [destination, hconfig, Deploy.Destination.obtain_of_stat
        (hfree.stat_insert (Deploy.Config.entry_ne_link "host:/var")), if_pos (by decide)]
    rw [edges_eq, hfound]
    exact List.cons_ne_nil _ _
  have ht : fs.IsTree := by constructor <;> decide
  have hvacant : fs.Vacant "/out/pub.timestamp" ["out", "pub.timestamp"] false := by
    have hpieces : pieces "/out/pub.timestamp" = ["", "out"] ++ ["pub.timestamp"] := by
      decide +kernel
    have hwalks : fs.Walks false Files.maxLinks [] ["", "out"] ["out"] :=
      .stay rfl (.inl rfl) (.enter rfl (by decide) (by decide) (by decide) rfl (by simp) .done)
    exact Files.vacant_of_walks rfl hpieces hwalks (by decide) (by decide +kernel) rfl rfl
  have hopen : r.violations fs = [] := by
    have hlink : fs.Walks true 40 [] ["", "out", "pub"] ["data"] :=
      .stay rfl (.inl rfl) (.enter rfl (by decide) (by decide) (by decide) rfl (by simp)
        (.follow rfl (by decide) (by decide) (by decide) rfl
          (.up rfl (.enter rfl (by decide) (by decide) (by decide) rfl (by simp) .done))))
    have hroot : fs.locate "/out/pub" = .ok ["data"] := Files.locate_of_walks rfl rfl hlink rfl
    have hfile : fs.Walks false 40 [] ["", "data", "a"] ["data", "a"] :=
      .stay rfl (.inl rfl) (.enter rfl (by decide) (by decide) (by decide) rfl (by simp)
        (.enter rfl (by decide) (by decide) (by decide) rfl (by simp) .done))
    have hlisting : fs.listing ["data"] = [(["a"], .file .empty false)] :=
      List.mergeSort_singleton _
    have hlist : Deploy.canList ["data"] = true := by decide +kernel
    have hregular : Deploy.IsRegular fs ["data", "a"] :=
      ⟨.empty, false, Files.stat_of_walks rfl hfile rfl⟩
    have hnames : normalNames (append (Location.path ["data"]) "a") = ["data", "a"] := by
      decide +kernel
    refine Deploy.violations_eq_nil_iff_root.2 ⟨["data"], hroot, rfl,
      Deploy.rootViolations_eq_nil_iff.2 ⟨?_, Deploy.inputViolations_eq_nil_iff.2 ?_,
        Deploy.unexpected_eq_nil_iff.2 ?_⟩⟩
    · simp [Deploy.unlisted, hlisting, Entry.isDirectory]
    · intro input hinput
      obtain rfl := List.mem_singleton.1 hinput
      exact ⟨["a"], Deploy.locateInput_eq_ok_iff.2 ⟨hnames, hregular⟩⟩
    · intro l hl
      obtain rfl : l = ["a"] := by
        simpa [Deploy.present, hlisting, Entry.isDirectory, hlist] using hl
      exact ⟨⟨"a", List.mem_singleton.2 rfl, hnames⟩, hregular⟩
  have hbeside := timestamp_beside_source t s (by decide +kernel) hedges (by rw [hsrc]; decide)
  simp only [hsrc, htimestamp] at hbeside
  obtain ⟨-, ⟨sync, name, hboth, -, houtputs⟩, hparent, -, hbelow, hstays⟩ := hbeside
  obtain ⟨root, -, -, -, -, hopen'⟩ := hstays fs r ht rfl hopen _ _ hvacant (.file .empty false)
  exact ⟨⟨sync, name, hboth, houtputs⟩, hparent, hbelow, hvacant, hopen, hopen'⟩

end Deployment

end BuildGraph
