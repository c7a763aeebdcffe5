import BuildGraph.Proofs.Invocations
import BuildGraph.Proofs.Repeating

/-!
# Descriptions by their names

A run opens its description under the path as it is written, but the path that it names for the
description, under which it is to run again, is the normal form.  What a `..` means is not the same
in both: in the normal form it takes away the name before it, and on a walk it leads to the
directory above, which is another one if the name before it is that of a link.

If no `..` of a path leaves a link (`Files.LeavesNoLink`), the normal form leads where the path
leads (`Files.locate_normal`).  The proof follows the walk along the path and keeps the names that
are left so far: from the root they lead to where the walk is, along no more links than it has
followed (`Files.Walks.leads_names`).  Then a run on the named description does what the first one
did (`Generated.ofFile_by_name`).  Behind a link it may find nothing
(`Generated.not_ofFile_by_name_of_link`).
-/

namespace BuildGraph

/-! ## Parts of joined texts -/

/-- Texts of which some are left out make a text of which characters are left out. -/
theorem Text.toList_join_sublist (sep : String) {ss ts : List String} (h : ss.Sublist ts) :
    (join sep ss).toList.Sublist (join sep ts).toList := by
  induction h with
  | slnil => exact List.Sublist.refl _
  | @cons ss ts t h ih =>
      cases ts with
      | nil =>
          rw [List.sublist_nil.1 h]
          exact List.nil_sublist _
      | cons u ts =>
          rw [join_cons_cons, String.toList_append]
          exact ih.trans (List.sublist_append_right _ _)
  | @cons_cons ss ts t h ih =>
      cases ts with
      | nil => rw [List.sublist_nil.1 h]
      | cons u ts =>
          rw [join_cons_cons, String.toList_append, String.toList_append, List.append_assoc]
          cases ss with
          | nil => exact List.sublist_append_left _ _
          | cons s ss =>
              rw [join_cons_cons, String.toList_append, String.toList_append, List.append_assoc]
              exact (List.Sublist.refl _).append ((List.Sublist.refl _).append ih)

namespace Path

/-! ## Parts of paths -/

theorem ofPiece?_of_idle {x : String} (h : x = "" ∨ x = ".") : ofPiece? x = none := if_pos h

theorem ofPiece?_of_name {x : String} (hdot : ¬(x = "" ∨ x = ".")) (hdots : x ≠ "..") :
    ofPiece? x = some (.name x) := by
  rw [ofPiece?, if_neg hdot, if_neg hdots]

theorem step_up_sublist (names : List String) : (step true names .up).Sublist names := by
  rw [step]
  split
  · exact List.nil_sublist _
  · exact List.dropLast_sublist _

/-- The names that remain of some names and pieces are among them. -/
theorem foldl_step_sublist (names xs : List String) :
    ((xs.filterMap ofPiece?).foldl (step true) names).Sublist (names ++ xs) := by
  induction xs generalizing names with
  | nil => exact List.sublist_append_left _ _
  | cons x xs ih =>
      have hskip : (names ++ xs).Sublist (names ++ x :: xs) :=
        (List.Sublist.refl _).append (List.sublist_cons_self _ _)
      by_cases hdot : x = "" ∨ x = "."
      · rw [List.filterMap_cons_none (ofPiece?_of_idle hdot)]
        exact (ih names).trans hskip
      · by_cases hdots : x = ".."
        · have hof : ofPiece? x = some .up := hdots ▸ by decide
          rw [List.filterMap_cons_some hof, List.foldl_cons]
          have hup := (step_up_sublist names).append (List.Sublist.refl xs)
          exact (ih _).trans (hup.trans hskip)
        · rw [List.filterMap_cons_some (ofPiece?_of_name hdot hdots), List.foldl_cons,
            List.append_cons]
          exact ih (names ++ [x])

/-- The normal form of an absolute path is the path with characters left out. -/
theorem toList_normal_sublist {p : String} (h : isAbsolute p = true) :
    (normal p).toList.Sublist p.toList := by
  cases hpieces : pieces p with
  | nil => exact absurd (List.map_eq_nil_iff.1 hpieces) (Text.cut_ne_nil '/' _)
  | cons piece rest =>
      obtain ⟨rfl, hrest⟩ := (isAbsolute_of_pieces_eq hpieces).1 h
      have hnames : (normalNames p).Sublist rest := by
        have hfold := foldl_step_sublist [] rest
        rwa [normalNames_eq_foldl, h, moves, hpieces]
      obtain ⟨n, rest, rfl⟩ := List.exists_cons_of_ne_nil hrest
      have hp : p.toList = '/' :: (Text.join "/" (n :: rest)).toList := by
        rw [← join_pieces p, hpieces, Text.join_cons_cons, String.empty_append,
          String.toList_append]
        rfl
      rw [← path_normalNames h, toList_path, hp]
      exact (Text.toList_join_sublist "/" hnames).cons_cons '/'

end Path

open BuildGraph.Path

namespace Files

variable {fs : Files} {byPath : Bool} {links n left : Nat} {here m l : Location}
  {names xs ys : List String} {p : String}

/-! ## Links that are left -/

/-- The last of some names is that of a link, in the directory to which the others lead from the
root. -/
def EndsInLink (fs : Files) (names : List String) : Prop :=
  ∃ dirs name dir target, names = dirs ++ [name] ∧ fs.walk false maxLinks [] dirs = .ok dir
    ∧ fs.lookup (dir ++ [name]) = some (.link target)

/-- No `..` of an absolute path leaves a link: the last of the names that remain before it is that
of no link. -/
def LeavesNoLink (fs : Files) (p : String) : Prop :=
  ∀ front back, pieces p = front ++ ".." :: back →
    ¬fs.EndsInLink (reduce true (front.filterMap ofPiece?))

/-- Where the last of some names is that of no link, the names before it lead to the directory above
the one to which they all lead. -/
theorem Leads.up (h : fs.Leads true n [] names here) (hn : n ≤ maxLinks)
    (hnames : ∀ s ∈ names, isIdle s = false ∧ s ≠ "..") (hlink : ¬fs.EndsInLink names) :
    ∃ k ≤ n, fs.Leads true k [] (step true names .up) here.dropLast := by
  have hwalks : fs.Walks true n [] names here := h.walks le_rfl
  obtain rfl | ⟨dirs, name, rfl⟩ := List.eq_nil_or_concat names
  · cases hwalks
    exact ⟨0, Nat.zero_le n, leads_nil⟩
  · rw [List.concat_eq_append] at hnames hlink hwalks ⊢
    obtain ⟨hidle, hdots⟩ := hnames name (List.mem_append_right _ (List.mem_singleton.2 rfl))
    rw [step, if_neg (List.concat_ne_nil name dirs), List.dropLast_concat]
    obtain ⟨dir, k, left, rfl, hdirs, hname⟩ := hwalks.exists_leads_append
    cases hname with
    | stay _ hpiece =>
        rw [isIdle_iff.2 hpiece] at hidle
        cases hidle
    | up => exact absurd rfl hdots
    | enter _ _ _ _ _ _ hdone =>
        cases hdone
        rw [List.dropLast_concat]
        exact ⟨k, Nat.le_add_right k left, hdirs⟩
    | follow _ _ _ _ he =>
        have hdir := (hdirs.walks ((Nat.le_add_right k _).trans hn)).byName
        exact absurd ⟨dirs, name, dir, _, rfl, walk_eq_ok_iff.2 hdir, he⟩ hlink

/-- A walk that has come to where some names lead comes to where the names lead that remain of them
and its pieces, if it leaves no link. -/
theorem Walks.leads_names (h : fs.Walks true left here xs l)
    (hnames : fs.Leads true n [] names here) (hn : n + left ≤ maxLinks)
    (hentries : ∀ s ∈ names, isIdle s = false ∧ s ≠ "..")
    (hlinks : ∀ front back, xs = front ++ ".." :: back →
      ¬fs.EndsInLink ((front.filterMap ofPiece?).foldl (step true) names)) :
    ∃ k ≤ maxLinks, fs.Leads true k [] ((xs.filterMap ofPiece?).foldl (step true) names) l := by
  induction xs generalizing names here left n with
  | nil =>
      cases h
      exact ⟨n, (Nat.le_add_right n left).trans hn, hnames⟩
  | cons x xs ih =>
      have hrest : ∀ front back, xs = front ++ ".." :: back →
          ¬fs.EndsInLink (((x :: front).filterMap ofPiece?).foldl (step true) names) :=
        fun front back hsplit => hlinks (x :: front) back (congrArg (x :: ·) hsplit)
      have hentry {s : String} (hdot : ¬(s = "" ∨ s = ".")) (hdots : s ≠ "..") :
          ofPiece? s = some (.name s) ∧ ∀ t ∈ names ++ [s], isIdle t = false ∧ t ≠ ".." := by
        refine ⟨ofPiece?_of_name hdot hdots,
          List.forall_mem_append.2 ⟨hentries, List.forall_mem_singleton.2 ⟨?_, hdots⟩⟩⟩
        rwa [← Bool.not_eq_true, isIdle_iff]
      cases h with
      | stay _ hpiece h =>
          have hof := ofPiece?_of_idle hpiece
          simp only [List.filterMap_cons, hof] at hrest ⊢
          exact ih h hnames hn hentries hrest
      | up _ h =>
          have hof : ofPiece? ".." = some .up := by decide
          simp only [List.filterMap_cons, hof, List.foldl_cons] at hrest ⊢
          obtain ⟨k, hk, hup⟩ := hnames.up ((Nat.le_add_right n left).trans hn) hentries
            (hlinks [] xs rfl)
          exact ih h hup ((Nat.add_le_add_right hk left).trans hn)
            (fun s hs => hentries s ((step_up_sublist names).subset hs)) hrest
      | enter hdir hdot hdots hlook he hlink h =>
          obtain ⟨hof, hentries⟩ := hentry hdot hdots
          simp only [List.filterMap_cons, hof, List.foldl_cons] at hrest ⊢
          have hname : fs.Leads true 0 here [x] (here ++ [x]) := fun left rest => by
            rw [Nat.zero_add]
            exact walk_enter rest hdir hdot hdots hlook he hlink
          exact ih h (hnames.append hname) hn hentries hrest
      | follow hdir hdot hdots hlook he h =>
          obtain ⟨hof, hentries⟩ := hentry hdot hdots
          simp only [List.filterMap_cons, hof, List.foldl_cons] at hrest ⊢
          obtain ⟨m, k, left, rfl, htarget, h⟩ := h.exists_leads_append
          have hname : fs.Leads true (k + 1) here [x] m := fun left rest => by
            rw [Nat.add_right_comm]
            exact (walk_follow rest hdir hdot hdots hlook he).trans (htarget left rest)
          refine ih h (hnames.append hname) ?_ hentries hrest
          omega

/-- The normal form of a path of which no `..` leaves a link leads where the path leads. -/
theorem locate_normal (hp : isAbsolute p = true) (hlinks : fs.LeavesNoLink p)
    (h : fs.locate p = .ok l) : fs.locate (normal p) = .ok l := by
  obtain ⟨e, hstat, he⟩ := exists_stat_of_locate h
  obtain ⟨m, hresolve, -⟩ := stat_eq_ok_iff.1 hstat
  obtain ⟨-, hwalks⟩ := locate_eq_ok_iff.1 h
  rw [start, if_pos hp] at hwalks
  obtain ⟨k, hk, hlead⟩ := hwalks.leads_names leads_nil (Nat.zero_add maxLinks).le
    (List.forall_mem_nil _) hlinks
  have hnormal : fs.Walks true maxLinks [] (pieces (normal p)) l := by
    have hnames : ∀ s ∈ normalNames p, IsEntryName s := fun s => isEntryName_of_mem_normalNames hp
    rw [← walk_eq_ok_iff, ← path_normalNames hp, walk_pieces_path hnames, walk_eq_ok_iff,
      normalNames_eq_foldl, hp]
    exact hlead.walks hk
  have hcheck : checkPath (normal p) = .ok () := by
    refine checkPath_of_sublist (resolve_eq_ok_iff.1 hresolve).1 (toList_normal_sublist hp) ?_
    rw [← path_normalNames hp]
    exact path_ne_empty _
  exact locate_of_walks ((isAbsolute_normal p).trans hp) hcheck hnormal he

end Files

/-! ## Descriptions -/

namespace Description

variable {fs : Files} {modulePath path path' : String} {d : Description}

/-- A description that is loaded lies somewhere. -/
theorem exists_locate_of_load (h : load fs modulePath path = .ok d) :
    ∃ l, fs.locate path = .ok l ∧ (evaluateFile fs modulePath path).bind ofValue = .ok d := by
  rw [load] at h
  split at h
  · cases hvalue : (evaluateFile fs modulePath path).bind ofValue with
    | error cause =>
        rw [hvalue] at h
        cases h
    | ok d' =>
        rw [hvalue] at h
        cases hlocate : fs.locate path with
        | ok l => exact ⟨l, rfl, congrArg Except.ok (Except.ok.inj h)⟩
        | error cause =>
            rw [evaluateFile, Files.canonicalize, hlocate] at hvalue
            cases hvalue
  · cases h

/-- What is loaded does not depend on the path under which it is found. -/
theorem load_of_locate_eq (h : load fs modulePath path = .ok d)
    (hsame : fs.locate path' = fs.locate path) : load fs modulePath path' = .ok d := by
  obtain ⟨l, hl, hvalue⟩ := exists_locate_of_load h
  have hl' : fs.locate path' = .ok l := hsame.trans hl
  have hexists : fs.pathExists path' = true :=
    Files.pathExists_iff.2 (Files.locate_eq_ok_iff.1 hl').1
  have heval : evaluateFile fs modulePath path' = evaluateFile fs modulePath path := by
    rw [evaluateFile, evaluateFile, Files.canonicalize, Files.canonicalize, hl, hl']
    rfl
  rw [load, if_pos hexists, heval, hvalue]
  rfl

end Description

/-! ## A description beside a directory that a link leads to -/

namespace Files

/-- A directory with a description and another directory, to which a link leads from the root. -/
def linked : Files where
  entries := [(["d"], .directory), (["d", "s"], .directory),
    (["d", "H"], .file "return\x7btargets=\x7b\x7d\x7d".toUTF8 false), (["l"], .link "d/s")]

theorem walks_linked : linked.Walks true links [] ["d", "s", "..", "H"] ["d", "H"] :=
  .enter rfl (by decide) (by decide) (by decide +kernel) rfl (fun _ => Entry.noConfusion)
    (.enter rfl (by decide) (by decide) (by decide +kernel) rfl (fun _ => Entry.noConfusion)
      (.up rfl (.enter rfl (by decide) (by decide) (by decide +kernel) rfl
        (fun _ => Entry.noConfusion) .done)))

theorem leavesNoLink_linked : linked.LeavesNoLink "/d/s/../H" := by
  have hpieces : pieces "/d/s/../H" = ["", "d", "s", "..", "H"] := by decide +kernel
  intro front back hsplit
  rw [hpieces] at hsplit
  obtain ⟨rfl, -⟩ : front = ["", "d", "s"] ∧ back = ["H"] := by
    simpa [List.cons_eq_append_iff] using hsplit
  rintro ⟨dirs, name, dir, target, hnames, hdir, hlink⟩
  obtain ⟨rfl, hname⟩ := List.append_inj' (show ["d"] ++ ["s"] = dirs ++ [name] from hnames) rfl
  obtain rfl := List.singleton_inj.1 hname
  rw [walk_enter [] rfl (by decide) (by decide) (by decide +kernel) rfl
    (fun _ => Entry.noConfusion), walk] at hdir
  obtain rfl := Except.ok.inj hdir
  exact absurd (Option.some.inj hlink) Entry.noConfusion

/-- The detour through the directory leads to the description. -/
theorem locate_linked_detour : linked.locate "/d/s/../H" = .ok ["d", "H"] := by
  have hpieces : pieces "/d/s/../H" = ["", "d", "s", "..", "H"] := by decide +kernel
  refine locate_of_walks (by decide) (by decide +kernel) ?_ rfl
  rw [hpieces]
  exact .stay rfl (.inl rfl) walks_linked

end Files

/-- The description is loaded under every path that leads to it. -/
theorem Description.load_linked {path : String} (h : Files.linked.locate path = .ok ["d", "H"]) :
    load Files.linked "" path = .ok {} := by
  have hcanonical : Files.linked.canonicalize path = .ok "/d/H" := by
    rw [Files.canonicalize, h]
    decide +kernel
  have hnormal : normal "/d/s/../H" = "/d/H" := by decide +kernel
  have hfile := Files.locate_normal (by decide) Files.leavesNoLink_linked Files.locate_linked_detour
  obtain ⟨e, hstat, he⟩ := Files.exists_stat_of_locate (hnormal ▸ hfile)
  obtain rfl := Option.some.inj he
  exact (load_of_text hcanonical (Files.readText_of_stat hstat) (by decide +kernel)).1

/-! ## Runs on named descriptions -/

namespace Generated

variable {fs : Files} {modulePath cwd file command : String} {tools : Toolset} {g : Generated}

/-- A run on the path that a run names for its description has the same directories and commands.
So it has the outcome of the first run exactly if the file of this path holds a description that
has it there; this is so if the path leads to the file that the first run opened, and it leads there
if no `..` of the path as it was written leaves a link. -/
theorem ofFile_by_name (hcwd : isAbsolute cwd = true)
    (hfirst : ofFile fs modulePath cwd file command tools = .ok g) :
    ∃ named,
      Session.invocationKeywords cwd file command tools .descriptionFile = some named
        ∧ (ofFile fs modulePath cwd named command tools = .ok g
          ↔ ∃ d, Description.load fs modulePath named = .ok d
            ∧ ofRun (d.graph.run (Session.ofInvocation cwd file command tools fs)) = g)
        ∧ (fs.locate named = fs.locate (append cwd file) →
          ofFile fs modulePath cwd named command tools = .ok g)
        ∧ (fs.LeavesNoLink (append cwd file) →
          fs.locate named = fs.locate (append cwd file)) := by
  have hnamed : append cwd (join cwd file) = join cwd file :=
    append_of_isAbsolute (isAbsolute_join hcwd file) cwd
  have hsession : Session.ofInvocation cwd (join cwd file) command tools fs
      = Session.ofInvocation cwd file command tools fs := by
    rw [Session.ofInvocation, Session.ofInvocation, Session.invocationKeywords_join hcwd]
  have hiff : ofFile fs modulePath cwd (join cwd file) command tools = .ok g
      ↔ ∃ d, Description.load fs modulePath (join cwd file) = .ok d
        ∧ ofRun (d.graph.run (Session.ofInvocation cwd file command tools fs)) = g := by
    constructor
    · intro h
      obtain ⟨d, hload⟩ := exists_load_of_ofFile h
      rw [ofFile_of_load hload, hsession] at h
      exact ⟨d, hnamed ▸ hload, Except.ok.inj h⟩
    · rintro ⟨d, hload, hg⟩
      rw [ofFile_of_load (hnamed.symm ▸ hload), hsession, hg]
  obtain ⟨d, hload⟩ := exists_load_of_ofFile hfirst
  rw [ofFile_of_load hload] at hfirst
  refine ⟨join cwd file, rfl, hiff, fun hsame => ?_, fun hlinks => ?_⟩
  · exact hiff.2 ⟨d, Description.load_of_locate_eq hload hsame, Except.ok.inj hfirst⟩
  · obtain ⟨l, hl, -⟩ := Description.exists_locate_of_load hload
    rw [hl]
    exact Files.locate_normal (isAbsolute_append hcwd file) hlinks hl

/-- On a detour through a directory the description keeps its name. -/
theorem ofFile_by_name_of_detour :
    isAbsolute "/" = true ∧ Files.linked.LeavesNoLink (append "/" "d/s/../H")
      ∧ ∃ g, ofFile Files.linked "" "/" "d/s/../H" "h" {} = .ok g
        ∧ ofFile Files.linked "" "/" "/d/H" "h" {} = .ok g := by
  have hcwd : isAbsolute "/" = true := by decide
  have hpath : append "/" "d/s/../H" = "/d/s/../H" := by decide +kernel
  have hlinks : Files.linked.LeavesNoLink (append "/" "d/s/../H") :=
    hpath ▸ Files.leavesNoLink_linked
  have hload : Description.load Files.linked "" (append "/" "d/s/../H") = .ok {} :=
    hpath ▸ Description.load_linked Files.locate_linked_detour
  obtain ⟨g, hfirst⟩ : ∃ g, ofFile Files.linked "" "/" "d/s/../H" "h" {} = .ok g :=
    ⟨_, ofFile_of_load hload⟩
  obtain ⟨named, hnamed, -, hagain, hsame⟩ := ofFile_by_name hcwd hfirst
  obtain rfl : named = "/d/H" := Option.some.inj (hnamed.symm.trans (by decide +kernel))
  exact ⟨hcwd, hlinks, g, hfirst, hagain (hsame hlinks)⟩

/-- Behind a link a description is opened, and nothing lies at the path that is named for it. -/
theorem not_ofFile_by_name_of_link :
    isAbsolute "/" = true ∧ normal "/" = "/"
      ∧ (∃ g, ofFile Files.linked "" "/" "l/../H" "h" {} = .ok g)
      ∧ Session.invocationKeywords "/" "l/../H" "h" {} .descriptionFile = some "/H"
      ∧ ofFile Files.linked "" "/" "/H" "h" {} = .error (.notFound "/H") := by
  have hpath : append "/" "l/../H" = "/l/../H" := by decide +kernel
  have hlocate : Files.linked.locate "/l/../H" = .ok ["d", "H"] := by
    have hpieces : pieces "/l/../H" = ["", "l", "..", "H"] := by decide +kernel
    have htarget : pieces "d/s" = ["d", "s"] := by decide +kernel
    refine Files.locate_of_walks (by decide) (by decide +kernel) ?_ rfl
    rw [hpieces]
    refine .stay rfl (.inl rfl) (.follow rfl (by decide) (by decide) (by decide +kernel) rfl ?_)
    rw [htarget]
    exact Files.walks_linked
  have hload : Description.load Files.linked "" (append "/" "l/../H") = .ok {} :=
    hpath ▸ Description.load_linked hlocate
  have hmissing : Files.linked.pathExists "/H" = false := by
    have hpieces : pieces "/H" = [""] ++ ["H"] := by decide +kernel
    have hfree : Files.linked.Vacant "/H" ["H"] false :=
      Files.vacant_of_pieces rfl hpieces (by decide) (by decide) (by decide +kernel) rfl rfl
    exact hfree.pathExists_eq_false
  have hfailed : ofFile Files.linked "" "/" "/H" "h" {} = .error (.notFound "/H") := by
    have hnamed : append "/" "/H" = "/H" := by decide +kernel
    unfold ofFile Description.load
    rw [hnamed, hmissing]
    rfl
  exact ⟨by decide, by decide +kernel, ⟨_, ofFile_of_load hload⟩, by decide +kernel, hfailed⟩

end Generated

end BuildGraph
