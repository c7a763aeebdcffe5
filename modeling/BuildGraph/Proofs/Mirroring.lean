import BuildGraph.Proofs.Batches
import Mathlib.Data.List.Infix

/-!
# Files that keep their paths

Files that are copied or minified keep their paths on the way from one directory to another.  Their
names are read from both directories, and a name in which no front has more `..` than names
(`Path.StaysBelow`) leaves neither, however deep they are: its route goes no directory up, since
the names that it has followed so far are those that no `..` took away (`Path.Route.foldl_balance`).
So the name in normal form stands behind each of the directories (`Path.StaysBelow.join_eq`), and
the two files of an edge lie below their directories under one path (`FileBatch.mirrors`).
-/

namespace BuildGraph

open Build

namespace Path

/-! ## Paths that stay in their directory -/

/-- Whether a component is a name. -/
def Component.isName : Component → Bool
  | .name _ => true
  | _ => false

/-- A relative path of which no front has more `..` than names. -/
def StaysBelow (p : String) : Prop :=
  isAbsolute p = false
    ∧ ∀ front, front <+: components p → front.count .up ≤ front.countP Component.isName

instance (p : String) : Decidable (StaysBelow p) :=
  decidable_of_iff (isAbsolute p = false ∧ ∀ front ∈ (components p).inits,
    front.count .up ≤ front.countP Component.isName) (by simp only [List.mem_inits, StaysBelow])

/-- What follows is left of the names after each `..` took one away, and no directory is left, if
this holds of every front. -/
theorem Route.foldl_balance {cs : List Component}
    (h : ∀ front, front <+: cs → front.count .up ≤ front.countP Component.isName) :
    (cs.foldl step {}).up = 0
      ∧ (cs.foldl step {}).down.length + cs.count .up = cs.countP Component.isName := by
  induction cs using List.reverseRecOn with
  | nil => exact ⟨rfl, rfl⟩
  | append_singleton cs c ih =>
      obtain ⟨hup, hdown⟩ := ih fun front hfront => h front (hfront.trans (List.prefix_append _ _))
      have hall := h (cs ++ [c]) List.prefix_rfl
      rw [List.count_append, List.countP_append] at hall ⊢
      rw [List.foldl_append, List.foldl_cons, List.foldl_nil]
      generalize cs.foldl step {} = r at hup hdown
      cases c with
      | root => exact ⟨hup, hdown⟩
      | here => exact ⟨hup, hdown⟩
      | up =>
          simp only [List.count_singleton_self, List.countP_singleton, Component.isName,
            Bool.false_eq_true, if_false] at hall ⊢
          -- The list itself is one of its fronts, so a name is left for this `..` to take away.
          have hne : r.down ≠ [] := by
            intro hnil
            rw [hnil, List.length_nil] at hdown
            omega
          have hpos : 0 < r.down.length := List.length_pos_iff.2 hne
          rw [step, if_neg hne]
          refine ⟨hup, ?_⟩
          simp only [List.length_dropLast]
          omega
      | name s =>
          have hcount : List.count Component.up [Component.name s] = 0 := rfl
          simp only [step, List.length_append, List.length_singleton, hcount,
            List.countP_singleton, Component.isName, if_true]
          exact ⟨hup, by omega⟩

/-- What a path in a directory reads below it: an empty path stands for the directory. -/
def followedBy (base rel : String) : String := if rel = "" then base else append base rel

theorem components_path {l : Location} (h : ∀ n ∈ l, IsEntryName n) :
    components l.path = .root :: l.map .name := by
  rw [components, isAbsolute_path, if_pos rfl]
  exact congrArg (Component.root :: ·) (moves_names h true).2

theorem ofComponents_names (names : List String) :
    ofComponents (names.map .name) = Text.join "/" names := by
  have htexts : (names.map Component.name).map Component.text = names := by
    rw [List.map_map]
    exact List.map_id names
  cases names with
  | nil => rfl
  | cons n names =>
      refine Eq.trans ?_ (congrArg (Text.join "/") htexts)
      rfl

/-- A location behind another lies below it under the path of the names that follow. -/
theorem below?_path {l names : Location} (hl : ∀ n ∈ l, IsEntryName n)
    (hnames : ∀ n ∈ names, IsEntryName n) :
    below? l.path (Location.path (l ++ names)) = some (Text.join "/" names) := by
  have hdrop : dropPrefix? (components l.path) (components (Location.path (l ++ names)))
      = some (names.map .name) := by
    rw [components_path hl, components_path (List.forall_mem_append.2 ⟨hl, hnames⟩),
      List.map_append]
    exact dropPrefix?_eq_some_iff.2 rfl
  rw [below?, hdrop, Option.map_some, ofComponents_names]

/-- Names behind a location. -/
theorem followedBy_path {l names : Location} (hl : ∀ n ∈ l, IsEntryName n)
    (hnames : ∀ n ∈ names, IsEntryName n) :
    followedBy l.path (Text.join "/" names) = Location.path (l ++ names) := by
  cases names with
  | nil => rw [followedBy, Text.join_nil, if_pos rfl, List.append_nil]
  | cons n names =>
      have hne : n ≠ "" := (hnames n List.mem_cons_self).ne_empty
      have htext : Text.join "/" (n :: names) ≠ "" := fun h =>
        hne (Text.eq_of_join_eq_empty (by decide) h).1
      have hrelative : isAbsolute (Text.join "/" (n :: names)) = false := by
        have hrender : render false (n :: names) = Text.join "/" (n :: names) :=
          String.empty_append
        rw [← hrender]
        exact (moves_names hnames false).1
      rw [followedBy, if_neg htext]
      exact append_render (fun n hn => ⟨(hl n hn).ne_empty, (hl n hn).no_slash⟩)
        (List.cons_ne_nil _ _) hrelative

namespace StaysBelow

variable {p : String}

theorem up_route (h : StaysBelow p) : (route p).up = 0 := (Route.foldl_balance h.2).1

theorem normalNames_eq_down (h : StaysBelow p) : normalNames p = (route p).down := by
  rw [normalNames_eq, h.1, Route.names, Route.settle, h.up_route]
  rfl

theorem isEntryName (h : StaysBelow p) : ∀ n ∈ normalNames p, IsEntryName n := by
  rw [h.normalNames_eq_down]
  exact isProper_route p

theorem normal_eq_join (h : StaysBelow p) : normal p = Text.join "/" (normalNames p) := by
  rw [normal, h.1]
  exact String.empty_append

/-- From an absolute directory such a path leads along its names. -/
theorem normalNames_append {base : String} (h : StaysBelow p) (hbase : isAbsolute base = true) :
    normalNames (append base p) = normalNames base ++ normalNames p := by
  rw [normalNames_append_eq_follow hbase h.1, Route.follow, h.up_route, h.normalNames_eq_down,
    Nat.sub_zero, List.take_length]

theorem join_eq_path {base : String} (h : StaysBelow p) (hbase : isAbsolute base = true) :
    join base p = Location.path (normalNames base ++ normalNames p) := by
  rw [join, ← path_normalNames (isAbsolute_append hbase p), h.normalNames_append hbase]

/-- Read from an absolute directory in normal form, such a path leads to the directory followed by
its own normal form, and lies below the directory under this. -/
theorem join_eq {base : String} (h : StaysBelow p) (hbase : isAbsolute base = true)
    (hnormal : normal base = base) : join base p = followedBy base (normal p)
      ∧ below? base (followedBy base (normal p)) = some (normal p) := by
  have hnames : ∀ n ∈ normalNames base, IsEntryName n :=
    fun n => isEntryName_of_mem_normalNames hbase
  have hpath : base = Location.path (normalNames base) := by
    rw [path_normalNames hbase, hnormal]
  have hfollowed : followedBy base (normal p)
      = Location.path (normalNames base ++ normalNames p) := by
    rw [← followedBy_path hnames h.isEntryName, ← hpath, h.normal_eq_join]
  rw [hfollowed, h.join_eq_path hbase]
  refine ⟨rfl, ?_⟩
  rw [h.normal_eq_join, ← below?_path hnames h.isEntryName, ← hpath]

/-- Two such paths lead from an absolute directory to one place just if their names are the same. -/
theorem join_inj {base q : String} (h : StaysBelow p) (hq : StaysBelow q)
    (hbase : isAbsolute base = true) :
    join base p = join base q ↔ normalNames p = normalNames q := by
  have hnames {r : String} (hr : StaysBelow r) :
      ∀ n ∈ normalNames base ++ normalNames r, IsEntryName n :=
    List.forall_mem_append.2 ⟨fun n => isEntryName_of_mem_normalNames hbase, hr.isEntryName⟩
  rw [h.join_eq_path hbase, hq.join_eq_path hbase, Location.path, Location.path,
    render_eq_iff (hnames h) (hnames hq), List.append_cancel_left_eq]

end StaysBelow

end Path

open BuildGraph.Path

/-! ## The files of a batch -/

/-- The inputs and the outputs of an edge. -/
def Edge.files (e : Edge) : List String × List String := (e.inputs, e.outputs)

namespace FileBatch

/-- The files of the edges, a name read from both directories for each. -/
def filesAt (t : FileBatch) (values : KeywordValues) : List (List String × List String) :=
  t.inputs.map fun input => ([join (t.source values) (input.textAt values)],
    [join (t.destination values) (input.textAt values)])

theorem files_edges (t : FileBatch) (kind : Target.Kind) (s : Session) :
    ((t.edges kind).run s).1.map Edge.files = t.filesAt s.keywords := by
  rw [edges_eq, List.map_map]
  rfl

/-- Copied and minified files have the same edges but for what these wait for. -/
theorem files_of_mem (t : FileBatch) (s : Session) {target : Target}
    (h : target ∈ [Target.copy t, .minify t]) :
    (target.edges.run s).1.map Edge.files = t.filesAt s.keywords := by
  simp only [List.mem_cons, List.not_mem_nil, or_false] at h
  obtain rfl | rfl := h
  · exact t.files_edges .copy s
  · obtain ⟨script, hminified⟩ : ∃ script, ((Target.minify t).edges.run s).1
        = ((t.edges .minify).run s).1.map fun e =>
          { e with implicits := e.implicits ++ [script] } := ⟨_, rfl⟩
    rw [hminified, List.map_map, ← t.files_edges .minify s]
    rfl

/-- Copied and minified files have one edge for each name, in order.  For a name that stays in its
directory the edge leads from the name in normal form behind the one directory to the name in normal
form behind the other, so that both files lie below their directories under one path; and of two
such names the outputs are the same just if the inputs are. -/
theorem mirrors (t : FileBatch) {s : Session} {inDir outDir : String}
    (hin : s.keywords .currentInputDir = some inDir) (hin' : isAbsolute inDir = true)
    (hout : s.keywords .currentOutputDir = some outDir) (hout' : isAbsolute outDir = true) :
    let source := join inDir ((t.inputDir.getD .empty).textAt s.keywords)
    let destination := join outDir ((t.outputDir.getD .empty).textAt s.keywords)
    ∀ target ∈ [Target.copy t, .minify t],
      let edges := (target.edges.run s).1
      edges.length = t.inputs.length
        ∧ (∀ (i : Nat) (input : Template), t.inputs[i]? = some input →
          StaysBelow (input.textAt s.keywords) →
            let path := normal (input.textAt s.keywords)
            ∃ e, edges[i]? = some e
              ∧ e.inputs = [followedBy source path] ∧ e.outputs = [followedBy destination path]
              ∧ below? source (followedBy source path) = some path
              ∧ below? destination (followedBy destination path) = some path)
        ∧ ∀ (i j : Nat) (input other : Template) (e e' : Edge),
          t.inputs[i]? = some input → StaysBelow (input.textAt s.keywords) →
            t.inputs[j]? = some other → StaysBelow (other.textAt s.keywords) →
              edges[i]? = some e → edges[j]? = some e' →
                (e.outputs = e'.outputs ↔ e.inputs = e'.inputs) := by
  intro source destination target htarget edges
  have hfiles : edges.map Edge.files = t.filesAt s.keywords := t.files_of_mem s htarget
  have hsource : t.source s.keywords = source := by
    rw [FileBatch.source, Keyword.textAt, hin, Option.getD_some]
  have hdestination : t.destination s.keywords = destination := by
    rw [FileBatch.destination, Keyword.textAt, hout, Option.getD_some]
  have hsource' : isAbsolute source = true := isAbsolute_join hin' _
  have hdestination' : isAbsolute destination = true := isAbsolute_join hout' _
  rw [filesAt, hsource, hdestination] at hfiles
  have hedge {i : Nat} {input : Template} (hinput : t.inputs[i]? = some input) :
      edges[i]?.map Edge.files = some ([join source (input.textAt s.keywords)],
        [join destination (input.textAt s.keywords)]) := by
    rw [← List.getElem?_map, hfiles, List.getElem?_map, hinput]
    rfl
  refine ⟨?_, fun i input hinput hstays => ?_, ?_⟩
  · simpa using congrArg List.length hfiles
  · obtain ⟨e, he, hpaths⟩ := Option.map_eq_some_iff.1 (hedge hinput)
    obtain ⟨hinputs, houtputs⟩ := Prod.mk.inj hpaths
    obtain ⟨hread, hreadBelow⟩ := hstays.join_eq hsource' (normal_normal _)
    obtain ⟨hput, hputBelow⟩ := hstays.join_eq hdestination' (normal_normal _)
    exact ⟨e, he, hread ▸ hinputs, hput ▸ houtputs, hreadBelow, hputBelow⟩
  · intro i j input other e e' hinput hstays hother hstays' he he'
    have hpaths := hedge hinput
    have hpaths' := hedge hother
    rw [he, Option.map_some, Option.some_inj] at hpaths
    rw [he', Option.map_some, Option.some_inj] at hpaths'
    obtain ⟨hinputs, houtputs⟩ := Prod.mk.inj hpaths
    obtain ⟨hinputs', houtputs'⟩ := Prod.mk.inj hpaths'
    rw [hinputs, houtputs, hinputs', houtputs', List.singleton_inj, List.singleton_inj,
      hstays.join_inj hstays' hdestination', hstays.join_inj hstays' hsource']

/-- Two spellings of one name, and a name that stands for the directory.  The last name leaves the
directory, so nothing is said about it. -/
theorem mirrors_of_spellings :
    let t : FileBatch := {
      inputs := [.literal "x/..//./a/b/../c/", .literal "a/c", .literal "a/..", .literal "../a"]
      outputDir := some (.literal "..") }
    let s := Session.ofInvocation "/site" "d/HAGA.lua" "haga" {} {}
    let edges := ((Target.minify t).edges.run s).1
    (s.keywords .currentInputDir = some "/site/d"
      ∧ s.keywords .currentOutputDir = some "/site/out/d"
      ∧ isAbsolute "/site/d" = true ∧ isAbsolute "/site/out/d" = true)
      ∧ (∀ name ∈ ["x/..//./a/b/../c/", "a/c", "a/.."], StaysBelow name) ∧ ¬StaysBelow "../a"
      ∧ edges.length = 4
      ∧ (∃ e, edges[0]? = some e ∧ e.inputs = ["/site/d/a/c"] ∧ e.outputs = ["/site/out/a/c"])
      ∧ (∃ e, edges[2]? = some e ∧ e.inputs = ["/site/d"] ∧ e.outputs = ["/site/out"])
      ∧ ∀ e e', edges[0]? = some e → edges[1]? = some e' → e.outputs = e'.outputs := by
  intro t s edges
  have hin : s.keywords .currentInputDir = some "/site/d" := by decide +kernel
  have hout : s.keywords .currentOutputDir = some "/site/out/d" := by decide +kernel
  have hstays : ∀ name ∈ ["x/..//./a/b/../c/", "a/c", "a/.."], StaysBelow name := by decide +kernel
  obtain ⟨hlength, hedge, hsame⟩ :=
    t.mirrors hin (by decide) hout (by decide) (.minify t) (by simp)
  obtain ⟨e, he, hinputs, houtputs, -⟩ := hedge 0 _ rfl (hstays _ (by decide))
  obtain ⟨other, hother, hread, -⟩ := hedge 1 _ rfl (hstays _ (by decide))
  obtain ⟨e', he', hinputs', houtputs', -⟩ := hedge 2 _ rfl (hstays _ (by decide))
  refine ⟨⟨hin, hout, by decide, by decide⟩, hstays, by decide +kernel, hlength,
    ⟨e, he, ?_, ?_⟩, ⟨e', he', ?_, ?_⟩, ?_⟩
  · rw [hinputs]
    decide +kernel
  · rw [houtputs]
    decide +kernel
  · rw [hinputs']
    decide +kernel
  · rw [houtputs']
    decide +kernel
  · intro d d' hd hd'
    refine (hsame 0 1 _ _ d d' rfl (hstays _ (by decide)) rfl (hstays _ (by decide)) hd hd').2 ?_
    rw [Option.some.inj (hd.symm.trans he), Option.some.inj (hd'.symm.trans hother), hinputs, hread]
    decide +kernel

end FileBatch

end BuildGraph
