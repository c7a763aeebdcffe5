import BuildGraph.Proofs.Directories

/-!
# Routes

Wherever a relative path is read, it leaves some directories and then follows some names: that is
its route (`Path.route`).  From an absolute directory the path leads where its route leads from
there (`Path.normalNames_append_eq_follow`).

A normal form keeps less than the route.  In a relative path a `..` that was kept is taken away by
the next one, so of the directories that the path leaves only one is left if their number is odd,
and none if it is even (`Path.Route.settle`).  Every step respects what is kept
(`Path.Route.names_settle_step`), so a normal form is its own normal form, and a path that is read
from a directory in normal form is read from the directory (`Path.normal_append_normal`).  But
bringing the path itself to normal form first changes where it leads, with one exact exception
(`Path.KeepsPlace`).
-/

namespace BuildGraph.Path

/-! ## Pieces of joined paths -/

theorem pieces_append_slash (base name : String) :
    pieces (base ++ "/" ++ name) = pieces base ++ pieces name := by
  have hlist : (base ++ "/" ++ name).toList = base.toList ++ '/' :: name.toList := by simp
  simp only [pieces, hlist, Text.cut_append_cons, List.map_append]

/-- The components of a path that lead somewhere: all but the root and a leading `.`. -/
def moves (p : String) : List Component := (pieces p).filterMap ofPiece?

theorem moves_append_slash (base name : String) :
    moves (base ++ "/" ++ name) = moves base ++ moves name := by
  simp only [moves, pieces_append_slash, List.filterMap_append]

/-- A relative path is read behind the one of its directory. -/
theorem moves_append {name : String} (h : isAbsolute name = false) (base : String) :
    moves (append base name) = moves base ++ moves name := by
  rw [append, if_neg (by simp [h])]
  by_cases hbase : base = ""
  · simp [hbase, show moves "" = [] from rfl]
  by_cases hslash : Text.endsWith base '/' = true
  · obtain ⟨cs, hcs⟩ := List.getLast?_eq_some_iff.1 (by simpa [Text.endsWith] using hslash)
    obtain rfl : base = String.ofList cs ++ "/" := by
      rw [← String.toList_inj, hcs]
      simp
    have hself : moves (String.ofList cs ++ "/") = moves (String.ofList cs) := by
      have h := moves_append_slash (String.ofList cs) ""
      rwa [String.append_empty, show moves "" = [] from rfl, List.append_nil] at h
    rw [if_pos (.inr hslash), moves_append_slash, hself]
  · rw [if_neg (by simp [hbase, hslash]), moves_append_slash]

theorem isAbsolute_append_of_not {name : String} (h : isAbsolute name = false) (base : String) :
    isAbsolute (append base name) = isAbsolute base := by
  cases hbase : isAbsolute base with
  | true => exact isAbsolute_append hbase name
  | false =>
      rw [append, if_neg (by simp [h])]
      cases hlist : base.toList with
      | nil =>
          obtain rfl : base = "" := String.toList_eq_nil_iff.1 hlist
          simpa using h
      | cons c cs =>
          have hc : c ≠ '/' := by
            rintro rfl
            rw [isAbsolute, hlist] at hbase
            cases hbase
          split <;> simp [isAbsolute, hlist, hc]

theorem filterMap_ofPiece?_of_isEntryName {names : List String}
    (h : ∀ n ∈ names, IsEntryName n) : names.filterMap ofPiece? = names.map .name := by
  induction names with
  | nil => rfl
  | cons n names ih =>
      obtain ⟨⟨hempty, hdot, hdots, -⟩, hrest⟩ := List.forall_mem_cons.1 h
      simp [ofPiece?, hempty, hdot, hdots, ih hrest]

/-- What does not move may be left out of a fold over the components of a path. -/
theorem foldl_components {α : Type} {f : α → Component → α} (hroot : ∀ a, f a .root = a)
    (hhere : ∀ a, f a .here = a) (a : α) (p : String) :
    (components p).foldl f a = (moves p).foldl f a := by
  unfold components
  simp only
  split
  · rw [List.foldl_cons, hroot]
    rfl
  · split
    · rw [List.foldl_cons, hhere]
      rfl
    · rfl

theorem normalNames_eq_foldl (p : String) :
    normalNames p = (moves p).foldl (step (isAbsolute p)) [] :=
  foldl_components (fun _ => rfl) (fun _ => rfl) [] p

theorem normalNames_append {name : String} (h : isAbsolute name = false) (base : String) :
    normalNames (append base name)
      = (moves name).foldl (step (isAbsolute base)) (normalNames base) := by
  rw [normalNames_eq_foldl, isAbsolute_append_of_not h, moves_append h, List.foldl_append,
    ← normalNames_eq_foldl]

/-! ## Routes -/

/-- What a relative path says wherever it is read: the number of directories to leave, and the
names to follow then. -/
structure Route where
  up : Nat := 0
  down : List String := []
  deriving DecidableEq

namespace Route

/-- A route with one more component. -/
def step (r : Route) : Component → Route
  | .root => r
  | .here => r
  | .up => if r.down = [] then { r with up := r.up + 1 } else { r with down := r.down.dropLast }
  | .name s => { r with down := r.down ++ [s] }

/-- Where a route leads from a directory below the root, which nothing leaves. -/
def follow (r : Route) (base : List String) : List String :=
  base.take (base.length - r.up) ++ r.down

/-- A route as it is written. -/
def names (r : Route) : List String := List.replicate r.up ".." ++ r.down

/-- What a normal form keeps of a route: of an absolute path the names, of a relative one also
whether the number of directories to leave is odd. -/
def settle (r : Route) (absolute : Bool) : Route :=
  { r with up := if absolute then 0 else r.up % 2 }

theorem follow_step (r : Route) (c : Component) (base : List String) :
    (r.step c).follow base = Path.step true (r.follow base) c := by
  cases c with
  | root => rfl
  | here => rfl
  | up =>
      by_cases hdown : r.down = []
      · have htake : (base.take (base.length - r.up)).dropLast
            = base.take (base.length - (r.up + 1)) := by
          rw [List.dropLast_eq_take, List.take_take, List.length_take]
          congr 1
          omega
        simp only [step, follow, Path.step, hdown, if_true, List.append_nil, htake]
        split
        · next hnil =>
            rw [← htake, hnil]
            rfl
        · rfl
      · simp [step, follow, Path.step, hdown, List.dropLast_append_of_ne_nil]
  | name s => simp [step, follow, Path.step]

/-- What a normal form keeps is kept by every step. -/
theorem names_settle_step (r : Route) (c : Component) (absolute : Bool) :
    ((r.step c).settle absolute).names = Path.step absolute (r.settle absolute).names c := by
  cases c with
  | root => rfl
  | here => rfl
  | up =>
      by_cases hdown : r.down = []
      · cases absolute with
        | true => simp [step, settle, names, Path.step, hdown]
        | false =>
            rcases Nat.mod_two_eq_zero_or_one r.up with hup | hup
            · have hnext : (r.up + 1) % 2 = 1 := by omega
              simp [step, settle, names, Path.step, hdown, hup, hnext]
            · have hnext : (r.up + 1) % 2 = 0 := by omega
              simp [step, settle, names, Path.step, hdown, hup, hnext]
      · simp [step, settle, names, Path.step, hdown, List.dropLast_append_of_ne_nil]
  | name s => simp [step, settle, names, Path.step]

theorem foldl_follow (r : Route) (cs : List Component) (base : List String) :
    (cs.foldl step r).follow base = cs.foldl (Path.step true) (r.follow base) := by
  induction cs generalizing r with
  | nil => rfl
  | cons c cs ih => rw [List.foldl_cons, List.foldl_cons, ih, follow_step]

theorem foldl_names_settle (r : Route) (cs : List Component) (absolute : Bool) :
    ((cs.foldl step r).settle absolute).names
      = cs.foldl (Path.step absolute) (r.settle absolute).names := by
  induction cs generalizing r with
  | nil => rfl
  | cons c cs ih => rw [List.foldl_cons, List.foldl_cons, ih, names_settle_step]

theorem settle_settle (r : Route) (absolute : Bool) :
    (r.settle absolute).settle absolute = r.settle absolute := by
  cases absolute <;> simp [settle]

/-- The names of a route are names of entries. -/
def IsProper (r : Route) : Prop := ∀ n ∈ r.down, IsEntryName n

theorem IsProper.step {r : Route} (h : r.IsProper) {c : Component}
    (hc : ∀ s, c = .name s → IsEntryName s) : (r.step c).IsProper := by
  intro n hn
  cases c with
  | root => exact h n hn
  | here => exact h n hn
  | up =>
      rw [Route.step] at hn
      split at hn
      · exact h n hn
      · exact h n (List.dropLast_subset _ hn)
  | name s =>
      rcases List.mem_append.1 hn with hn | hn
      · exact h n hn
      · rw [List.mem_singleton.1 hn]
        exact hc s rfl

theorem IsProper.foldl {r : Route} (h : r.IsProper) {cs : List Component}
    (hcs : ∀ s, Component.name s ∈ cs → IsEntryName s) : (cs.foldl Route.step r).IsProper := by
  induction cs generalizing r with
  | nil => exact h
  | cons c cs ih =>
      refine ih (h.step ?_) fun s hs => hcs s (List.mem_cons_of_mem c hs)
      rintro s rfl
      exact hcs s List.mem_cons_self

/-- A route as it is written consists of names of entries and two dots. -/
theorem IsProper.names {r : Route} (h : r.IsProper) :
    ∀ n ∈ r.names, n ≠ "" ∧ '/' ∉ n.toList := by
  intro n hn
  rcases List.mem_append.1 hn with hn | hn
  · rw [List.eq_of_mem_replicate hn]
    decide
  · exact ⟨(h n hn).ne_empty, (h n hn).no_slash⟩

theorem filterMap_ofPiece?_names {r : Route} (h : r.IsProper) :
    r.names.filterMap ofPiece? = List.replicate r.up .up ++ r.down.map .name := by
  rw [names, List.filterMap_append, filterMap_ofPiece?_of_isEntryName h, List.filterMap_replicate]
  rfl

/-- The route of what is written for a route. -/
theorem foldl_step_written (r : Route) :
    (List.replicate r.up Component.up ++ r.down.map Component.name).foldl step {} = r := by
  have hup (n : Nat) : (List.replicate n Component.up).foldl step {} = { up := n } := by
    induction n with
    | zero => rfl
    | succ n ih => simp [List.replicate_succ', ih, step]
  have hdown (front names : List String) :
      (names.map Component.name).foldl step { up := r.up, down := front }
        = { up := r.up, down := front ++ names } := by
    induction names generalizing front with
    | nil => simp
    | cons n names ih => simp [step, ih]
  rw [List.foldl_append, hup, hdown, List.nil_append]

end Route

/-- The route of a path. -/
def route (p : String) : Route := (components p).foldl Route.step {}

theorem route_eq_foldl (p : String) : route p = (moves p).foldl Route.step {} :=
  foldl_components (f := Route.step) (fun _ => rfl) (fun _ => rfl) {} p

theorem isProper_route (p : String) : (route p).IsProper := by
  refine Route.IsProper.foldl (fun n hn => ?_) fun s hs => isEntryName_of_mem_components hs
  cases hn

/-- A normal form is made of what it keeps of the route. -/
theorem normalNames_eq (p : String) :
    normalNames p = ((route p).settle (isAbsolute p)).names := by
  rw [normalNames_eq_foldl, route_eq_foldl, Route.foldl_names_settle]
  cases isAbsolute p <;> rfl

/-- From an absolute directory a relative path leads where its route leads. -/
theorem normalNames_append_eq_follow {base name : String} (hbase : isAbsolute base = true)
    (hname : isAbsolute name = false) :
    normalNames (append base name) = (route name).follow (normalNames base) := by
  rw [normalNames_append hname, hbase, route_eq_foldl, Route.foldl_follow]
  simp [Route.follow]

/-! ## Normal forms -/

/-- A text of names is as absolute as it was written, and its moves are those of the names. -/
theorem moves_render {names : List String} (h : ∀ n ∈ names, n ≠ "" ∧ '/' ∉ n.toList)
    (absolute : Bool) : isAbsolute (render absolute names) = absolute
      ∧ moves (render absolute names) = names.filterMap ofPiece? := by
  cases names with
  | nil => cases absolute <;> exact ⟨rfl, rfl⟩
  | cons n rest =>
      have hpieces : pieces (Text.join "/" (n :: rest)) = n :: rest :=
        pieces_join fun s hs => (h s hs).2
      cases absolute with
      | false =>
          have hrender : render false (n :: rest) = Text.join "/" (n :: rest) := by simp [render]
          rw [hrender, moves, hpieces, ← Bool.not_eq_true, isAbsolute_of_pieces_eq hpieces]
          exact ⟨fun hn => (h n List.mem_cons_self).1 hn.1, rfl⟩
      | true =>
          have hrender : render true (n :: rest) = "" ++ "/" ++ Text.join "/" (n :: rest) := by
            simp [render]
          refine ⟨isAbsolute_path (n :: rest), ?_⟩
          rw [hrender, moves_append_slash, moves, moves, hpieces]
          rfl

/-- A text of names is read as these names. -/
theorem moves_names {names : List String} (h : ∀ n ∈ names, IsEntryName n) (absolute : Bool) :
    isAbsolute (render absolute names) = absolute
      ∧ moves (render absolute names) = names.map .name := by
  rw [← filterMap_ofPiece?_of_isEntryName h]
  exact moves_render (fun n hn => ⟨(h n hn).ne_empty, (h n hn).no_slash⟩) absolute

/-- The normal form of an absolute path is the path of its names. -/
theorem path_normalNames {p : String} (h : isAbsolute p = true) :
    Location.path (normalNames p) = normal p := by
  rw [normal, h]
  rfl

theorem normal_eq (p : String) :
    normal p = render (isAbsolute p) ((route p).settle (isAbsolute p)).names := by
  rw [normal, normalNames_eq]

theorem isProper_settle_route (p : String) : ((route p).settle (isAbsolute p)).IsProper :=
  isProper_route p

/-- A path in normal form is as absolute as the path. -/
@[simp] theorem isAbsolute_normal (p : String) : isAbsolute (normal p) = isAbsolute p := by
  rw [normal_eq]
  exact (moves_render (isProper_settle_route p).names _).1

/-- Of the route of a path its normal form has what it keeps, and nothing else. -/
theorem route_normal (p : String) : route (normal p) = (route p).settle (isAbsolute p) := by
  rw [route_eq_foldl, normal_eq, (moves_render (isProper_settle_route p).names _).2,
    Route.filterMap_ofPiece?_names (isProper_settle_route p), Route.foldl_step_written]

theorem normalNames_normal (p : String) : normalNames (normal p) = normalNames p := by
  rw [normalNames_eq, route_normal, isAbsolute_normal, Route.settle_settle, ← normalNames_eq]

theorem normal_congr {p q : String} (habsolute : isAbsolute p = isAbsolute q)
    (hnames : normalNames p = normalNames q) : normal p = normal q := by
  rw [normal, normal, habsolute, hnames]

/-- A normal form is its own normal form. -/
theorem normal_normal (p : String) : normal (normal p) = normal p :=
  normal_congr (isAbsolute_normal p) (normalNames_normal p)

theorem append_of_isAbsolute {name : String} (h : isAbsolute name = true) (base : String) :
    append base name = name := if_pos h

theorem join_of_isAbsolute {name : String} (h : isAbsolute name = true) (base : String) :
    join base name = normal name := by
  rw [join, append_of_isAbsolute h]

/-- The normal form of a directory stands for the directory. -/
theorem normal_append_normal (base name : String) :
    normal (append (normal base) name) = normal (append base name) := by
  cases h : isAbsolute name with
  | true => rw [append_of_isAbsolute h, append_of_isAbsolute h]
  | false =>
      refine normal_congr ?_ ?_
      · rw [isAbsolute_append_of_not h, isAbsolute_append_of_not h, isAbsolute_normal]
      · rw [normalNames_append h, normalNames_append h, normalNames_normal, isAbsolute_normal]

theorem isAbsolute_join {base : String} (h : isAbsolute base = true) (name : String) :
    isAbsolute (join base name) = true := by
  rw [join, isAbsolute_normal, isAbsolute_append h]

/-- What is read from an absolute directory stays where it is. -/
theorem join_join_self {base : String} (h : isAbsolute base = true) (dir name : String) :
    join dir (join base name) = join base name := by
  rw [join_of_isAbsolute (isAbsolute_join h name), join, normal_normal]

/-- A name may be read from a directory before the directory is read from another. -/
theorem join_join {base : String} (h : isAbsolute base = true) (dir name : String) :
    join (join base dir) name = join base (append dir name) := by
  have hleft : join (join base dir) name = normal (append (append base dir) name) :=
    normal_append_normal (append base dir) name
  rw [hleft, join]
  cases hname : isAbsolute name with
  | true => simp only [append_of_isAbsolute hname]
  | false =>
      cases hdir : isAbsolute dir with
      | true =>
          have happend : isAbsolute (append dir name) = true := isAbsolute_append hdir name
          rw [append_of_isAbsolute hdir, append_of_isAbsolute happend]
      | false =>
          have happend : isAbsolute (append dir name) = false :=
            (isAbsolute_append_of_not hname dir).trans hdir
          refine normal_congr ?_ ?_
          · rw [isAbsolute_append (isAbsolute_append h dir), isAbsolute_append h]
          · rw [normalNames_append hname, normalNames_append happend, normalNames_append hdir,
              isAbsolute_append h, h, moves_append hname, List.foldl_append]

/-- Paths of the same kind are equal if their names are. -/
theorem render_eq_iff {absolute : Bool} {names names' : List String}
    (h : ∀ n ∈ names, IsEntryName n) (h' : ∀ n ∈ names', IsEntryName n) :
    render absolute names = render absolute names' ↔ names = names' := by
  refine ⟨fun heq => ?_, fun heq => heq ▸ rfl⟩
  have hmap := (moves_names h absolute).2
  rw [heq, (moves_names h' absolute).2] at hmap
  exact (List.map_inj_right fun _ _ => Component.name.inj).1 hmap.symm

/-! ## Paths in normal form read from a directory -/

/-- A path leads to the same place before and after it is brought to normal form: it is absolute,
leaves one directory at most, or leaves so many that the root is reached either way. -/
def KeepsPlace (base p : String) : Prop :=
  isAbsolute p = true ∨ (route p).up ≤ 1 ∨ (normalNames base).length ≤ (route p).up % 2

instance (base p : String) : Decidable (KeepsPlace base p) :=
  inferInstanceAs (Decidable (_ ∨ _ ∨ _))

theorem join_normal_eq_iff {base : String} (h : isAbsolute base = true) (p : String) :
    join base (normal p) = join base p ↔ KeepsPlace base p := by
  cases hp : isAbsolute p with
  | true =>
      have hnormal : isAbsolute (normal p) = true := (isAbsolute_normal p).trans hp
      rw [join_of_isAbsolute hnormal, join_of_isAbsolute hp, normal_normal]
      simp [KeepsPlace, hp]
  | false =>
      have hnormal : isAbsolute (normal p) = false := (isAbsolute_normal p).trans hp
      have hnames (q : String) : ∀ n ∈ normalNames (append base q), IsEntryName n :=
        fun n => isEntryName_of_mem_normalNames (isAbsolute_append h q)
      have hlength : (normalNames base).length - (route p).up % 2
          = (normalNames base).length - (route p).up ↔ KeepsPlace base p := by
        simp only [KeepsPlace, hp, Bool.false_eq_true, false_or]
        omega
      have hjoin (q : String) : join base q = render true (normalNames (append base q)) := by
        rw [join, normal, isAbsolute_append h]
      rw [hjoin, hjoin, render_eq_iff (hnames _) (hnames _), normalNames_append_eq_follow h hnormal,
        normalNames_append_eq_follow h hp, route_normal, hp, ← hlength]
      simp only [Route.follow, Route.settle, Bool.false_eq_true, if_false,
        List.append_cancel_right_eq]
      refine ⟨fun htake => ?_, fun hsame => by rw [hsame]⟩
      simpa using congrArg List.length htake

/-- From an absolute directory a relative path leads up as often as its route says and then along
the names of its route; its normal form has the names, but of the directories to leave one or none.
So the path may be brought to normal form before it is read exactly if it keeps its place. -/
theorem normal_keeps_place_iff (p : String) :
    (∀ base, isAbsolute base = true → (join base (normal p) = join base p ↔ KeepsPlace base p))
      ∧ (isAbsolute p = false → (∀ n ∈ (route p).down, IsEntryName n)
        ∧ normalNames p = List.replicate ((route p).up % 2) ".." ++ (route p).down
        ∧ ∀ base, isAbsolute base = true → normalNames (join base p)
          = (normalNames base).take ((normalNames base).length - (route p).up)
            ++ (route p).down) := by
  refine ⟨fun base h => join_normal_eq_iff h p, fun hp => ⟨isProper_route p, ?_, ?_⟩⟩
  · rw [normalNames_eq, hp]
    rfl
  · intro base h
    rw [join, normalNames_normal, normalNames_append_eq_follow h hp]
    rfl

/-- The second `..` of a path takes the first one away, so its normal form leads elsewhere. -/
theorem normal_keeps_place_of_two_up :
    isAbsolute "/a/b" = true ∧ isAbsolute "../../x" = false ∧ ¬KeepsPlace "/a/b" "../../x"
      ∧ join "/a/b" (normal "../../x") ≠ join "/a/b" "../../x"
      ∧ normalNames "../../x" = ["x"] ∧ normalNames (join "/a/b" "../../x") = ["x"]
      ∧ join "/a/b" (normal "../../x") = "/a/b/x" := by
  have hbase : isAbsolute "/a/b" = true := by decide
  have hpath : isAbsolute "../../x" = false := by decide
  have hplace : ¬KeepsPlace "/a/b" "../../x" := by decide +kernel
  have hroute : route "../../x" = { up := 2, down := ["x"] } := by decide +kernel
  have hdirectory : normalNames "/a/b" = ["a", "b"] := by decide +kernel
  obtain ⟨hiff, hrelative⟩ := normal_keeps_place_iff "../../x"
  obtain ⟨-, hkept, hleads⟩ := hrelative hpath
  rw [hroute] at hkept hleads
  refine ⟨hbase, hpath, hplace, fun hsame => hplace ((hiff _ hbase).1 hsame), hkept, ?_, ?_⟩
  · rw [hleads _ hbase, hdirectory]
    rfl
  · decide +kernel

end BuildGraph.Path
