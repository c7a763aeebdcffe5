import BuildGraph.Files.Resolve
import BuildGraph.Proofs.FileTree

/-!
# Walks

A walk that succeeds is a derivation (`Files.Walks`, `walk_eq_ok_iff`): each of its steps stays,
goes up, enters an entry by its name or follows a link.  What holds of all walks is proved by
induction on it.

Where pieces lead and along how many links depends on neither what follows them nor the links that
may be followed (`Files.Leads`, `Walks.exists_leads`), so a walk has one end (`Walks.unique`).

The two facts that a scan without links needs about a walk with links are `walk_append`, by which
a walk that goes on behind an entry starts from where the entry is found, and
`Walks.directory_or_prefix`, by which a walk along names meets no link before the first entry on
its way that is no directory.
-/

namespace BuildGraph.Files

open BuildGraph.Path

/-- The steps of a walk that succeeds. -/
inductive Walks (fs : Files) (byPath : Bool) :
    Nat → Location → List String → Location → Prop where
  | done {links : Nat} {here : Location} : Walks fs byPath links here [] here
  | stay {links : Nat} {here l : Location} {piece : String} {rest : List String}
      (hdir : fs.lookup here = some .directory) (hpiece : piece = "" ∨ piece = ".")
      (h : Walks fs byPath links here rest l) : Walks fs byPath links here (piece :: rest) l
  | up {links : Nat} {here l : Location} {rest : List String}
      (hdir : fs.lookup here = some .directory)
      (h : Walks fs byPath links here.dropLast rest l) :
      Walks fs byPath links here (".." :: rest) l
  | enter {links : Nat} {here l : Location} {name : String} {rest : List String} {e : Entry}
      (hdir : fs.lookup here = some .directory) (hdot : ¬(name = "" ∨ name = "."))
      (hdots : name ≠ "..") (hlook : canLook byPath here name = true)
      (he : fs.lookup (here ++ [name]) = some e) (hlink : ∀ target, e ≠ .link target)
      (h : Walks fs byPath links (here ++ [name]) rest l) :
      Walks fs byPath links here (name :: rest) l
  | follow {links : Nat} {here l : Location} {name target : String} {rest : List String}
      (hdir : fs.lookup here = some .directory) (hdot : ¬(name = "" ∨ name = "."))
      (hdots : name ≠ "..") (hlook : canLook byPath here name = true)
      (he : fs.lookup (here ++ [name]) = some (.link target))
      (h : Walks fs byPath links (if isAbsolute target then [] else here)
        (pieces target ++ rest) l) :
      Walks fs byPath (links + 1) here (name :: rest) l

variable {fs : Files} {byPath : Bool} {links : Nat} {here l : Location}

/-! ## Steps -/

section Steps

variable {piece name target : String} {e : Entry} (rest : List String)
  (hdir : fs.lookup here = some .directory)
include hdir

theorem walk_stay (hpiece : piece = "" ∨ piece = ".") :
    fs.walk byPath links here (piece :: rest) = fs.walk byPath links here rest := by
  rw [walk, if_neg (Decidable.not_not.2 hdir), if_pos hpiece]

theorem walk_up :
    fs.walk byPath links here (".." :: rest) = fs.walk byPath links here.dropLast rest := by
  rw [walk, if_neg (Decidable.not_not.2 hdir), if_neg (by decide), if_pos rfl]

theorem walk_enter (hdot : ¬(name = "" ∨ name = ".")) (hdots : name ≠ "..")
    (hlook : canLook byPath here name = true) (he : fs.lookup (here ++ [name]) = some e)
    (hlink : ∀ target, e ≠ .link target) :
    fs.walk byPath links here (name :: rest) = fs.walk byPath links (here ++ [name]) rest := by
  rw [walk, if_neg (Decidable.not_not.2 hdir), if_neg hdot, if_neg hdots,
    if_neg (by simp [hlook]), he]
  cases e with
  | link target => exact absurd rfl (hlink target)
  | file => rfl
  | directory => rfl
  | special => rfl

theorem walk_follow (hdot : ¬(name = "" ∨ name = ".")) (hdots : name ≠ "..")
    (hlook : canLook byPath here name = true)
    (he : fs.lookup (here ++ [name]) = some (.link target)) :
    fs.walk byPath (links + 1) here (name :: rest)
      = fs.walk byPath links (if isAbsolute target then [] else here)
        (pieces target ++ rest) := by
  rw [walk, if_neg (Decidable.not_not.2 hdir), if_neg hdot, if_neg hdots,
    if_neg (by simp [hlook]), he]

end Steps

/-- Nothing is walked through but a directory. -/
theorem walk_of_not_directory (h : fs.lookup here ≠ some .directory) (piece : String)
    (rest : List String) :
    fs.walk byPath links here (piece :: rest) = .error .notDirectory := by
  rw [walk, if_pos h]

/-! ## Links on a walk -/

section Links

variable {n left : Nat} {m : Location} {xs ys : List String}

/-- Pieces lead from a location to another along `n` links, whatever follows them and however many
links may be followed then. -/
def Leads (fs : Files) (byPath : Bool) (n : Nat) (here : Location) (xs : List String)
    (l : Location) : Prop :=
  ∀ left rest, fs.walk byPath (n + left) here (xs ++ rest) = fs.walk byPath left l rest

theorem leads_nil : fs.Leads byPath 0 here [] here := by
  intro left rest
  rw [Nat.zero_add, List.nil_append]

theorem Leads.append {k : Nat} (h : fs.Leads byPath n here xs m) (h' : fs.Leads byPath k m ys l) :
    fs.Leads byPath (n + k) here (xs ++ ys) l := by
  intro left rest
  rw [Nat.add_assoc, List.append_assoc, h, h']

/-- A walk follows some of the links that it may follow. -/
theorem Walks.exists_leads (h : fs.Walks byPath links here xs l) :
    ∃ n left, links = n + left ∧ fs.Leads byPath n here xs l := by
  induction h with
  | @done links here => exact ⟨0, links, (Nat.zero_add links).symm, leads_nil⟩
  | stay hdir hpiece _ ih =>
      obtain ⟨n, left, hlinks, ih⟩ := ih
      exact ⟨n, left, hlinks, fun left rest => (walk_stay _ hdir hpiece).trans (ih left rest)⟩
  | up hdir _ ih =>
      obtain ⟨n, left, hlinks, ih⟩ := ih
      exact ⟨n, left, hlinks, fun left rest => (walk_up _ hdir).trans (ih left rest)⟩
  | enter hdir hdot hdots hlook he hlink _ ih =>
      obtain ⟨n, left, hlinks, ih⟩ := ih
      exact ⟨n, left, hlinks, fun left rest =>
        (walk_enter _ hdir hdot hdots hlook he hlink).trans (ih left rest)⟩
  | follow hdir hdot hdots hlook he _ ih =>
      obtain ⟨n, left, rfl, ih⟩ := ih
      refine ⟨n + 1, left, Nat.add_right_comm n left 1, fun left rest => ?_⟩
      rw [Nat.add_right_comm, List.cons_append, walk_follow _ hdir hdot hdots hlook he,
        ← List.append_assoc, ih]

/-- A walk goes on behind pieces from the location that they lead to, with the links that are
left. -/
theorem Walks.walk_append (h : fs.Walks byPath links here xs l) :
    ∃ left, ∀ ys, fs.walk byPath links here (xs ++ ys) = fs.walk byPath left l ys := by
  obtain ⟨n, left, rfl, hlead⟩ := h.exists_leads
  exact ⟨left, hlead left⟩

theorem walk_eq_ok_iff :
    fs.walk byPath links here xs = .ok l ↔ fs.Walks byPath links here xs l := by
  constructor
  · intro h
    fun_induction walk fs byPath links here xs with
    | case1 =>
        obtain rfl := Except.ok.inj h
        exact .done
    | case2 => cases h
    | case3 links here piece rest hdir hpiece ih =>
        exact .stay (Decidable.not_not.1 hdir) hpiece (ih h)
    | case4 links here rest hdir hdot ih => exact .up (Decidable.not_not.1 hdir) (ih h)
    | case5 => cases h
    | case6 => cases h
    | case7 => cases h
    | case8 here name rest hdir hdot hdots hlook target he links ih =>
        exact .follow (Decidable.not_not.1 hdir) hdot hdots (by simpa using hlook) he (ih h)
    | case9 links here name rest hdir hdot hdots hlook e hlink he ih =>
        exact .enter (Decidable.not_not.1 hdir) hdot hdots (by simpa using hlook) he hlink (ih h)
  · intro h
    obtain ⟨left, hleft⟩ := h.walk_append
    have hnil := hleft []
    rwa [List.append_nil, walk] at hnil

theorem Leads.walks (h : fs.Leads byPath n here xs l) (hn : n ≤ links) :
    fs.Walks byPath links here xs l := by
  obtain ⟨left, rfl⟩ := Nat.exists_eq_add_of_le hn
  have hwalk := h left []
  rw [List.append_nil, walk, walk_eq_ok_iff] at hwalk
  exact hwalk

/-- A walk has one end, whatever number of links may be followed. -/
theorem Walks.unique {links' : Nat} (h : fs.Walks byPath links here xs l)
    (h' : fs.Walks byPath links' here xs m) : l = m := by
  obtain ⟨n, left, rfl, hlead⟩ := h.exists_leads
  obtain ⟨n', left', rfl, hlead'⟩ := h'.exists_leads
  have hsame := hlead (n' + left) []
  rw [Nat.add_left_comm, hlead' (n + left) [], walk, walk] at hsame
  exact (Except.ok.inj hsame).symm

/-- The steps of a walk along some pieces and then others. -/
theorem Walks.split (h : fs.Walks byPath links here (xs ++ ys) l) :
    ∃ m left, fs.Walks byPath links here xs m ∧ fs.Walks byPath left m ys l := by
  generalize hzs : xs ++ ys = zs at h
  induction h generalizing xs with
  | done =>
      obtain ⟨rfl, rfl⟩ := List.append_eq_nil_iff.1 hzs
      exact ⟨_, maxLinks, .done, .done⟩
  | stay hdir hpiece hrest ih =>
      cases xs with
      | nil =>
          obtain rfl : ys = _ := hzs
          exact ⟨_, _, .done, .stay hdir hpiece hrest⟩
      | cons x xs =>
          obtain ⟨rfl, rfl⟩ := List.cons.inj hzs
          obtain ⟨m, left, hxs, hys⟩ := ih rfl
          exact ⟨m, left, .stay hdir hpiece hxs, hys⟩
  | up hdir hrest ih =>
      cases xs with
      | nil =>
          obtain rfl : ys = _ := hzs
          exact ⟨_, _, .done, .up hdir hrest⟩
      | cons x xs =>
          obtain ⟨rfl, rfl⟩ := List.cons.inj hzs
          obtain ⟨m, left, hxs, hys⟩ := ih rfl
          exact ⟨m, left, .up hdir hxs, hys⟩
  | enter hdir hdot hdots hlook he hlink hrest ih =>
      cases xs with
      | nil =>
          obtain rfl : ys = _ := hzs
          exact ⟨_, _, .done, .enter hdir hdot hdots hlook he hlink hrest⟩
      | cons x xs =>
          obtain ⟨rfl, rfl⟩ := List.cons.inj hzs
          obtain ⟨m, left, hxs, hys⟩ := ih rfl
          exact ⟨m, left, .enter hdir hdot hdots hlook he hlink hxs, hys⟩
  | follow hdir hdot hdots hlook he hrest ih =>
      cases xs with
      | nil =>
          obtain rfl : ys = _ := hzs
          exact ⟨_, _, .done, .follow hdir hdot hdots hlook he hrest⟩
      | cons x xs =>
          obtain ⟨rfl, rfl⟩ := List.cons.inj hzs
          obtain ⟨m, left, hxs, hys⟩ := ih (List.append_assoc ..)
          exact ⟨m, left, .follow hdir hdot hdots hlook he hxs, hys⟩

/-- A walk along some pieces and then others, with the links that it follows first. -/
theorem Walks.exists_leads_append (h : fs.Walks byPath links here (xs ++ ys) l) :
    ∃ m n left, links = n + left ∧ fs.Leads byPath n here xs m ∧ fs.Walks byPath left m ys l := by
  obtain ⟨m, -, hm, -⟩ := h.split
  obtain ⟨n, left, rfl, hlead⟩ := hm.exists_leads
  refine ⟨m, n, left, rfl, hlead, ?_⟩
  rw [← walk_eq_ok_iff, hlead left ys, walk_eq_ok_iff] at h
  exact h

end Links

/-! ## Where a walk ends -/

/-- A walk along at least one piece starts in a directory. -/
theorem Walks.lookup_here {piece : String} {rest : List String}
    (h : fs.Walks byPath links here (piece :: rest) l) : fs.lookup here = some .directory := by
  cases h with
  | stay hdir => exact hdir
  | up hdir => exact hdir
  | enter hdir => exact hdir
  | follow hdir => exact hdir

/-- A walk that looks at entries by their absolute paths is one that looks at them by name. -/
theorem Walks.byName {xs : List String} (h : fs.Walks true links here xs l) :
    fs.Walks false links here xs l := by
  have hlook {here : Location} {name : String} (h : canLook true here name = true) :
      canLook false here name = true := by
    simp only [canLook, Bool.and_eq_true] at h ⊢
    exact ⟨h.1, rfl⟩
  induction h with
  | done => exact .done
  | stay hdir hpiece _ ih => exact .stay hdir hpiece ih
  | up hdir _ ih => exact .up hdir ih
  | enter hdir hdot hdots hl he hlink _ ih => exact .enter hdir hdot hdots (hlook hl) he hlink ih
  | follow hdir hdot hdots hl he _ ih => exact .follow hdir hdot hdots (hlook hl) he ih

/-- Where all absolute paths are short enough, a walk by name is one by absolute paths. -/
theorem Walks.byLocation
    (hshort : ∀ l e, fs.lookup l = some e → l.path.utf8ByteSize < maxPath)
    {xs : List String} (h : fs.Walks false links here xs l) : fs.Walks true links here xs l := by
  have hlook {here : Location} {name : String} {e : Entry} (h : canLook false here name = true)
      (he : fs.lookup (here ++ [name]) = some e) : canLook true here name = true := by
    simp only [canLook, Bool.and_eq_true] at h ⊢
    exact ⟨h.1, by simpa using hshort _ _ he⟩
  induction h with
  | done => exact .done
  | stay hdir hpiece _ ih => exact .stay hdir hpiece ih
  | up hdir _ ih => exact .up hdir ih
  | enter hdir hdot hdots hl he hlink _ ih =>
      exact .enter hdir hdot hdots (hlook hl he) he hlink ih
  | follow hdir hdot hdots hl he _ ih => exact .follow hdir hdot hdots (hlook hl he) he ih

/-- A walk along names ends where they say, or some of them lead to an entry that is no
directory before the walk meets a link. -/
theorem Walks.directory_or_prefix {names : List String} (hnames : ∀ n ∈ names, IsEntryName n)
    (h : fs.Walks byPath links here names l) (hhere : fs.lookup here = some .directory) :
    (l = here ++ names ∧ fs.lookup l = some .directory)
      ∨ ∃ front back e, names = front ++ back ∧ fs.lookup (here ++ front) = some e
        ∧ e ≠ .directory := by
  induction names generalizing here with
  | nil =>
      cases h
      exact .inl ⟨(List.append_nil _).symm, hhere⟩
  | cons n names ih =>
      obtain ⟨hn, hrest⟩ := List.forall_mem_cons.1 hnames
      cases h with
      | stay _ hpiece =>
          obtain hpiece | hpiece := hpiece
          · exact absurd hpiece hn.ne_empty
          · exact absurd hpiece hn.ne_dot
      | up => exact absurd rfl hn.ne_dots
      | follow _ _ _ _ he => exact .inr ⟨[n], names, _, rfl, he, Entry.noConfusion⟩
      | @enter _ _ _ _ _ e _ _ _ _ he _ h =>
          by_cases hdir : e = .directory
          · rw [hdir] at he
            obtain ⟨hl, hlookup⟩ | ⟨front, back, e', hfront, he', hne⟩ := ih hrest h he
            · exact .inl ⟨by rw [hl, List.append_assoc, List.singleton_append], hlookup⟩
            · refine .inr ⟨n :: front, back, e', ?_, ?_, hne⟩
              · rw [hfront, List.cons_append]
              · rw [List.append_cons, he']
          · exact .inr ⟨[n], names, e, rfl, he, hdir⟩

/-! ## What paths name -/

theorem resolve_eq_ok_iff {p : String} :
    fs.resolve p = .ok l
      ↔ checkPath p = .ok () ∧ fs.walk false maxLinks (fs.start p) (pieces p) = .ok l := by
  rw [resolve]
  cases checkPath p with
  | error => simp
  | ok => simp

theorem stat_eq_ok_iff {p : String} {e : Entry} :
    fs.stat p = .ok e ↔ ∃ l, fs.resolve p = .ok l ∧ fs.lookup l = some e := by
  rw [stat]
  cases fs.resolve p with
  | error => simp
  | ok l =>
      cases hl : fs.lookup l with
      | none => simp [hl]
      | some => simp [hl]

theorem stat_of_walks {p : String} {e : Entry} (hp : checkPath p = .ok ())
    (h : fs.Walks false maxLinks (fs.start p) (pieces p) l) (he : fs.lookup l = some e) :
    fs.stat p = .ok e :=
  stat_eq_ok_iff.2 ⟨l, resolve_eq_ok_iff.2 ⟨hp, walk_eq_ok_iff.2 h⟩, he⟩

theorem pathExists_iff {p : String} : fs.pathExists p = true ↔ ∃ e, fs.stat p = .ok e := by
  rw [pathExists]
  cases fs.stat p with
  | error => simp [Except.toBool]
  | ok => simp [Except.toBool]

/-- The text that a file holds is read from it. -/
theorem readText_of_stat {p text : String} {executable : Bool}
    (h : fs.stat p = .ok (.file text.toUTF8 executable)) : fs.readText p = .ok text := by
  have hutf : String.fromUTF8? text.toUTF8 = some text := by
    rw [String.fromUTF8?, String.toUTF8_eq_toByteArray, dif_pos text.isValidUTF8]
    rfl
  rw [readText, read, h]
  simp only [hutf]

theorem locate_eq_ok_iff {p : String} :
    fs.locate p = .ok l
      ↔ (∃ e, fs.stat p = .ok e) ∧ fs.Walks true maxLinks (fs.start p) (pieces p) l := by
  rw [locate, ← walk_eq_ok_iff]
  cases fs.stat p with
  | error => simp
  | ok => simp

/-- An entry to which an absolute path leads from the root lies at the location of the path. -/
theorem locate_of_walks {p : String} {e : Entry} (habsolute : isAbsolute p = true)
    (hp : checkPath p = .ok ()) (h : fs.Walks true maxLinks [] (pieces p) l)
    (he : fs.lookup l = some e) : fs.locate p = .ok l := by
  have hwalks : fs.Walks true maxLinks (fs.start p) (pieces p) l := by
    rwa [start, if_pos habsolute]
  exact locate_eq_ok_iff.2 ⟨⟨e, stat_of_walks hp hwalks.byName he⟩, hwalks⟩

/-- The entry that a path names lies at the location of the path. -/
theorem exists_stat_of_locate {p : String} (h : fs.locate p = .ok l) :
    ∃ e, fs.stat p = .ok e ∧ fs.lookup l = some e := by
  obtain ⟨⟨e, hstat⟩, hwalks⟩ := locate_eq_ok_iff.1 h
  obtain ⟨m, hm, he⟩ := stat_eq_ok_iff.1 hstat
  have hwalk := walk_eq_ok_iff.2 hwalks.byName
  rw [(resolve_eq_ok_iff.1 hm).2] at hwalk
  obtain rfl := Except.ok.inj hwalk
  exact ⟨e, hstat, he⟩

theorem exists_locate_of_canonicalize {p canonical : String}
    (h : fs.canonicalize p = .ok canonical) : ∃ l, fs.locate p = .ok l ∧ l.path = canonical := by
  rw [canonicalize] at h
  cases hlocate : fs.locate p with
  | error =>
      rw [hlocate] at h
      cases h
  | ok l =>
      rw [hlocate] at h
      exact ⟨l, rfl, Except.ok.inj h⟩

/-- Where all absolute paths are short enough, every path that names an entry has a location. -/
theorem locate_of_resolve (hshort : ∀ l e, fs.lookup l = some e → l.path.utf8ByteSize < maxPath)
    {p : String} {e : Entry} (h : fs.resolve p = .ok l) (he : fs.lookup l = some e) :
    fs.locate p = .ok l := by
  have hwalks := walk_eq_ok_iff.1 (resolve_eq_ok_iff.1 h).2
  exact locate_eq_ok_iff.2 ⟨⟨e, stat_eq_ok_iff.2 ⟨l, h, he⟩⟩, hwalks.byLocation hshort⟩

/-- The path of a location is walked along its names. -/
theorem walk_pieces_path (h : ∀ n ∈ l, IsEntryName n) :
    fs.walk byPath links [] (pieces l.path) = fs.walk byPath links [] l := by
  rw [pieces_path h, walk_stay _ (lookup_root fs) (.inl rfl)]
  split
  · next hnil => rw [hnil, walk_stay _ (lookup_root fs) (.inl rfl)]
  · rfl

/-- What the path of a location leads to is found by a walk along the names from the root. -/
theorem walks_of_resolve_path {m : Location} (hl : ∀ n ∈ l, IsEntryName n)
    (h : fs.resolve l.path = .ok m) : fs.Walks false maxLinks [] l m := by
  have hwalk := (resolve_eq_ok_iff.1 h).2
  rwa [start, if_pos (isAbsolute_path l), walk_pieces_path hl, walk_eq_ok_iff] at hwalk

theorem walks_of_locate_path {m : Location} (hl : ∀ n ∈ l, IsEntryName n)
    (h : fs.locate l.path = .ok m) : fs.Walks true maxLinks [] l m := by
  have hwalks := (locate_eq_ok_iff.1 h).2
  rwa [start, if_pos (isAbsolute_path l), ← walk_eq_ok_iff, walk_pieces_path hl,
    walk_eq_ok_iff] at hwalks

theorem walk_of_stat_path {e : Entry} (hl : ∀ n ∈ l, IsEntryName n)
    (h : fs.stat l.path = .ok e) :
    ∃ m, fs.Walks false maxLinks [] l m ∧ fs.lookup m = some e := by
  obtain ⟨m, hm, he⟩ := stat_eq_ok_iff.1 h
  exact ⟨m, walks_of_resolve_path hl hm, he⟩

end BuildGraph.Files
