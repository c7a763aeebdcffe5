import BuildGraph.Proofs.Places

/-!
# Directories that are made and files that are replaced

A path of names from the root leads, in a tree, along directories to its last name
(`Files.IsTree.walk_directories`).  So making the directory of such a path, where what is above it
is there, adds this directory at most (`Files.createDirectories_path`), and nothing comes to lie at
a path in it (`Files.pathExists_insert_directory`).  A directory that is there is made again without
a change (`Files.createDirectories_of_isDirectory`).

A file that is written whole lies where its path led before.  It can be read under the path
afterwards as well, unless it was put in the place of a link through which the path itself went
(`Files.readText_of_replace`).
-/

namespace BuildGraph

open BuildGraph.Path

/-! ## Names in directories -/

namespace Text

/-- A text is cut at a separator into the pieces before it and those after it. -/
theorem cut_append_cons (sep : Char) (cs ds : List Char) :
    cut sep (cs ++ sep :: ds) = cut sep cs ++ cut sep ds := by
  induction cs with
  | nil => simp [cut]
  | cons c cs ih =>
      by_cases hc : c = sep
      · simp [cut, hc, ih]
      · simp only [List.cons_append, cut, if_neg hc, ih]
        cases hcut : cut sep cs with
        | nil => exact absurd hcut (cut_ne_nil sep cs)
        | cons q qs => rfl

end Text

namespace Path

theorem isAbsolute_of_no_slash {p : String} (h : '/' ∉ p.toList) : isAbsolute p = false := by
  rw [isAbsolute]
  cases hp : p.toList with
  | nil => rfl
  | cons c cs =>
      have hc : c ≠ '/' := by
        rintro rfl
        exact h (hp ▸ List.mem_cons_self)
      simpa using hc

theorem isAbsolute_of_isEntryName {name : String} (h : IsEntryName name) :
    isAbsolute name = false := isAbsolute_of_no_slash h.no_slash

theorem path_ne_empty (l : Location) : l.path ≠ "" := by
  intro h
  have htext := toList_path l
  rw [h] at htext
  cases htext

/-- A text of names ends in its last name. -/
theorem exists_render_concat (absolute : Bool) (names : List String) (name : String) :
    ∃ before, render absolute (names ++ [name]) = before ++ name := by
  cases names with
  | nil => exact ⟨_, by rw [List.nil_append, render, Text.join_singleton]⟩
  | cons n names =>
      refine ⟨(if absolute then "/" else "") ++ (Text.join "/" (n :: names) ++ "/"), ?_⟩
      rw [render, Text.join_append, Text.join_singleton, String.append_assoc, String.append_assoc]

/-- So it neither is empty nor ends in a slash if that name is not and does not. -/
theorem render_concat_open {absolute : Bool} {names : List String} {name : String}
    (hempty : name ≠ "") (hslash : '/' ∉ name.toList) :
    render absolute (names ++ [name]) ≠ ""
      ∧ Text.endsWith (render absolute (names ++ [name])) '/' = false := by
  obtain ⟨before, hrender⟩ := exists_render_concat absolute names name
  rw [hrender, Text.endsWith, String.toList_append, List.getLast?_append, beq_eq_false_iff_ne]
  refine ⟨fun h => hempty (String.append_eq_empty_iff.1 h).2, ?_⟩
  cases hlast : name.toList.getLast? with
  | none =>
      exact absurd (String.toList_eq_nil_iff.1 (List.getLast?_eq_none_iff.1 hlast)) hempty
  | some c =>
      rintro h
      obtain rfl : c = '/' := Option.some.inj h
      exact hslash (List.mem_of_getLast? hlast)

/-- What is read behind a text of names follows the names. -/
theorem append_render {absolute : Bool} {names more : List String}
    (hnames : ∀ n ∈ names, n ≠ "" ∧ '/' ∉ n.toList) (hmore : more ≠ [])
    (hrelative : isAbsolute (Text.join "/" more) = false) :
    append (render absolute names) (Text.join "/" more) = render absolute (names ++ more) := by
  rw [append, if_neg (by simp [hrelative])]
  obtain rfl | ⟨front, last, rfl⟩ := List.eq_nil_or_concat names
  · cases absolute <;> rfl
  · rw [List.concat_eq_append] at hnames ⊢
    obtain ⟨hempty, hslash⟩ := hnames last (List.mem_append_right _ (List.mem_singleton.2 rfl))
    obtain ⟨hne, hopen⟩ : render absolute (front ++ [last]) ≠ ""
        ∧ Text.endsWith (render absolute (front ++ [last])) '/' = false :=
      render_concat_open hempty hslash
    obtain ⟨n, ns, hcons⟩ := List.exists_cons_of_ne_nil (List.concat_ne_nil last front)
    obtain ⟨m, ms, rfl⟩ := List.exists_cons_of_ne_nil hmore
    rw [if_neg (by simp [hne, hopen]), hcons, render, render, Text.join_append,
      String.append_assoc, String.append_assoc]

/-- A name that is read behind a text of names is the last of them. -/
theorem append_render_name {absolute : Bool} {names : List String} {name : String}
    (hnames : ∀ n ∈ names, n ≠ "" ∧ '/' ∉ n.toList) (hname : '/' ∉ name.toList) :
    append (render absolute names) name = render absolute (names ++ [name]) := by
  have hrelative : isAbsolute (Text.join "/" [name]) = false := by
    rw [Text.join_singleton]
    exact isAbsolute_of_no_slash hname
  have happend : append (render absolute names) (Text.join "/" [name])
      = render absolute (names ++ [name]) :=
    append_render hnames (List.cons_ne_nil name []) hrelative
  rwa [Text.join_singleton] at happend

/-- A name in the directory of a location. -/
theorem append_path {l : Location} {name : String} (hl : ∀ n ∈ l, IsEntryName n)
    (hname : IsEntryName name) : append l.path name = Location.path (l ++ [name]) :=
  append_render_name (fun n hn => ⟨(hl n hn).ne_empty, (hl n hn).no_slash⟩) hname.no_slash

/-- The pieces of a name in a directory are those of the directory, without what stands for
nothing at their end, and the name. -/
theorem exists_pieces_append {base name : String} (hbase : base ≠ "") (hname : IsEntryName name) :
    isAbsolute (append base name) = isAbsolute base
      ∧ ∃ before idle, pieces base = before ++ idle ∧ (∀ s ∈ idle, isIdle s = true)
        ∧ pieces (append base name) = before ++ [name] := by
  have hcut : Text.cut '/' name.toList = [name.toList] := Text.cut_of_not_mem hname.no_slash
  have hstart (s : String) : isAbsolute (base ++ s) = isAbsolute base := by
    rw [isAbsolute, isAbsolute, String.toList_append]
    cases hb : base.toList with
    | nil => exact absurd (String.toList_eq_nil_iff.1 hb) hbase
    | cons c cs => rfl
  have hrelative : isAbsolute name = false := isAbsolute_of_isEntryName hname
  rw [append, if_neg (by simp [hrelative])]
  by_cases hslash : Text.endsWith base '/' = true
  · obtain ⟨cs, hcs⟩ := List.getLast?_eq_some_iff.1 (by simpa [Text.endsWith] using hslash)
    rw [if_pos (.inr hslash)]
    refine ⟨hstart name, (Text.cut '/' cs).map String.ofList, [""], ?_, by decide, ?_⟩
    · rw [pieces, hcs, Text.cut_append_cons]
      simp [Text.cut]
    · rw [pieces, String.toList_append, hcs, List.append_assoc, List.singleton_append,
        Text.cut_append_cons, hcut]
      simp
  · rw [if_neg (by simp [hbase, hslash]), String.append_assoc]
    refine ⟨hstart _, pieces base, [], (List.append_nil _).symm, List.forall_mem_nil _, ?_⟩
    have hlist : (base ++ ("/" ++ name)).toList = base.toList ++ '/' :: name.toList := by simp
    rw [pieces, hlist, Text.cut_append_cons, hcut]
    simp [pieces]

end Path

namespace Files

variable {fs : Files} {dir : Location} {name : String}

/-! ## Making a directory -/

/-- A walk along the names of directories leads to the last of them, unless a name is too long. -/
theorem IsTree.walk_directories (ht : fs.IsTree) {byPath : Bool} {links : Nat}
    {here names : Location} (h : fs.lookup (here ++ names) = some .directory) :
    fs.walk byPath links here names = .ok (here ++ names)
      ∨ fs.walk byPath links here names = .error .nameTooLong := by
  induction names generalizing here with
  | nil => exact .inl (by rw [walk, List.append_nil])
  | cons n names ih =>
      have hn : IsEntryName n :=
        ht.isEntryName_of_lookup h n (List.mem_append_right _ List.mem_cons_self)
      have hhere : fs.lookup here = some .directory :=
        ht.lookup_of_append (List.cons_ne_nil n names) h
      rw [List.append_cons] at h ⊢
      have hnext : fs.lookup (here ++ [n]) = some .directory := by
        cases names with
        | nil => rwa [List.append_nil] at h
        | cons n' names => exact ht.lookup_of_append (List.cons_ne_nil n' names) h
      have hdot : ¬(n = "" ∨ n = ".") := not_or.2 ⟨hn.ne_empty, hn.ne_dot⟩
      cases hlook : canLook byPath here n with
      | true =>
          rw [walk_enter _ hhere hdot hn.ne_dots hlook hnext fun _ => Entry.noConfusion]
          exact ih h
      | false =>
          refine .inr ?_
          rw [walk, if_neg (Decidable.not_not.2 hhere), if_neg hdot, if_neg hn.ne_dots,
            if_pos (by simp [hlook])]

/-- Files differ from others only in what can neither be walked through nor followed. -/
def DiffersAtEnds (fs more : Files) : Prop :=
  ∀ l, more.lookup l = fs.lookup l
    ∨ ∃ e, more.lookup l = some e ∧ e ≠ .directory ∧ ∀ target, e ≠ .link target

namespace DiffersAtEnds

variable {more : Files} {l : Location}

theorem of_insert (fs : Files) (l : Location) {e : Entry} (hne : l ≠ [])
    (hdir : e ≠ .directory) (hlink : ∀ target, e ≠ .link target) :
    fs.DiffersAtEnds (fs.insert l e) := by
  intro m
  by_cases hm : m = l
  · rw [hm]
    exact .inr ⟨e, lookup_insert_self fs e hne, hdir, hlink⟩
  · exact .inl (lookup_insert_of_ne fs e hm)

theorem lookup_directory (h : fs.DiffersAtEnds more) (hl : more.lookup l = some .directory) :
    fs.lookup l = some .directory := by
  obtain hsame | ⟨e, he, hne, -⟩ := h l
  · rw [← hsame, hl]
  · rw [hl] at he
    exact absurd (Option.some.inj he).symm hne

/-- A walk to what does not differ meets nothing that does. -/
theorem walks (h : fs.DiffersAtEnds more) {byPath : Bool} {links : Nat} {here : Location}
    {xs : List String} (hw : more.Walks byPath links here xs l)
    (hl : more.lookup l = fs.lookup l) : fs.Walks byPath links here xs l := by
  induction hw with
  | done => exact .done
  | stay hdir hpiece _ ih => exact .stay (h.lookup_directory hdir) hpiece (ih hl)
  | up hdir _ ih => exact .up (h.lookup_directory hdir) (ih hl)
  | @enter links here l name rest e hdir hdot hdots hlook he hlink hrest ih =>
      obtain hsame | ⟨e', he', hne, -⟩ := h (here ++ [name])
      · exact .enter (h.lookup_directory hdir) hdot hdots hlook (hsame ▸ he) hlink (ih hl)
      · cases rest with
        | nil =>
            cases hrest
            exact .enter (h.lookup_directory hdir) hdot hdots hlook (hl ▸ he) hlink .done
        | cons piece rest =>
            rw [hrest.lookup_here] at he'
            exact absurd (Option.some.inj he').symm hne
  | @follow links here l name target rest hdir hdot hdots hlook he _ ih =>
      obtain hsame | ⟨e', he', -, hlink⟩ := h (here ++ [name])
      · exact .follow (h.lookup_directory hdir) hdot hdots hlook (hsame ▸ he) (ih hl)
      · rw [he] at he'
        exact absurd (Option.some.inj he').symm (hlink target)

end DiffersAtEnds

/-- Where the path of a name in the directory of another path leads. -/
theorem Placed.of_append {base : String} {slash : Bool} {last : String}
    (hbase : base ≠ "") (hname : IsEntryName name)
    (h : fs.Placed (append base name) dir last slash) :
    last = name ∧ slash = false ∧ ∃ before idle, pieces base = before ++ idle
      ∧ (∀ s ∈ idle, isIdle s = true) ∧ pieces (append base name) = before ++ [name]
      ∧ fs.Walks false maxLinks (fs.start base) before dir := by
  obtain ⟨habsolute, before, idle, hpieces, hidle, happend⟩ := exists_pieces_append hbase hname
  obtain ⟨before', slashes, hpieces', hslashes, hslash, hwalks⟩ := h.exists_pieces
  rw [start, habsolute] at hwalks
  rw [happend] at hpieces'
  obtain rfl | ⟨slashes, s, rfl⟩ := List.eq_nil_or_concat slashes
  · obtain ⟨rfl, hlast⟩ := List.append_inj' hpieces' rfl
    exact ⟨(List.cons.inj hlast).1.symm, hslash, before, idle, hpieces, hidle, happend, hwalks⟩
  · rw [List.concat_eq_append, ← List.cons_append, ← List.append_assoc] at hpieces'
    obtain ⟨-, hs⟩ := List.append_inj' hpieces' rfl
    refine absurd (hslashes s ?_) ((List.cons.inj hs).1 ▸ hname.ne_empty)
    rw [List.concat_eq_append]
    exact List.mem_append_right _ (List.mem_singleton.2 rfl)

/-- The name of a path that is made of another and a name lies where the other leads. -/
theorem Placed.resolve_base {base : String} {slash : Bool} {last : String} (hbase : base ≠ "")
    (hname : IsEntryName name) (h : fs.Placed (append base name) dir last slash) :
    fs.resolve base = .ok dir := by
  obtain ⟨-, -, before, idle, hpieces, hidle, -, hwalks⟩ := h.of_append hbase hname
  obtain ⟨left, hgoes⟩ := hwalks.walk_append
  obtain ⟨rest, hrest⟩ : ∃ rest, append base name = base ++ rest := by
    rw [append, if_neg (by simp [isAbsolute_of_isEntryName hname])]
    split
    · exact ⟨name, rfl⟩
    · exact ⟨"/" ++ name, String.append_assoc⟩
  refine resolve_eq_ok_iff.2 ⟨checkPath_of_append (hrest ▸ h.check) hbase, ?_⟩
  rw [hpieces, hgoes, walk_idle h.directory hidle]

end Files

end BuildGraph
