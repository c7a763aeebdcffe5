import BuildGraph.Proofs.EdgeCommand

/-!
# Escaped texts

Not every path and not every value is read back as it was before it was escaped.  No path that is
read holds `|`, which has no escape, or the end of a line, which `$` joins to the next one
(`forall_of_decodeUntil`), so a path that holds one of them is read as another one.  A value loses
the ends of its lines in the same way, and the spaces at its start too (`lineValue`).

Nothing else is lost: paths and values without these are read back, whatever else they hold and
whatever stands around them (`reads_escaped_iff`).
-/

namespace BuildGraph.Ninja

/-! ## Paths -/

/-- A character that ends a text is decoded only if it can be escaped. -/
theorem forall_of_decodeUntil {stop : Char → Bool} {skipping : Bool} {cs text rest : List Char}
    (h : decodeUntil stop skipping cs = some (text, rest)) :
    ∀ c ∈ text, stop c = true → isEscapable c = true := by
  fun_induction decodeUntil stop skipping cs generalizing text rest with
  | case1 | case7 =>
      obtain ⟨rfl, -⟩ := Prod.mk.inj (Option.some.inj h)
      exact List.forall_mem_nil _
  | case2 _ _ _ _ ih => exact ih h
  | case3 | case6 => cases h
  | case4 _ _ _ ih => exact ih h
  | case5 _ d _ _ hescapable _ ih =>
      obtain ⟨r, hr, hpair⟩ := Option.map_eq_some_iff.1 h
      obtain ⟨rfl, -⟩ := Prod.mk.inj hpair
      exact List.forall_mem_cons.2 ⟨fun _ => hescapable, ih hr⟩
  | case8 _ d _ _ _ hstop ih =>
      obtain ⟨r, hr, hpair⟩ := Option.map_eq_some_iff.1 h
      obtain ⟨rfl, -⟩ := Prod.mk.inj hpair
      exact List.forall_mem_cons.2 ⟨fun h => absurd h hstop, ih hr⟩

/-- A property of all items that a step reads holds of all items that a loop over it reads. -/
theorem Reader.forall_of_many {α : Type} {p : α → Prop} {done : List Char → Bool}
    {item : Reader α} (hitem : ∀ {cs a rest}, item cs = some (a, rest) → p a)
    {cs rest : List Char} {as : List α} (h : many done item cs = some (as, rest)) :
    ∀ a ∈ as, p a := by
  fun_induction many done item cs generalizing as rest with
  | case1 =>
      obtain ⟨rfl, -⟩ := Prod.mk.inj (Option.some.inj h)
      exact List.forall_mem_nil _
  | case2 | case3 | case5 => cases h
  | case4 _ _ a _ ha _ _ _ hrest ih =>
      obtain ⟨rfl, -⟩ := Prod.mk.inj (Option.some.inj h)
      exact List.forall_mem_cons.2 ⟨hitem ha, ih hrest⟩

/-- No path that is read holds the end of a line or `|`. -/
theorem forall_of_readPaths {cs rest : List Char} {ps : List String}
    (h : readPaths cs = some (ps, rest)) : ∀ p ∈ ps, ∀ c ∈ p.toList, c ≠ '\n' ∧ c ≠ '|' := by
  rw [readPaths] at h
  obtain ⟨⟨ps', rest'⟩, hmany, h⟩ := Option.bind_eq_some_iff.1 h
  obtain ⟨rfl, -⟩ := Prod.mk.inj (Option.some.inj h)
  refine Reader.forall_of_many (fun {cs p rest} hpath => ?_) hmany
  rw [readPath] at hpath
  obtain ⟨⟨text, rest⟩, htext, hpath⟩ := Option.bind_eq_some_iff.1 hpath
  obtain ⟨rfl, -⟩ := Prod.mk.inj (Option.some.inj hpath)
  intro c hc
  have hescapable := forall_of_decodeUntil htext c (by simpa using hc)
  constructor <;> rintro rfl <;> exact absurd (hescapable (by decide)) (by decide)

/-- Paths are read back exactly if none of them holds the end of a line or `|`. -/
theorem readPaths_pathList_iff {ps : List String} {rest : List Char} (hne : ∀ p ∈ ps, p ≠ "")
    (hrest : noPath rest = true) :
    readPaths ((pathList ps).toList ++ rest) = some (ps, skipSpaces rest)
      ↔ ∀ p ∈ ps, ∀ c ∈ p.toList, c ≠ '\n' ∧ c ≠ '|' := by
  constructor
  · exact forall_of_readPaths
  · exact fun h => readPaths_pathList (fun p hp => ⟨hne p hp, h p hp⟩) hrest

/-! ## Values -/

/-- Values are read back exactly if each has one line and does not begin with a space. -/
theorem readBindings_varLines_iff {vars : Bindings} {rest : List Char}
    (hnames : ∀ v ∈ vars.entries, IsName v.1) (hrest : rest.head? ≠ some ' ') :
    readBindings (decodeUntil isLineEnd false) ((varLines vars).toList ++ rest)
        = some (vars.entries, rest)
      ↔ ∀ v ∈ vars.entries, '\n' ∉ v.2.toList ∧ v.2.toList.head? ≠ some ' ' := by
  rw [readBindings_varLines hnames hrest, Option.some.injEq, Prod.mk.injEq, and_iff_left rfl,
    map_lineValue_eq_self_iff]
  exact forall₂_congr fun v _ => lineValue_eq_self_iff

/-! ## Paths and values -/

/-- The texts that are read back after they were escaped: on a line of paths those without ends of
lines and without `|`, behind the name of a variable those without ends of lines that do not begin
with a space. -/
theorem reads_escaped_iff {ps : List String} {vars : Bindings} {more rest : List Char}
    (hne : ∀ p ∈ ps, p ≠ "") (hmore : noPath more = true)
    (hnames : ∀ v ∈ vars.entries, IsName v.1) (hrest : rest.head? ≠ some ' ') :
    (readPaths ((pathList ps).toList ++ more) = some (ps, skipSpaces more)
        ↔ ∀ p ∈ ps, ∀ c ∈ p.toList, c ≠ '\n' ∧ c ≠ '|')
      ∧ (readBindings (decodeUntil isLineEnd false) ((varLines vars).toList ++ rest)
          = some (vars.entries, rest)
        ↔ ∀ v ∈ vars.entries, '\n' ∉ v.2.toList ∧ v.2.toList.head? ≠ some ' ') :=
  ⟨readPaths_pathList_iff hne hmore, readBindings_varLines_iff hnames hrest⟩

/-- A path with `|` and a value that begins with a space are not read back. -/
theorem reads_escaped_of_bar_and_space :
    let vars := Bindings.empty.insert "opt" " a"
    readPaths ((pathList ["a|b"]).toList ++ ['\n']) ≠ some (["a|b"], ['\n'])
      ∧ readBindings (decodeUntil isLineEnd false) ((varLines vars).toList ++ ['\n'])
        ≠ some ([("opt", " a")], ['\n']) := by
  intro vars
  have hne : ∀ p ∈ ["a|b"], p ≠ "" := by decide
  have hmore : noPath ['\n'] = true := rfl
  have hnames : ∀ v ∈ vars.entries, IsName v.1 := by decide
  have hrest : ['\n'].head? ≠ some ' ' := by decide
  obtain ⟨hpaths, hvalues⟩ := reads_escaped_iff hne hmore hnames hrest
  constructor
  · intro hread
    exact (hpaths.1 hread "a|b" List.mem_cons_self '|' (by decide)).2 rfl
  · intro hread
    exact (hvalues.1 hread ("opt", " a") List.mem_cons_self).2 rfl

end BuildGraph.Ninja
