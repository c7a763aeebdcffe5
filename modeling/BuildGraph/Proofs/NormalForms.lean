import BuildGraph.Proofs.Invocations

/-!
# Normal forms found on texts

The normal form of a path can be found on texts, with no list of names beside them
(`Path.advance`): a name is joined to the text so far, and `..` cuts the text off before its last
component, for which the text is taken apart again.  Where there is no component to cut off, `..`
is kept or, in an absolute path, has no effect.

Every text on the way is the text of names, none of which stands for nothing.  So joining adds a
name (`Path.append_render_name`), the parent is the text without the last name
(`Path.parent?_render`), and one step on the text is one step on the names
(`Path.advance_render`).  All steps together lead to the normal form
(`Path.foldl_advance_components`), for which the laws of `Path.normal_laws` hold.
-/

namespace BuildGraph.Path

/-! ## Steps on texts -/

/-- The text of a path with one more component. -/
def advance (absolute : Bool) (text : String) : Component → String
  | .root => append text "/"
  | .here => text
  | .up =>
    match parent? text with
    | some above => above
    | none => if absolute then text else append text ".."
  | .name s => append text s

/-- A name that stands in the text of a path: it stands for something, and has no slash. -/
def IsWritten (name : String) : Prop := isIdle name = false ∧ '/' ∉ name.toList

theorem isWritten_dots : IsWritten ".." := by
  unfold IsWritten
  decide

theorem isWritten_of_isEntryName {name : String} (h : IsEntryName name) : IsWritten name :=
  ⟨isIdle_eq_false_of_isEntryName h, h.no_slash⟩

theorem IsWritten.ne_empty {name : String} (h : IsWritten name) : name ≠ "" := by
  rintro rfl
  cases h.1

/-- One step on a text of names is one step on the names. -/
theorem advance_render {absolute : Bool} {names : List String} {c : Component}
    (hnames : ∀ n ∈ names, IsWritten n) (hroot : c ≠ .root)
    (hc : ∀ s, c = .name s → IsWritten s) :
    advance absolute (render absolute names) c = render absolute (step absolute names c) := by
  cases c with
  | root => exact absurd rfl hroot
  | here => rfl
  | name s =>
      exact append_render_name (fun n hn => ⟨(hnames n hn).ne_empty, (hnames n hn).2⟩) (hc s rfl).2
  | up =>
      obtain rfl | ⟨front, name, rfl⟩ := List.eq_nil_or_concat names
      · cases absolute <;> decide +kernel
      · rw [List.concat_eq_append] at hnames ⊢
        have hne : front ++ [name] ≠ [] := List.concat_ne_nil name front
        rw [advance, parent?_render hnames, step, if_neg hne, List.dropLast_concat]

theorem foldl_advance {absolute : Bool} {names : List String} {cs : List Component}
    (hnames : ∀ n ∈ names, IsWritten n)
    (hcs : ∀ c ∈ cs, c = .up ∨ ∃ s, c = .name s ∧ IsEntryName s) :
    cs.foldl (advance absolute) (render absolute names)
      = render absolute (cs.foldl (step absolute) names) := by
  induction cs generalizing names with
  | nil => rfl
  | cons c cs ih =>
      obtain ⟨hc, hrest⟩ := List.forall_mem_cons.1 hcs
      have hroot : c ≠ .root := by
        rintro rfl
        simp at hc
      have hname : ∀ s, c = .name s → IsWritten s := by
        rintro s rfl
        exact isWritten_of_isEntryName (by simpa using hc)
      rw [List.foldl_cons, List.foldl_cons, advance_render hnames hroot hname]
      exact ih (forall_mem_step hnames (fun _ => isWritten_dots) hname) hrest

/-- What leads somewhere in a path is two dots or the name of an entry. -/
theorem eq_up_or_name_of_mem_moves {p : String} {c : Component} (h : c ∈ moves p) :
    c = .up ∨ ∃ s, c = .name s ∧ IsEntryName s := by
  obtain ⟨piece, hpiece, hof⟩ := List.mem_filterMap.1 h
  exact ofPiece?_eq_some (mem_pieces hpiece) hof

/-- Component by component, from the empty text on, the text becomes the normal form. -/
theorem foldl_advance_components (p : String) :
    (components p).foldl (advance (isAbsolute p)) "" = normal p := by
  -- The root and a leading dot leave the text without names, from which the others lead on.
  have hstart : (components p).foldl (advance (isAbsolute p)) ""
      = (moves p).foldl (advance (isAbsolute p)) (render (isAbsolute p) []) := by
    unfold components
    cases isAbsolute p with
    | true => rfl
    | false =>
        simp only [Bool.false_eq_true, if_false]
        split
        · rfl
        · rfl
  rw [hstart, foldl_advance (List.forall_mem_nil _) fun c => eq_up_or_name_of_mem_moves, normal,
    normalNames_eq_foldl]

/-! ## Laws -/

/-- **Laws of normal forms.**  The normal form of a path is found by steps on its text.  It is its
own normal form and as absolute as the path, and a path that is joined to it has the normal form of
the path joined to the original.  The normal form of an absolute path is the path of a location:
its components are the root and names of entries. -/
theorem normal_laws (a b : String) :
    (components a).foldl (advance (isAbsolute a)) "" = normal a
      ∧ normal (normal a) = normal a
      ∧ isAbsolute (normal a) = isAbsolute a
      ∧ normal (append (normal a) b) = normal (append a b)
      ∧ (isAbsolute a = true → ∃ l : Location, (∀ n ∈ l, IsEntryName n)
        ∧ normal a = l.path ∧ components (normal a) = .root :: l.map .name) := by
  refine ⟨foldl_advance_components a, normal_normal a, isAbsolute_normal a,
    normal_append_normal a b, fun ha => ?_⟩
  have hnames : ∀ n ∈ normalNames a, IsEntryName n := fun n => isEntryName_of_mem_normalNames ha
  have hpath : normal a = Location.path (normalNames a) := (path_normalNames ha).symm
  exact ⟨normalNames a, hnames, hpath, hpath ▸ components_path hnames⟩

/-- More dots than directories: the root is left by none of them, neither in the path nor in one
that is joined to it. -/
theorem normal_laws_above_root :
    isAbsolute "/a/../../../b//./c" = true
      ∧ (components "/a/../../../b//./c").foldl (advance true) "" = "/b/c"
      ∧ normal (append "/b/c" "../../../x") = "/x"
      ∧ ∃ l : Location, l.path = "/b/c" ∧ components "/b/c" = .root :: l.map .name := by
  have ha : isAbsolute "/a/../../../b//./c" = true := by decide
  have hnormal : normal "/a/../../../b//./c" = "/b/c" := by decide +kernel
  obtain ⟨hsteps, -, -, happend, habsolute⟩ := normal_laws "/a/../../../b//./c" "../../../x"
  obtain ⟨l, -, hpath, hcomponents⟩ := habsolute ha
  rw [hnormal] at hsteps happend hpath hcomponents
  refine ⟨ha, hsteps, ?_, l, hpath.symm, hcomponents⟩
  rw [happend]
  decide +kernel

end BuildGraph.Path
