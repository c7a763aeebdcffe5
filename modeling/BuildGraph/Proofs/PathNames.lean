import BuildGraph.Files

/-!
# Names on paths

An absolute path in normal form is a list of names (`IsEntryName`), none of them empty, a dot or
two dots, and none with a slash.  Writing such a list as a path and cutting the path again gives
the list back (`pieces_path`), so what a path means to a walk can be said about lists of names.
-/

namespace BuildGraph

/-! ## Cutting what was glued -/

namespace Text

theorem cut_of_not_mem {sep : Char} {cs : List Char} (h : sep ∉ cs) : cut sep cs = [cs] := by
  induction cs with
  | nil => rfl
  | cons c cs ih =>
      obtain ⟨hc, hcs⟩ := List.ne_and_not_mem_of_not_mem_cons h
      simp only [cut, if_neg (Ne.symm hc), ih hcs]

theorem cut_append {sep : Char} {cs : List Char} (h : sep ∉ cs) (rest : List Char) :
    cut sep (cs ++ sep :: rest) = cs :: cut sep rest := by
  induction cs with
  | nil => simp [cut]
  | cons c cs ih =>
      obtain ⟨hc, hcs⟩ := List.ne_and_not_mem_of_not_mem_cons h
      rw [List.cons_append, cut, if_neg (Ne.symm hc), ih hcs]

/-- Texts without the separator are the pieces of the text that joins them. -/
theorem cut_join {sep : Char} {s : String} {rest : List String} (hs : sep ∉ s.toList)
    (h : ∀ t ∈ rest, sep ∉ t.toList) :
    cut sep (join (String.singleton sep) (s :: rest)).toList
      = s.toList :: rest.map String.toList := by
  induction rest generalizing s with
  | nil => exact cut_of_not_mem hs
  | cons t rest ih =>
      obtain ⟨ht, hrest⟩ := List.forall_mem_cons.1 h
      rw [join_cons_cons, String.toList_append, String.toList_append, List.append_assoc]
      rw [String.toList_singleton, List.singleton_append, cut_append hs, ih ht hrest,
        List.map_cons]

end Text

namespace Path

/-! ## Names -/

/-- A name that an entry of a directory can have. -/
structure IsEntryName (name : String) : Prop where
  ne_empty : name ≠ ""
  ne_dot : name ≠ "."
  ne_dots : name ≠ ".."
  no_slash : '/' ∉ name.toList

instance (name : String) : Decidable (IsEntryName name) :=
  decidable_of_iff (name ≠ "" ∧ name ≠ "." ∧ name ≠ ".." ∧ '/' ∉ name.toList)
    ⟨fun ⟨he, hd, hds, hs⟩ => ⟨he, hd, hds, hs⟩, fun ⟨he, hd, hds, hs⟩ => ⟨he, hd, hds, hs⟩⟩

theorem mem_pieces {p piece : String} (h : piece ∈ pieces p) : '/' ∉ piece.toList := by
  obtain ⟨cs, hcs, rfl⟩ := List.mem_map.1 h
  rw [String.toList_ofList]
  exact Text.not_mem_of_mem_cut hcs

/-- A piece between slashes stands for two dots or the name of an entry, if for anything. -/
theorem ofPiece?_eq_some {piece : String} {c : Component} (hslash : '/' ∉ piece.toList)
    (h : ofPiece? piece = some c) : c = .up ∨ ∃ s, c = .name s ∧ IsEntryName s := by
  rw [ofPiece?] at h
  split at h
  · cases h
  · next hdot =>
      split at h
      · exact .inl (Option.some.inj h).symm
      · next hdots =>
          exact .inr ⟨piece, (Option.some.inj h).symm, fun h => hdot (.inl h),
            fun h => hdot (.inr h), hdots, hslash⟩

/-- The names among the components of a path are names of entries. -/
theorem isEntryName_of_mem_components {p name : String} (h : Component.name name ∈ components p) :
    IsEntryName name := by
  have hrest : Component.name name ∈ (pieces p).filterMap ofPiece? := by
    rw [components] at h
    split at h
    · simpa using h
    · split at h
      · simpa using h
      · exact h
  obtain ⟨piece, hpiece, hof⟩ := List.mem_filterMap.1 hrest
  obtain hup | ⟨s, hname, hs⟩ := ofPiece?_eq_some (mem_pieces hpiece) hof
  · cases hup
  · rwa [Component.name.inj hname]

section Steps

variable {q : String → Prop} {absolute : Bool} {names : List String}

/-- One more component leaves names with a property, which two dots must have as well unless the
path is absolute. -/
theorem forall_mem_step {c : Component} (h : ∀ n ∈ names, q n) (hdots : absolute = false → q "..")
    (hc : ∀ s, c = .name s → q s) : ∀ n ∈ step absolute names c, q n := by
  intro n hn
  cases c with
  | root => exact h n hn
  | here => exact h n hn
  | up =>
      rw [step] at hn
      split at hn
      · cases absolute with
        | true => cases hn
        | false =>
            rw [List.mem_singleton.1 hn]
            exact hdots rfl
      · exact h n ((List.dropLast_sublist names).subset hn)
  | name s =>
      obtain hn | hn := List.mem_append.1 hn
      · exact h n hn
      · rw [List.mem_singleton.1 hn]
        exact hc s rfl

theorem forall_mem_foldl_step {cs : List Component} (h : ∀ n ∈ names, q n)
    (hdots : absolute = false → q "..") (hc : ∀ s, Component.name s ∈ cs → q s) :
    ∀ n ∈ cs.foldl (step absolute) names, q n := by
  induction cs generalizing names with
  | nil => exact h
  | cons c cs ih =>
      refine ih (forall_mem_step h hdots ?_) fun s hs => hc s (List.mem_cons_of_mem c hs)
      rintro s rfl
      exact hc s List.mem_cons_self

end Steps

/-- An absolute path in normal form consists of names of entries. -/
theorem isEntryName_of_mem_normalNames {p name : String} (hp : isAbsolute p = true)
    (h : name ∈ normalNames p) : IsEntryName name := by
  rw [normalNames, reduce, hp] at h
  exact forall_mem_foldl_step (by simp) (by simp) (fun s => isEntryName_of_mem_components) name h

/-! ## Paths of locations -/

theorem toList_path (l : Location) : l.path.toList = '/' :: (Text.join "/" l).toList := by
  rw [Location.path, render, if_pos rfl, String.toList_append]
  rfl

theorem isAbsolute_path (l : Location) : isAbsolute l.path = true := by
  rw [isAbsolute, toList_path]
  rfl

/-- What is read from an absolute directory is absolute. -/
theorem isAbsolute_append {base : String} (h : isAbsolute base = true) (name : String) :
    isAbsolute (append base name) = true := by
  rw [append]
  split
  · next hn => exact hn
  · have hfront (s : String) : isAbsolute (base ++ s) = true := by
      rw [isAbsolute] at h ⊢
      cases hb : base.toList with
      | nil =>
          rw [hb] at h
          cases h
      | cons c cs =>
          rw [hb] at h
          rw [String.toList_append, hb]
          exact h
    split
    · exact hfront name
    · rw [String.append_assoc]
      exact hfront ("/" ++ name)

/-- The pieces of the path of a location are its names; the root has one that is empty. -/
theorem pieces_path {l : Location} (h : ∀ n ∈ l, IsEntryName n) :
    pieces l.path = "" :: if l = [] then [""] else l := by
  have hcut : Text.cut '/' ('/' :: (Text.join "/" l).toList)
      = [] :: Text.cut '/' (Text.join "/" l).toList :=
    Text.cut_append (List.not_mem_nil) _
  rw [pieces, toList_path, hcut]
  cases l with
  | nil => rfl
  | cons n l =>
      obtain ⟨hn, hl⟩ := List.forall_mem_cons.1 h
      have hnames := Text.cut_join hn.no_slash fun t ht => (hl t ht).no_slash
      have hsep : String.singleton '/' = "/" := rfl
      rw [hsep] at hnames
      rw [if_neg (List.cons_ne_nil n l), hnames]
      simp

end Path

end BuildGraph
