import BuildGraph.Proofs.PathNames

/-!
# Trees of files

The entries of files form a tree (`Files.IsTree`): each lies in a directory, under a name that a
directory can hold, and no two lie at one location.  A directory has everything above it
(`IsTree.lookup_of_append`), so what a scan finds that follows no link (`Files.Scans`) is what lies
below at all.

An entry that is put into a directory, in the place of one that is no directory, leaves a tree
(`IsTree.insert`).
-/

namespace BuildGraph.Files

open BuildGraph.Path

/-- The entries lie in directories of their own, one at each location. -/
structure IsTree (fs : Files) : Prop where
  ne_root : ∀ e ∈ fs.entries, e.1 ≠ []
  names : ∀ e ∈ fs.entries, ∀ n ∈ e.1, IsEntryName n
  parent : ∀ e ∈ fs.entries, fs.lookup e.1.dropLast = some .directory
  nodup : (fs.entries.map (·.1)).Nodup

/-- What is found below a directory, with its location from there, going through directories
only. -/
inductive Scans (fs : Files) (root : Location) : Location → Entry → Prop where
  | top {name : String} {e : Entry} (h : fs.lookup (root ++ [name]) = some e) :
      Scans fs root [name] e
  | inside {dir : Location} {name : String} {e : Entry} (hdir : Scans fs root dir .directory)
      (h : fs.lookup (root ++ (dir ++ [name])) = some e) : Scans fs root (dir ++ [name]) e

variable {fs : Files} {l m : Location} {e : Entry}

theorem lookup_of_ne_nil (fs : Files) (h : l ≠ []) :
    fs.lookup l = (fs.entries.find? (·.1 == l)).map (·.2) := by
  rw [lookup, if_neg h]

theorem mem_of_lookup (hl : l ≠ []) (h : fs.lookup l = some e) : (l, e) ∈ fs.entries := by
  rw [lookup_of_ne_nil fs hl] at h
  obtain ⟨p, hp, rfl⟩ := Option.map_eq_some_iff.1 h
  have hloc : p.1 = l := by simpa using List.find?_some hp
  have hmem := List.mem_of_find?_eq_some hp
  rw [← hloc]
  exact hmem

/-- No entry hides another if no two lie at one location. -/
theorem lookup_of_nodup (hnodup : (fs.entries.map (·.1)).Nodup) (hl : l ≠ [])
    (h : (l, e) ∈ fs.entries) : fs.lookup l = some e := by
  rw [lookup_of_ne_nil fs hl]
  generalize fs.entries = entries at h hnodup
  induction entries with
  | nil => cases h
  | cons p rest ih =>
      obtain ⟨hp, hrest⟩ := List.nodup_cons.1 hnodup
      cases h with
      | head => simp
      | tail _ h =>
          have hne : (p.1 == l) = false := by
            rw [beq_eq_false_iff_ne]
            rintro rfl
            exact hp (List.mem_map.2 ⟨_, h, rfl⟩)
          rw [List.find?_cons_of_neg (by simp [hne])]
          exact ih h hrest

namespace IsTree

theorem mem_iff (ht : fs.IsTree) : (l, e) ∈ fs.entries ↔ l ≠ [] ∧ fs.lookup l = some e :=
  ⟨fun h => ⟨ht.ne_root _ h, lookup_of_nodup ht.nodup (ht.ne_root _ h) h⟩,
    fun h => mem_of_lookup h.1 h.2⟩

theorem isEntryName_of_lookup (ht : fs.IsTree) (h : fs.lookup l = some e) :
    ∀ n ∈ l, IsEntryName n := by
  by_cases hl : l = []
  · simp [hl]
  · exact ht.names _ (mem_of_lookup hl h)

/-- An entry lies in a directory; the root lies in itself. -/
theorem lookup_dropLast (ht : fs.IsTree) (h : fs.lookup l = some e) :
    fs.lookup l.dropLast = some .directory := by
  by_cases hl : l = []
  · rw [hl]
    exact lookup_root fs
  · exact ht.parent _ (mem_of_lookup hl h)

/-- Everything above an entry is a directory. -/
theorem lookup_of_append (ht : fs.IsTree) (hm : m ≠ []) (h : fs.lookup (l ++ m) = some e) :
    fs.lookup l = some .directory := by
  induction m generalizing l with
  | nil => exact absurd rfl hm
  | cons n m ih =>
      have hlookup : ∃ e, fs.lookup (l ++ [n]) = some e := by
        cases m with
        | nil => exact ⟨e, h⟩
        | cons n' m =>
            rw [List.append_cons] at h
            exact ⟨.directory, ih (List.cons_ne_nil n' m) h⟩
      obtain ⟨e', h'⟩ := hlookup
      have hparent := ht.lookup_dropLast h'
      rwa [List.dropLast_concat] at hparent

/-- From a directory that a scan found, everything below is found. -/
theorem scans_append (ht : fs.IsTree) {root dir rest : Location}
    (hdir : fs.Scans root dir .directory) (hrest : rest ≠ [])
    (h : fs.lookup (root ++ (dir ++ rest)) = some e) : fs.Scans root (dir ++ rest) e := by
  induction rest generalizing dir with
  | nil => exact absurd rfl hrest
  | cons n rest ih =>
      cases rest with
      | nil => exact .inside hdir h
      | cons n' rest =>
          rw [List.append_cons] at h ⊢
          have hn : fs.lookup (root ++ (dir ++ [n])) = some .directory := by
            rw [← List.append_assoc] at h
            exact ht.lookup_of_append (List.cons_ne_nil n' rest) h
          exact ih (.inside hdir hn) (List.cons_ne_nil n' rest) h

/-- A scan finds all that lies below a directory. -/
theorem scans_iff (ht : fs.IsTree) {root : Location} :
    fs.Scans root l e ↔ l ≠ [] ∧ fs.lookup (root ++ l) = some e := by
  constructor
  · intro h
    cases h with
    | top h => exact ⟨List.cons_ne_nil _ _, h⟩
    | inside _ h => exact ⟨by simp, h⟩
  · rintro ⟨hl, h⟩
    cases l with
    | nil => exact absurd rfl hl
    | cons n l =>
        cases l with
        | nil => exact .top h
        | cons n' l =>
            have hn : fs.lookup (root ++ [n]) = some .directory := by
              rw [List.append_cons] at h
              exact ht.lookup_of_append (List.cons_ne_nil n' l) h
            exact ht.scans_append (.top hn) (List.cons_ne_nil n' l) h

/-! ## Changes -/

/-- An entry is put into a directory, in the place of none that could have something below it. -/
theorem insert (ht : fs.IsTree) {dir : Location} {name : String}
    (hdir : fs.lookup dir = some .directory) (hname : IsEntryName name)
    (hfree : fs.lookup (dir ++ [name]) ≠ some .directory) (e : Entry) :
    (fs.insert (dir ++ [name]) e).IsTree := by
  have hkeep {m : Location} (hm : fs.lookup m = some .directory) :
      (fs.insert (dir ++ [name]) e).lookup m = some .directory := by
    have hne : m ≠ dir ++ [name] := by
      rintro rfl
      exact hfree hm
    rw [lookup_insert_of_ne fs e hne, hm]
  have hmem {p : Location × Entry} (h : p ∈ (fs.insert (dir ++ [name]) e).entries) :
      p = (dir ++ [name], e) ∨ p ∈ fs.entries := by
    obtain h | h := List.mem_cons.1 h
    · exact .inl h
    · exact .inr (List.mem_filter.1 h).1
  constructor
  case ne_root =>
    intro p hp
    obtain rfl | hp := hmem hp
    · simp
    · exact ht.ne_root p hp
  case names =>
    intro p hp
    obtain rfl | hp := hmem hp
    · intro n hn
      obtain hn | hn := List.mem_append.1 hn
      · exact ht.isEntryName_of_lookup hdir n hn
      · rw [List.mem_singleton.1 hn]
        exact hname
    · exact ht.names p hp
  case parent =>
    intro p hp
    obtain rfl | hp := hmem hp
    · rw [List.dropLast_concat]
      exact hkeep hdir
    · exact hkeep (ht.parent p hp)
  case nodup =>
    rw [Files.insert, List.map_cons, List.nodup_cons]
    constructor
    · intro h
      obtain ⟨p, hp, heq⟩ := List.mem_map.1 h
      have hne := (List.mem_filter.1 hp).2
      simp [heq] at hne
    · exact ht.nodup.sublist (List.filter_sublist.map _)

end IsTree

end BuildGraph.Files
