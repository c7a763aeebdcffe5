/-!
# Variable bindings

The variables of an edge, in increasing order of their names and each name once.  The order is
part of the type, so two sets of bindings with the same entries are equal and are written alike.
-/

namespace BuildGraph

/-- Values by name, names strictly increasing. -/
structure Bindings where
  /-- The bindings in order. -/
  entries : List (String × String)
  /-- Names increase. -/
  sorted : entries.Pairwise (fun a b => a.1 < b.1) := by simp
  deriving DecidableEq

namespace Bindings

/-- No bindings. -/
def empty : Bindings where
  entries := []

instance : Inhabited Bindings := ⟨empty⟩

theorem ext {a b : Bindings} (h : a.entries = b.entries) : a = b := by
  cases a; cases b; simp_all

/-- The entries with one binding added or replaced. -/
def insertEntry (name value : String) : List (String × String) → List (String × String)
  | [] => [(name, value)]
  | (n, v) :: rest =>
    if name < n then (name, value) :: (n, v) :: rest
    else if name = n then (name, value) :: rest
    else (n, v) :: insertEntry name value rest

/-- Insertion brings in no name but the new one. -/
theorem mem_insertEntry {name value : String} {l : List (String × String)} {e : String × String}
    (h : e ∈ insertEntry name value l) : e = (name, value) ∨ e ∈ l := by
  induction l with
  | nil => simpa [insertEntry] using h
  | cons a l ih =>
      obtain ⟨n, v⟩ := a
      simp only [insertEntry] at h
      split at h
      · simpa using h
      · split at h
        · rcases List.mem_cons.1 h with h | h
          · exact .inl h
          · exact .inr (List.mem_cons_of_mem _ h)
        · rcases List.mem_cons.1 h with h | h
          · exact .inr (h ▸ List.mem_cons_self ..)
          · exact (ih h).imp id (List.mem_cons_of_mem _)

theorem pairwise_insertEntry {name value : String} {l : List (String × String)}
    (h : l.Pairwise (fun a b => a.1 < b.1)) :
    (insertEntry name value l).Pairwise (fun a b => a.1 < b.1) := by
  induction l with
  | nil => simp [insertEntry]
  | cons a l ih =>
      obtain ⟨n, v⟩ := a
      obtain ⟨hl, hr⟩ := List.pairwise_cons.1 h
      simp only [insertEntry]
      split
      · next hlt =>
          refine List.pairwise_cons.2 ⟨fun e he => ?_, h⟩
          rcases List.mem_cons.1 he with rfl | he
          · exact hlt
          · exact String.lt_trans hlt (hl e he)
      · next hlt =>
          split
          · next heq =>
              subst heq
              exact List.pairwise_cons.2 ⟨hl, hr⟩
          · next hne =>
              refine List.pairwise_cons.2 ⟨fun e he => ?_, ih hr⟩
              rcases mem_insertEntry he with rfl | he
              · refine Decidable.byContradiction fun hnl => ?_
                exact hne (String.le_antisymm (String.not_lt.1 hnl) (String.not_lt.1 hlt))
              · exact hl e he

/-- The bindings with one more, or with one replaced. -/
def insert (b : Bindings) (name value : String) : Bindings where
  entries := insertEntry name value b.entries
  sorted := pairwise_insertEntry b.sorted

/-- The bindings of a list of pairs, a later pair replacing an earlier one of its name. -/
def ofList (pairs : List (String × String)) : Bindings :=
  pairs.foldl (fun b p => b.insert p.1 p.2) empty

/-- Whether there are none. -/
def isEmpty (b : Bindings) : Bool := b.entries.isEmpty

end Bindings

end BuildGraph
