import BuildGraph.Files.Write
import BuildGraph.Proofs.FileGrowth
import Mathlib.Data.String.Basic

/-!
# Places of new files

A path whose last component is a name has a place: the directory to which the pieces before the
name lead, and the name (`Files.Placed`).  Where nothing lies at the place nothing lies at the path
(`Placed.pathExists_eq_false`), and what is put there lies at the path (`Vacant.stat_insert`).

The directory of a new file is looked for by the text of the path's parent.  That is a part of the
path, from which further pieces that stand for nothing are gone, so it leads to the same directory
(`Placed.stat_directoryOf`).  A file is thus written exactly if nothing lies at its place, the path
does not end in a slash and a draft beside it has a path that is short enough
(`writeNew_of_place`); and it is written in no other case (`exists_place_of_writeNew`).
-/

namespace BuildGraph

namespace Text

theorem toList_join (sep : Char) (ps : List (List Char)) :
    (join (String.singleton sep) (ps.map String.ofList)).toList = glue sep ps := by
  induction ps with
  | nil => rfl
  | cons p ps ih =>
      cases ps with
      | nil => exact String.toList_ofList
      | cons q qs =>
          have hglue : glue sep (p :: q :: qs) = p ++ sep :: glue sep (q :: qs) := rfl
          rw [List.map_cons] at ih
          rw [List.map_cons, List.map_cons, join_cons_cons, String.toList_append,
            String.toList_append, ih, String.toList_ofList, String.toList_singleton,
            List.append_assoc, List.singleton_append, hglue]

theorem join_append (sep s t : String) (ss ts : List String) :
    join sep (s :: ss ++ t :: ts) = join sep (s :: ss) ++ (sep ++ join sep (t :: ts)) := by
  induction ss generalizing s with
  | nil => rw [List.singleton_append, join_cons_cons, join_singleton, String.append_assoc]
  | cons u us ih =>
      rw [List.cons_append, List.cons_append, join_cons_cons, ← List.cons_append, ih,
        join_cons_cons, String.append_assoc, String.append_assoc, String.append_assoc]

theorem eq_of_join_eq_empty {sep s : String} {ss : List String} (hsep : sep ≠ "")
    (h : join sep (s :: ss) = "") : s = "" ∧ ss = [] := by
  cases ss with
  | nil => exact ⟨h, rfl⟩
  | cons t ts =>
      rw [join_cons_cons, String.append_eq_empty_iff, String.append_eq_empty_iff] at h
      exact absurd h.1.2 hsep

end Text

namespace Path

/-! ## Paths and their pieces -/

/-- A path is made of its pieces. -/
theorem join_pieces (p : String) : Text.join "/" (pieces p) = p := by
  have h := Text.toList_join '/' (Text.cut '/' p.toList)
  rw [Text.glue_cut] at h
  exact String.toList_inj.1 h

/-- The pieces of a path that is made of pieces without a slash. -/
theorem pieces_join {piece : String} {rest : List String}
    (h : ∀ s ∈ piece :: rest, '/' ∉ s.toList) :
    pieces (Text.join "/" (piece :: rest)) = piece :: rest := by
  obtain ⟨hpiece, hrest⟩ := List.forall_mem_cons.1 h
  have hcut := Text.cut_join hpiece hrest
  have hsep : String.singleton '/' = "/" := rfl
  rw [hsep] at hcut
  rw [pieces, hcut]
  simp

/-- A path is absolute if its first piece is empty and not its only one. -/
theorem isAbsolute_of_pieces_eq {p piece : String} {rest : List String}
    (h : pieces p = piece :: rest) :
    isAbsolute p = true ↔ piece = "" ∧ rest ≠ [] := by
  rw [isAbsolute]
  rw [pieces] at h
  cases hp : p.toList with
  | nil =>
      rw [hp, Text.cut, List.map_cons, List.map_nil] at h
      obtain ⟨-, rfl⟩ := List.cons.inj h
      simp
  | cons c cs =>
      by_cases hc : c = '/'
      · rw [hp, Text.cut, if_pos hc, List.map_cons] at h
        obtain ⟨rfl, rfl⟩ := List.cons.inj h
        have hne := Text.cut_ne_nil '/' cs
        simp [hc, hne]
      · rw [hp, Text.cut, if_neg hc] at h
        have hfirst : piece ≠ "" := by
          cases hcut : Text.cut '/' cs with
          | nil => exact absurd hcut (Text.cut_ne_nil '/' cs)
          | cons q qs =>
              rw [hcut, List.map_cons] at h
              rw [← (List.cons.inj h).1]
              simp
        simp [hc, hfirst]

theorem isIdle_iff {piece : String} : isIdle piece = true ↔ piece = "" ∨ piece = "." := by
  simp [isIdle]

/-- Pieces at the end that stand for nothing are dropped. -/
def trimIdle (ps : List String) : List String := (ps.reverse.dropWhile isIdle).reverse

theorem exists_append_trimIdle (ps : List String) :
    ∃ idle, ps = trimIdle ps ++ idle ∧ ∀ s ∈ idle, isIdle s = true := by
  refine ⟨(ps.reverse.takeWhile isIdle).reverse, ?_, fun s hs => ?_⟩
  · rw [trimIdle, ← List.reverse_append, List.takeWhile_append_dropWhile, List.reverse_reverse]
  · exact List.all_eq_true.1 List.all_takeWhile s (List.mem_reverse.1 hs)

theorem dropLastComponent_append {name : String} {mid slashes : List String}
    (hname : isIdle name = false) (hslashes : ∀ s ∈ slashes, isIdle s = true) :
    dropLastComponent (mid ++ name :: slashes) = trimIdle mid := by
  have hdrop : (mid ++ name :: slashes).reverse.dropWhile isIdle = name :: mid.reverse := by
    rw [List.reverse_append, List.reverse_cons, List.append_assoc, List.singleton_append,
      List.dropWhile_append_of_pos fun s hs => hslashes s (List.mem_reverse.1 hs),
      List.dropWhile_cons_of_neg (by simp [hname])]
  rw [dropLastComponent, hdrop, List.drop_one, List.tail_cons, trimIdle]

/-- A name alone lies in the working directory. -/
theorem directoryOf_of_alone {p name : String} {slashes : List String}
    (h : pieces p = name :: slashes) (hname : isIdle name = false)
    (hslashes : ∀ s ∈ slashes, isIdle s = true) : directoryOf p = "." := by
  have hne : name ≠ "" := by
    rintro rfl
    cases hname
  rw [directoryOf, parent?, h]
  simp [List.all_eq_true.2 hslashes, hne]

/-- What is above a path whose last component is a name behind other pieces. -/
theorem parent?_of_pieces_eq {p head name : String} {mid slashes : List String}
    (h : pieces p = head :: (mid ++ name :: slashes)) (hname : isIdle name = false)
    (hslashes : ∀ s ∈ slashes, isIdle s = true) :
    parent? p = some (if head = "" ∧ trimIdle mid = [] then "/"
      else Text.join "/" (head :: trimIdle mid)) := by
  have hbusy : (mid ++ name :: slashes).all isIdle = false := by simp [hname]
  rw [parent?, h]
  simp only [hbusy, Bool.false_eq_true, ↓reduceIte, dropLastComponent_append hname hslashes]
  split
  · next hnil => rw [if_pos ⟨rfl, hnil⟩]
  · next hne => rw [if_neg fun ⟨hhead, hnil⟩ => hne hhead hnil]

/-- The directory of a path whose last component is a name behind other pieces. -/
theorem directoryOf_of_pieces_eq {p head name : String} {mid slashes : List String}
    (h : pieces p = head :: (mid ++ name :: slashes)) (hname : isIdle name = false)
    (hslashes : ∀ s ∈ slashes, isIdle s = true) :
    directoryOf p = if head = "" ∧ trimIdle mid = [] then "/"
      else Text.join "/" (head :: trimIdle mid) := by
  have hparent := parent?_of_pieces_eq h hname hslashes
  have hnonempty : (if head = "" ∧ trimIdle mid = [] then "/"
      else Text.join "/" (head :: trimIdle mid)) ≠ "" := by
    split
    · decide
    · next hne => exact fun hempty => hne (Text.eq_of_join_eq_empty (by decide) hempty)
  rw [directoryOf, hparent]
  split
  · next hnone => cases hnone
  · next hempty => exact absurd (Option.some.inj hempty) hnonempty
  · next hdir => exact (Option.some.inj hdir).symm

end Path

namespace Files

open BuildGraph.Path

variable {fs more : Files} {p name : String} {dir : Location} {slash : Bool}

/-! ## Walks to places -/

/-- Pieces that stand for nothing lead nowhere. -/
theorem Walks.eq_of_idle {byPath : Bool} {links : Nat} {here l : Location} {xs : List String}
    (h : fs.Walks byPath links here xs l) (hxs : ∀ s ∈ xs, isIdle s = true) : l = here := by
  induction h with
  | done => rfl
  | stay _ _ _ ih => exact ih fun s hs => hxs s (List.mem_cons_of_mem _ hs)
  | up => cases hxs ".." List.mem_cons_self
  | enter _ hdot => exact absurd (isIdle_iff.1 (hxs _ List.mem_cons_self)) hdot
  | follow _ hdot => exact absurd (isIdle_iff.1 (hxs _ List.mem_cons_self)) hdot

/-- Pieces at the end that stand for nothing may be left out of a walk. -/
theorem Walks.of_append_idle {byPath : Bool} {links : Nat} {here l : Location}
    {xs idle : List String} (h : fs.Walks byPath links here (xs ++ idle) l)
    (hidle : ∀ s ∈ idle, isIdle s = true) : fs.Walks byPath links here xs l := by
  obtain ⟨m, left, hm, hl⟩ := h.split
  rwa [hl.eq_of_idle hidle]

theorem walk_idle {byPath : Bool} {links : Nat} {here : Location} {xs : List String}
    (hdir : fs.lookup here = some .directory) (hxs : ∀ s ∈ xs, isIdle s = true) :
    fs.walk byPath links here xs = .ok here := by
  induction xs with
  | nil => rw [walk]
  | cons x xs ih =>
      obtain ⟨hx, hxs⟩ := List.forall_mem_cons.1 hxs
      rw [walk_stay _ hdir (isIdle_iff.1 hx), ih hxs]

theorem walk_missing {byPath : Bool} {links : Nat} {here : Location} (rest : List String)
    (hdir : fs.lookup here = some .directory) (hdot : ¬(name = "" ∨ name = "."))
    (hdots : name ≠ "..") (hlook : canLook byPath here name = true)
    (he : fs.lookup (here ++ [name]) = none) :
    fs.walk byPath links here (name :: rest) = .error .notFound := by
  rw [walk, if_neg (Decidable.not_not.2 hdir), if_neg hdot, if_neg hdots,
    if_neg (by simp [hlook]), he]

/-- A path may be shortened as long as something is left. -/
theorem checkPath_of_sublist {q : String} (h : checkPath p = .ok ())
    (hsub : q.toList.Sublist p.toList) (hq : q ≠ "") : checkPath q = .ok () := by
  rw [checkPath] at h ⊢
  split at h
  · cases h
  · next hnul =>
      split at h
      · cases h
      · split at h
        · cases h
        · next hshort =>
            have hsize := String.utf8Len_le_of_sublist hsub
            rw [String.utf8Len_toList, String.utf8Len_toList] at hsize
            rw [if_neg fun hmem => hnul ?_, if_neg hq,
              if_neg fun hlong => hshort (hlong.trans hsize)]
            exact List.contains_iff_mem.2 (hsub.subset (List.contains_iff_mem.1 hmem))

theorem checkPath_of_append {q r : String} (h : checkPath (q ++ r) = .ok ()) (hq : q ≠ "") :
    checkPath q = .ok () :=
  checkPath_of_sublist h (String.toList_append ▸ List.sublist_append_left _ _) hq

/-! ## Places -/

/-- The pieces of a path up to its last that is not empty, and the empty ones behind it. -/
theorem pieces_eq_of_dropWhile {before : List String}
    (h : (pieces p).reverse.dropWhile (· = "") = name :: before) :
    pieces p = before.reverse ++ name :: ((pieces p).reverse.takeWhile (· = "")).reverse := by
  have hsplit := congrArg List.reverse (List.takeWhile_append_dropWhile
    (p := fun x => decide (x = "")) (l := (pieces p).reverse))
  rw [h, List.reverse_append, List.reverse_cons, List.append_assoc, List.singleton_append,
    List.reverse_reverse] at hsplit
  exact hsplit.symm

/-- An entry's place is a directory and a name that the directory can hold. -/
theorem of_place {dir : Location} {name : String} {slash : Bool}
    (h : fs.place p = .ok (some (dir, name, slash))) :
    fs.lookup dir = some .directory ∧ IsEntryName name := by
  rw [place] at h
  split at h
  · cases h
  · simp only at h
    split at h
    · cases h
    · next last before hlast =>
        have hempty : last ≠ "" := by
          have hhead := List.head?_dropWhile_not (fun x => decide (x = "")) (pieces p).reverse
          rw [hlast] at hhead
          simpa using hhead
        have hmem : last ∈ pieces p := by
          have hdrop : last ∈ ((pieces p).reverse.dropWhile fun x => decide (x = "")) := by
            rw [hlast]
            exact List.mem_cons_self
          exact List.mem_reverse.1 ((List.dropWhile_sublist _).subset hdrop)
        split at h
        · cases h
        · split at h
          · cases h
          · next hdir =>
              split at h
              · cases h
              · next hdots =>
                  split at h
                  · cases h
                  · simp only [Except.ok.injEq, Option.some.injEq, Prod.mk.injEq] at h
                    obtain ⟨rfl, rfl, -⟩ := h
                    exact ⟨Decidable.not_not.1 hdir, hempty, fun h => hdots (.inl h),
                      fun h => hdots (.inr h), mem_pieces hmem⟩

/-- A path whose last component is a name, before which it leads to a directory. -/
structure Placed (fs : Files) (p : String) (dir : Location) (name : String) (slash : Bool) :
    Prop where
  check : checkPath p = .ok ()
  directory : fs.lookup dir = some .directory
  isEntryName : IsEntryName name
  look : canLook false dir name = true
  exists_pieces : ∃ before slashes, pieces p = before ++ name :: slashes
    ∧ (∀ s ∈ slashes, s = "") ∧ slash = !slashes.isEmpty
    ∧ fs.Walks false maxLinks (fs.start p) before dir

namespace Placed

theorem of_place (h : fs.place p = .ok (some (dir, name, slash))) :
    fs.Placed p dir name slash := by
  obtain ⟨hdir, hname⟩ := Files.of_place h
  rw [place] at h
  cases hcheck : checkPath p with
  | error =>
      rw [hcheck] at h
      cases h
  | ok =>
      simp only [hcheck] at h
      cases hlast : (pieces p).reverse.dropWhile (· = "") with
      | nil =>
          rw [hlast] at h
          cases h
      | cons last before =>
          simp only [hlast] at h
          cases hwalk : fs.walk false maxLinks (fs.start p) before.reverse with
          | error =>
              rw [hwalk] at h
              cases h
          | ok =>
              simp only [hwalk] at h
              split at h
              · cases h
              · split at h
                · cases h
                · split at h
                  · cases h
                  · next hshort =>
                      simp only [Except.ok.injEq, Option.some.injEq, Prod.mk.injEq] at h
                      obtain ⟨rfl, rfl, rfl⟩ := h
                      refine ⟨hcheck, hdir, hname, by simpa [canLook] using hshort, before.reverse,
                        ((pieces p).reverse.takeWhile (· = "")).reverse, ?_, fun s hs => ?_,
                        by rw [List.isEmpty_reverse], walk_eq_ok_iff.1 hwalk⟩
                      · exact pieces_eq_of_dropWhile hlast
                      · simpa using List.all_eq_true.1 List.all_takeWhile s (List.mem_reverse.1 hs)

/-- A place stays where it is as files grow. -/
theorem mono (h : fs.Placed p dir name slash) (hmore : fs.Extends more) :
    more.Placed p dir name slash := by
  obtain ⟨before, slashes, hpieces, hslashes, hslash, hwalks⟩ := h.exists_pieces
  rw [← hmore.start_eq] at hwalks
  exact { h with
    directory := hmore.lookup_eq h.directory
    exists_pieces := ⟨before, slashes, hpieces, hslashes, hslash, hmore.walks hwalks⟩ }

/-- What lies at the place of a path lies at the path. -/
theorem resolve_eq {e : Entry} (h : fs.Placed p dir name false)
    (he : fs.lookup (dir ++ [name]) = some e) (hlink : ∀ target, e ≠ .link target) :
    fs.resolve p = .ok (dir ++ [name]) := by
  obtain ⟨before, slashes, hpieces, -, hslash, hwalks⟩ := h.exists_pieces
  obtain rfl : slashes = [] := by simpa using hslash.symm
  obtain ⟨left, hleft⟩ := hwalks.walk_append
  have hdot := not_or.2 ⟨h.isEntryName.ne_empty, h.isEntryName.ne_dot⟩
  rw [resolve_eq_ok_iff, hpieces, hleft,
    walk_enter [] h.directory hdot h.isEntryName.ne_dots h.look he hlink, walk]
  exact ⟨h.check, rfl⟩

/-- Where nothing lies at the place of a path, nothing lies at the path. -/
theorem pathExists_eq_false (h : fs.Placed p dir name slash)
    (hnone : fs.lookup (dir ++ [name]) = none) : fs.pathExists p = false := by
  obtain ⟨before, slashes, hpieces, -, -, hwalks⟩ := h.exists_pieces
  obtain ⟨left, hleft⟩ := hwalks.walk_append
  have hdot := not_or.2 ⟨h.isEntryName.ne_empty, h.isEntryName.ne_dot⟩
  have hresolve : fs.resolve p = .error .notFound := by
    rw [resolve, h.check]
    simp only
    rw [hpieces, hleft, walk_missing slashes h.directory hdot h.isEntryName.ne_dots h.look hnone]
  rw [pathExists, stat, hresolve]
  rfl

/-- The directory of a new file is the one in which it has its place. -/
theorem stat_directoryOf (h : fs.Placed p dir name slash) :
    fs.stat (directoryOf p) = .ok .directory := by
  obtain ⟨before, slashes, hpieces, hslashes, -, hwalks⟩ := h.exists_pieces
  have hname : isIdle name = false := by
    simp [isIdle, h.isEntryName.ne_empty, h.isEntryName.ne_dot]
  have hidle : ∀ s ∈ slashes, isIdle s = true := fun s hs => isIdle_iff.2 (.inl (hslashes s hs))
  cases before with
  | nil =>
      -- A name alone is looked for in the working directory.
      rw [List.nil_append] at hpieces
      have hrelative : isAbsolute p = false := by
        rw [← Bool.not_eq_true, isAbsolute_of_pieces_eq hpieces]
        exact fun habsolute => h.isEntryName.ne_empty habsolute.1
      obtain rfl : dir = fs.workdir := by
        rw [start, hrelative, if_neg Bool.false_ne_true] at hwalks
        exact hwalks.eq_of_idle (List.forall_mem_nil _)
      rw [directoryOf_of_alone hpieces hname hidle]
      exact stat_of_walks rfl (.stay h.directory (.inr rfl) .done) h.directory
  | cons head mid =>
      have habsolute := isAbsolute_of_pieces_eq hpieces
      rw [directoryOf_of_pieces_eq hpieces hname hidle]
      split
      · next hroot =>
          obtain ⟨rfl, hmid⟩ := hroot
          obtain rfl : dir = [] := by
            rw [start, if_pos (habsolute.2 ⟨rfl, by simp⟩)] at hwalks
            refine hwalks.eq_of_idle ?_
            obtain ⟨idle, hidle, hall⟩ := exists_append_trimIdle mid
            rw [hidle, hmid, List.nil_append]
            exact List.forall_mem_cons.2 ⟨rfl, hall⟩
          exact stat_of_walks rfl
            (.stay h.directory (.inl rfl) (.stay h.directory (.inl rfl) .done)) h.directory
      · next hne =>
          obtain ⟨idle, hmid, hall⟩ := exists_append_trimIdle mid
          have hsplit : pieces p = head :: trimIdle mid ++ (idle ++ name :: slashes) := by
            rw [← List.append_assoc, List.cons_append, ← hmid, hpieces]
          have hparts : ∀ s ∈ head :: trimIdle mid, '/' ∉ s.toList :=
            fun s hs => mem_pieces (hsplit ▸ List.mem_append_left _ hs)
          have hjoin := pieces_join hparts
          have hstart : fs.start (Text.join "/" (head :: trimIdle mid)) = fs.start p := by
            have hiff := (isAbsolute_of_pieces_eq hjoin).trans
              ((and_congr_right fun hhead => by simpa [hhead] using hne).trans habsolute.symm)
            rw [start, start, Bool.eq_iff_iff.2 hiff]
          have hcheck : checkPath (Text.join "/" (head :: trimIdle mid)) = .ok () := by
            obtain ⟨next, rest, hrest⟩ := List.exists_cons_of_ne_nil
              (List.append_ne_nil_of_right_ne_nil idle (List.cons_ne_nil name slashes))
            have hp := join_pieces p
            rw [hsplit, hrest, Text.join_append] at hp
            refine checkPath_of_append (hp ▸ h.check) fun hempty => hne ?_
            exact Text.eq_of_join_eq_empty (by decide) hempty
          have htrim : fs.Walks false maxLinks (fs.start p) (head :: trimIdle mid) dir := by
            rw [hmid, ← List.cons_append] at hwalks
            exact hwalks.of_append_idle hall
          exact stat_of_walks hcheck (by rwa [hstart, hjoin]) h.directory

end Placed

/-! ## New files -/

/-- Into the directory of a place a file can be written, unless a draft there cannot be named. -/
theorem checkWritable_of_place (h : fs.place p = .ok (some (dir, name, slash))) :
    fs.checkWritable (directoryOf p)
      = if maxPath ≤ (fs.draftPath (directoryOf p)).utf8ByteSize then .error .nameTooLong
        else .ok () := by
  have hdirectory := (Placed.of_place h).stat_directoryOf
  simp [checkWritable, hdirectory, Entry.isDirectory]

/-- A file is written to a path with a free place, unless the path ends in a slash or a draft
beside it cannot be named. -/
theorem writeNew_of_place (h : fs.place p = .ok (some (dir, name, slash)))
    (hnone : fs.lookup (dir ++ [name]) = none) (content : String) :
    fs.writeNew p content
      = if maxPath ≤ (fs.draftPath (directoryOf p)).utf8ByteSize then .error .nameTooLong
        else if slash then .error .notDirectory
        else .ok (fs.insert (dir ++ [name]) (.file content.toUTF8 false)) := by
  have hcheck := checkWritable_of_place h
  unfold writeNew
  by_cases hlong : maxPath ≤ (fs.draftPath (directoryOf p)).utf8ByteSize
  · simp only [hcheck, if_pos hlong]
  · simp only [hcheck, if_neg hlong, h, hnone]

/-- A file is written in no other case. -/
theorem exists_place_of_writeNew {content : String} (h : fs.writeNew p content = .ok more) :
    ∃ dir name, fs.place p = .ok (some (dir, name, false))
      ∧ fs.lookup (dir ++ [name]) = none
      ∧ more = fs.insert (dir ++ [name]) (.file content.toUTF8 false) := by
  unfold writeNew at h
  split at h
  · cases h
  · split at h
    · cases h
    · cases h
    · next dir name slash hplace =>
        split at h
        · cases h
        · next hnone =>
            cases slash with
            | true => cases h
            | false => exact ⟨dir, name, hplace, hnone, (Except.ok.inj h).symm⟩

/-! ## Free paths -/

/-- Nothing lies at a path that has a place at a location, not even a link without target. -/
def Vacant (fs : Files) (p : String) (l : Location) (slash : Bool) : Prop :=
  ∃ dir name, fs.place p = .ok (some (dir, name, slash)) ∧ l = dir ++ [name] ∧ fs.lookup l = none

/-- Something lies at a path, which may be a link without target. -/
def Occupied (fs : Files) (p : String) : Prop :=
  fs.pathExists p = true ∨ ∃ dir name slash e,
    fs.place p = .ok (some (dir, name, slash)) ∧ fs.lookup (dir ++ [name]) = some e

/-- A name behind pieces that lead to a directory is free if nothing lies there. -/
theorem vacant_of_walks {before : List String} (hcheck : checkPath p = .ok ())
    (hpieces : pieces p = before ++ [name])
    (hwalks : fs.Walks false maxLinks (fs.start p) before dir)
    (hname : isIdle name = false ∧ name ≠ "..") (hshort : name.utf8ByteSize ≤ maxName)
    (hdir : fs.lookup dir = some .directory) (hnone : fs.lookup (dir ++ [name]) = none) :
    fs.Vacant p (dir ++ [name]) false := by
  have hproper : ¬(name = "" ∨ name = ".") := fun h => by
    rw [isIdle_iff.2 h] at hname
    cases hname.1
  have hempty : decide (name = "") = false := by simp [not_or.1 hproper]
  have hdots : ¬(name = "." ∨ name = "..") := not_or.2 ⟨(not_or.1 hproper).2, hname.2⟩
  refine ⟨dir, name, ?_, rfl, hnone⟩
  rw [place, hcheck]
  simp only [hpieces, List.reverse_append, List.reverse_singleton, List.singleton_append,
    List.dropWhile_cons, List.takeWhile_cons, hempty, Bool.false_eq_true, if_false,
    List.reverse_reverse, walk_eq_ok_iff.2 hwalks, hdir, ne_eq, not_true, hdots,
    Nat.not_lt.2 hshort, List.isEmpty_nil, Bool.not_true]

/-- A name in the directory where its path starts is free if nothing lies there. -/
theorem vacant_of_pieces {before : List String} (hcheck : checkPath p = .ok ())
    (hpieces : pieces p = before ++ [name]) (hbefore : ∀ s ∈ before, isIdle s = true)
    (hname : isIdle name = false ∧ name ≠ "..") (hshort : name.utf8ByteSize ≤ maxName)
    (hdir : fs.lookup (fs.start p) = some .directory)
    (hnone : fs.lookup (fs.start p ++ [name]) = none) :
    fs.Vacant p (fs.start p ++ [name]) false :=
  vacant_of_walks hcheck hpieces (walk_eq_ok_iff.1 (walk_idle hdir hbefore)) hname hshort hdir hnone

theorem Vacant.lookup_eq_none {l : Location} (h : fs.Vacant p l slash) : fs.lookup l = none := by
  obtain ⟨_, _, -, -, hnone⟩ := h
  exact hnone

theorem Vacant.pathExists_eq_false {l : Location} (h : fs.Vacant p l slash) :
    fs.pathExists p = false := by
  obtain ⟨dir, name, hplace, rfl, hnone⟩ := h
  exact (Placed.of_place hplace).pathExists_eq_false hnone

/-- A free path leads to what is put there. -/
theorem Vacant.resolve_insert {l : Location} (h : fs.Vacant p l false) {e : Entry}
    (hlink : ∀ target, e ≠ .link target) : (fs.insert l e).resolve p = .ok l := by
  obtain ⟨dir, name, hplace, rfl, hnone⟩ := h
  have hl := lookup_insert_self fs e (List.concat_ne_nil name dir)
  exact ((Placed.of_place hplace).mono (.of_insert hnone e)).resolve_eq hl hlink

/-- What is put at a free path lies at the path. -/
theorem Vacant.stat_insert {l : Location} (h : fs.Vacant p l false) {e : Entry}
    (hlink : ∀ target, e ≠ .link target) : (fs.insert l e).stat p = .ok e := by
  obtain ⟨dir, name, -, rfl, -⟩ := id h
  exact stat_eq_ok_iff.2 ⟨_, h.resolve_insert hlink,
    lookup_insert_self fs e (List.concat_ne_nil name dir)⟩

/-- What is put into files that have nothing else is found by its path from the root. -/
theorem Vacant.canonicalize_insert {name : String} (h : ({} : Files).Vacant p [name] false)
    {e : Entry} (hlink : ∀ target, e ≠ .link target)
    (hshort : (Location.path [name]).utf8ByteSize < maxPath) :
    (({} : Files).insert [name] e).canonicalize p = .ok (Location.path [name]) := by
  have hself := lookup_insert_self {} e (List.cons_ne_nil name [])
  have hpaths : ∀ l e', (({} : Files).insert [name] e).lookup l = some e' →
      l.path.utf8ByteSize < maxPath := by
    intro l e' hl
    by_cases hname : l = [name]
    · rwa [hname]
    · rw [lookup_insert_of_ne {} e hname] at hl
      cases l with
      | nil => decide
      | cons n l =>
          rw [lookup_of_ne_nil {} (List.cons_ne_nil n l)] at hl
          cases hl
  rw [canonicalize, locate_of_resolve hpaths (h.resolve_insert hlink) hself]
  rfl

/-- No new file is written where something lies. -/
theorem Occupied.writeNew_eq_error (h : fs.Occupied p) (content : String) :
    ∃ cause, fs.writeNew p content = .error cause := by
  cases hwrite : fs.writeNew p content with
  | error cause => exact ⟨cause, rfl⟩
  | ok more =>
      obtain ⟨dir, name, hplace, hnone, -⟩ := exists_place_of_writeNew hwrite
      obtain hexists | ⟨dir', name', slash, e, hplace', he⟩ := h
      · rw [(Placed.of_place hplace).pathExists_eq_false hnone] at hexists
        cases hexists
      · rw [hplace] at hplace'
        simp only [Except.ok.injEq, Option.some.injEq, Prod.mk.injEq] at hplace'
        obtain ⟨rfl, rfl, -⟩ := hplace'
        rw [hnone] at he
        cases he

end Files

end BuildGraph
