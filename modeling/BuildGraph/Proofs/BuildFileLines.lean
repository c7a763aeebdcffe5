import BuildGraph.Proofs.BuildFileReader

/-!
# Lines of build files

The parts of a line are read back, whatever text follows that may follow them.  A path may hold
`$`, spaces and colons anywhere, so the lemma on paths (`decodeUntil_pathChars`) is an induction on
their characters in which the escape character and the one behind it stay together.

A loop over items reads a list back if each item is read from its text before any text that may
follow it, and if each text may follow an item (`Reader.Reads`, `Reader.many_append`).  Lists of
paths, indented lines and the blocks of a file are all read by such loops.
-/

namespace BuildGraph.Ninja

/-! ## Texts that a line can hold -/

/-- Characters that end lines or move about. -/
def isControl (c : Char) : Bool := c.toNat < 32 || (127 ≤ c.toNat && c.toNat < 160)

/-- A name: a word that is not empty. -/
def IsName (s : String) : Prop := s ≠ "" ∧ ∀ c ∈ s.toList, isWordChar c = true

/-- A path that is read back from a list of paths: no escape is read as `|`, or as the end of a
line. -/
def IsListable (s : String) : Prop := s ≠ "" ∧ ∀ c ∈ s.toList, c ≠ '\n' ∧ c ≠ '|'

/-- A path that a line can hold. -/
def IsPath (s : String) : Prop :=
  s ≠ "" ∧ ∀ c ∈ s.toList, isControl c = false ∧ c ≠ '|'

/-- A text that can stand behind `=`. -/
def IsLine (s : String) : Prop :=
  (∀ c ∈ s.toList, isControl c = false) ∧ s.toList.head? ≠ some ' '

/-- A text that is read back as it is behind `=`, where nothing is escaped. -/
structure IsRawLine (s : String) : Prop where
  newline : '\n' ∉ s.toList
  head : s.toList.head? ≠ some ' '

instance (s : String) : Decidable (IsName s) :=
  decidable_of_iff (s ≠ "" ∧ s.toList.all isWordChar = true) (by rw [IsName, List.all_eq_true])

instance (s : String) : Decidable (IsPath s) :=
  decidable_of_iff (s ≠ "" ∧ s.toList.all (fun c => !isControl c && c != '|') = true)
    (by simp [IsPath])

instance (s : String) : Decidable (IsLine s) :=
  decidable_of_iff (s.toList.all (!isControl ·) = true ∧ s.toList.head? ≠ some ' ')
    (by simp [IsLine])

/-! ## Steps on texts -/

theorem not_isControl_newline {c : Char} (h : isControl c = false) : c ≠ '\n' := by
  rintro rfl
  exact absurd h (by decide)

theorem newline_not_mem {cs : List Char} (h : ∀ c ∈ cs, isControl c = false) : '\n' ∉ cs :=
  fun hc => not_isControl_newline (h _ hc) rfl

theorem IsLine.raw {s : String} (h : IsLine s) : IsRawLine s := ⟨newline_not_mem h.1, h.2⟩

theorem IsPath.listable {s : String} (h : IsPath s) : IsListable s :=
  ⟨h.1, fun c hc => ⟨not_isControl_newline (h.2 c hc).1, (h.2 c hc).2⟩⟩

theorem toList_concat {α : Type} (f : α → String) (l : List α) :
    (Text.concat (l.map f)).toList = l.flatMap fun a => (f a).toList := by
  induction l with
  | nil => rfl
  | cons a l ih =>
      rw [List.map_cons, Text.concat_cons, String.toList_append, ih, List.flatMap_cons]

theorem skipSpaces_cons_space (cs : List Char) : skipSpaces (' ' :: cs) = skipSpaces cs := by
  rw [skipSpaces, List.dropWhile_cons_of_pos rfl, skipSpaces]

theorem skipSpaces_of_head?_ne {cs : List Char} (h : cs.head? ≠ some ' ') :
    skipSpaces cs = cs := by
  cases cs with
  | nil => rfl
  | cons c cs =>
      refine List.dropWhile_cons_of_neg ?_
      simpa using h

theorem expect_self (c : Char) (cs : List Char) : expect c (c :: cs) = some cs := by
  rw [expect, if_pos rfl]

/-- A word that is followed by no character of words. -/
theorem word_append {s : String} (hs : ∀ c ∈ s.toList, isWordChar c = true) {rest : List Char}
    (hr : ∀ c ∈ rest.head?, isWordChar c = false) : word (s.toList ++ rest) = (s, rest) := by
  have htake : rest.takeWhile isWordChar = [] := by
    cases rest with
    | nil => rfl
    | cons c cs => exact List.takeWhile_cons_of_neg (by simp [hr c rfl])
  have hdrop : rest.dropWhile isWordChar = rest := by
    cases rest with
    | nil => rfl
    | cons c cs => exact List.dropWhile_cons_of_neg (by simp [hr c rfl])
  rw [word, List.takeWhile_append_of_pos hs, List.dropWhile_append_of_pos hs, htake, hdrop,
    List.append_nil, String.ofList_toList]

theorem IsName.head?_ne {s : String} (h : IsName s) (rest : List Char) {c : Char}
    (hc : isWordChar c = false) : (s.toList ++ rest).head? ≠ some c := by
  obtain ⟨hne, hs⟩ := h
  cases hl : s.toList with
  | nil => exact absurd (String.toList_eq_nil_iff.1 hl) hne
  | cons d ds =>
      rw [List.cons_append, List.head?_cons]
      intro heq
      have hd := hs d (by rw [hl]; exact List.mem_cons_self)
      rw [Option.some.inj heq, hc] at hd
      cases hd

namespace Reader

variable {α β : Type}

/-- An item is read from its text, before any text that may follow it, and the text may itself
follow an item. -/
structure Reads (done : List Char → Bool) (item : Reader α) (follows : List Char → Prop)
    (text : List Char) (a : α) : Prop where
  ne_nil : text ≠ []
  may_follow (more : List Char) : follows (text ++ more)
  done_eq {more : List Char} : follows more → done (text ++ more) = false
  item_eq {more : List Char} : follows more → item (text ++ more) = some (a, more)

/-- Items are read from their texts, one after the other. -/
theorem many_append {done : List Char → Bool} {item : Reader α} {follows : List Char → Prop}
    {text : β → List Char} {value : β → α} {rest : List Char} (hf : follows rest)
    (hd : done rest = true) {l : List β}
    (h : ∀ b ∈ l, Reads done item follows (text b) (value b)) :
    many done item (l.flatMap text ++ rest) = some (l.map value, rest) := by
  induction l with
  | nil => rw [List.flatMap_nil, List.nil_append, many, if_pos hd, List.map_nil]
  | cons b l ih =>
      obtain ⟨hb, hl⟩ := List.forall_mem_cons.1 h
      have hmore : follows (l.flatMap text ++ rest) := by
        cases l with
        | nil => exact hf
        | cons b' l =>
            rw [List.flatMap_cons, List.append_assoc]
            exact (hl b' List.mem_cons_self).may_follow _
      have hlen : (l.flatMap text ++ rest).length
          < (text b ++ (l.flatMap text ++ rest)).length := by
        have hpos : 0 < (text b).length := List.length_pos_iff.2 hb.ne_nil
        simp only [List.length_append]
        omega
      rw [List.flatMap_cons, List.append_assoc, many, if_neg (by simp [hb.done_eq hmore]),
        hb.item_eq hmore]
      simp only [if_pos hlen, ih hl, List.map_cons]

end Reader

/-! ## Escapes -/

/-- The two steps of decoding that written texts need: an escaped character and a plain one. -/
theorem decodeUntil_escaped (stop : Char → Bool) {c : Char} (hc : isEscapable c = true)
    (cs : List Char) : decodeUntil stop false ('$' :: c :: cs)
      = (decodeUntil stop false cs).map fun r => (c :: r.1, r.2) := by
  have hn : c ≠ '\n' := by
    rintro rfl
    exact absurd hc (by decide)
  simp [decodeUntil, hn, hc]

theorem decodeUntil_plain {stop : Char → Bool} {c : Char} (hc : c ≠ '$') (hs : stop c = false)
    (cs : List Char) : decodeUntil stop false (c :: cs)
      = (decodeUntil stop false cs).map fun r => (c :: r.1, r.2) := by
  rw [decodeUntil.eq_def]
  simp [hc, hs]

/-- Nothing is decoded before a character that ends the text. -/
theorem decodeUntil_of_stop {stop : Char → Bool} (hd : stop '$' = false) {cs : List Char}
    (h : ∀ c ∈ cs.head?, stop c = true) : decodeUntil stop false cs = some ([], cs) := by
  cases cs with
  | nil => rfl
  | cons c cs =>
      have hs : stop c = true := h c rfl
      have hc : c ≠ '$' := by
        rintro rfl
        rw [hd] at hs
        cases hs
      rw [decodeUntil.eq_def]
      simp [hc, hs]

/-- A path is read back up to a character that ends it. -/
theorem decodeUntil_pathChars {cs rest : List Char}
    (h : ∀ c ∈ cs, c ≠ '\n' ∧ c ≠ '|') (hr : ∀ c ∈ rest.head?, isPathEnd c = true) :
    decodeUntil isPathEnd false (pathChars cs ++ rest) = some (cs, rest) := by
  induction cs with
  | nil => exact decodeUntil_of_stop (by decide) hr
  | cons c cs ih =>
      obtain ⟨⟨hn, hbar⟩, hcs⟩ := List.forall_mem_cons.1 h
      by_cases he : isEscapable c = true
      · have hw : pathChars (c :: cs) = '$' :: c :: pathChars cs := by
          rw [pathChars, if_pos]
          simp only [isEscapable, Bool.or_eq_true, beq_iff_eq] at he
          grind
        rw [hw, List.cons_append, List.cons_append, decodeUntil_escaped _ he, ih hcs]
        rfl
      · simp only [isEscapable, Bool.or_eq_true, beq_iff_eq, not_or] at he
        obtain ⟨⟨hd, hs⟩, hk⟩ := he
        have hw : pathChars (c :: cs) = c :: pathChars cs := by
          rw [pathChars, if_neg (by simp [hd, hs, hk, hn])]
        have hp : isPathEnd c = false := by simp [isPathEnd, hs, hk, hbar, hn]
        rw [hw, List.cons_append, decodeUntil_plain hd hp, ih hcs]
        rfl

/-- A line is read as it is up to its end. -/
theorem rawLine_append {cs rest : List Char} (h : '\n' ∉ cs)
    (hr : ∀ c ∈ rest.head?, isLineEnd c = true) : rawLine (cs ++ rest) = some (cs, rest) := by
  have hcs : ∀ c ∈ cs, (!isLineEnd c) = true := by
    intro c hc
    simp [isLineEnd, ne_of_mem_of_not_mem hc h]
  have hrest : rest.takeWhile (!isLineEnd ·) = [] ∧ rest.dropWhile (!isLineEnd ·) = rest := by
    cases rest with
    | nil => exact ⟨rfl, rfl⟩
    | cons c cs =>
        have hc : ¬ (!isLineEnd c) = true := by simp [hr c rfl]
        exact ⟨List.takeWhile_cons_of_neg hc, List.dropWhile_cons_of_neg hc⟩
  rw [rawLine, List.takeWhile_append_of_pos hcs, List.dropWhile_append_of_pos hcs, hrest.1,
    hrest.2, List.append_nil]

/-! ## Paths -/

theorem toList_pathList (ps : List String) :
    (pathList ps).toList = ps.flatMap fun p => ' ' :: pathChars p.toList := by
  simp [pathList, toList_concat, pathText]

theorem toList_pathList_cons (p : String) (ps : List String) :
    (pathList (p :: ps)).toList = ' ' :: (pathChars p.toList ++ (pathList ps).toList) := by
  rw [toList_pathList, toList_pathList, List.flatMap_cons, List.cons_append]

/-- A written path starts with a character that ends none. -/
theorem IsListable.exists_cons {p : String} (h : IsListable p) :
    ∃ c cs, pathChars p.toList = c :: cs ∧ isPathEnd c = false := by
  obtain ⟨hne, hp⟩ := h
  cases hl : p.toList with
  | nil => exact absurd (String.toList_eq_nil_iff.1 hl) hne
  | cons c cs =>
      obtain ⟨hc, hbar⟩ := hp c (by rw [hl]; exact List.mem_cons_self)
      rw [pathChars]
      split
      · exact ⟨'$', _, rfl, by decide⟩
      · next he =>
          simp only [not_or] at he
          exact ⟨c, _, rfl, by simp [isPathEnd, he, hbar]⟩

theorem noPath_newline (rest : List Char) : noPath ('\n' :: rest) = true := rfl

/-- What no path follows starts with a character that ends one. -/
theorem isPathEnd_of_noPath {cs : List Char} (h : noPath cs = true) :
    ∀ c ∈ cs.head?, isPathEnd c = true := by
  intro c hc
  cases cs with
  | nil => cases hc
  | cons d ds =>
      obtain rfl : d = c := by simpa using hc
      by_cases hs : d = ' '
      · rw [hs]
        decide
      · rw [noPath, skipSpaces_of_head?_ne (by simpa using hs)] at h
        exact h

theorem not_isWordChar_of_isPathEnd {c : Char} (h : isPathEnd c = true) :
    isWordChar c = false := by
  simp only [isPathEnd, Bool.or_eq_true, beq_iff_eq] at h
  obtain (((rfl | rfl) | rfl) | rfl) := h <;> decide

/-- Written paths, and what no path follows, start with a character that ends a path. -/
theorem isPathEnd_of_pathList {ps : List String} {rest : List Char} (h : noPath rest = true) :
    ∀ c ∈ ((pathList ps).toList ++ rest).head?, isPathEnd c = true := by
  intro c hc
  cases ps with
  | nil => exact isPathEnd_of_noPath h c hc
  | cons p ps =>
      rw [toList_pathList_cons] at hc
      obtain rfl : ' ' = c := by simpa using hc
      decide

theorem IsListable.reads {p : String} (h : IsListable p) :
    Reader.Reads noPath readPath (fun rest => ∀ c ∈ rest.head?, isPathEnd c = true)
      (' ' :: pathChars p.toList) p := by
  obtain ⟨c, cs, hcs, hc⟩ := h.exists_cons
  have hskip (more : List Char) :
      skipSpaces (' ' :: pathChars p.toList ++ more) = pathChars p.toList ++ more := by
    rw [List.cons_append, skipSpaces_cons_space, hcs]
    refine skipSpaces_of_head?_ne ?_
    rintro h
    obtain rfl : c = ' ' := by simpa using h
    exact absurd hc (by decide)
  constructor
  case ne_nil => exact List.cons_ne_nil _ _
  case may_follow =>
    intro more d hd
    obtain rfl : ' ' = d := by simpa using hd
    decide
  case done_eq =>
    intro more _
    rw [noPath, hskip, hcs]
    exact hc
  case item_eq =>
    intro more hmore
    rw [readPath, hskip, decodeUntil_pathChars h.2 hmore]
    simp

/-- Written paths are read back before what no path follows. -/
theorem readPaths_pathList {ps : List String} {rest : List Char} (h : ∀ p ∈ ps, IsListable p)
    (hr : noPath rest = true) :
    readPaths ((pathList ps).toList ++ rest) = some (ps, skipSpaces rest) := by
  have hmany : Reader.many noPath readPath ((pathList ps).toList ++ rest) = some (ps, rest) := by
    rw [toList_pathList, Reader.many_append (isPathEnd_of_noPath hr) hr
      fun p hp => (h p hp).reads, List.map_id']
  rw [readPaths, hmany]
  rfl

/-! ## Bindings -/

/-- The line that binds a name to a written value. -/
def bindingLine (name : String) (written : List Char) : List Char :=
  ' ' :: ' ' :: (name.toList ++ ' ' :: '=' :: ' ' :: (written ++ ['\n']))

/-- A line that binds a name is read back if its value is. -/
theorem readBinding_of_value {value : Reader (List Char)} {name text : String}
    {written rest : List Char} (hn : IsName name)
    (hv : value (skipSpaces (written ++ '\n' :: rest)) = some (text.toList, '\n' :: rest)) :
    readBinding value (name.toList ++ ' ' :: '=' :: ' ' :: (written ++ '\n' :: rest))
      = some ((name, text), rest) := by
  have hname : word (name.toList ++ ' ' :: '=' :: ' ' :: (written ++ '\n' :: rest))
      = (name, ' ' :: '=' :: ' ' :: (written ++ '\n' :: rest)) :=
    word_append hn.2 (by simp; decide)
  have hequals : skipSpaces (' ' :: '=' :: ' ' :: (written ++ '\n' :: rest))
      = '=' :: ' ' :: (written ++ '\n' :: rest) := rfl
  rw [readBinding, skipSpaces_of_head?_ne (hn.head?_ne _ (by decide)), hname]
  simp [hequals, expect_self, skipSpaces_cons_space, hv]

/-- What is written behind `=` is read from its first character on, unless that is a space. -/
theorem skipSpaces_line {written : List Char} (hw : written.head? ≠ some ' ') (rest : List Char) :
    skipSpaces (written ++ '\n' :: rest) = written ++ '\n' :: rest := by
  refine skipSpaces_of_head?_ne ?_
  cases written with
  | nil => simp
  | cons c cs => exact hw

/-- A line that binds a name is read back from its text, whatever follows. -/
abbrev ReadsBinding (value : Reader (List Char)) (line : List Char) (bound : String × String) :
    Prop :=
  Reader.Reads (·.head? != some ' ') (readBinding value) (fun _ => True) line bound

/-- An indented line is read back if its value is. -/
theorem reads_bindingLine {value : Reader (List Char)} {name text : String}
    {written : List Char} (hn : IsName name)
    (hv : ∀ rest, value (skipSpaces (written ++ '\n' :: rest)) = some (text.toList, '\n' :: rest)) :
    ReadsBinding value (bindingLine name written) (name, text) := by
  constructor
  case ne_nil => exact List.cons_ne_nil _ _
  case may_follow => exact fun _ => trivial
  case done_eq => exact fun _ => rfl
  case item_eq =>
    intro more _
    have hline : bindingLine name written ++ more
        = ' ' :: ' ' :: (name.toList ++ ' ' :: '=' :: ' ' :: (written ++ '\n' :: more)) := by
      simp [bindingLine]
    have hindent (cs : List Char) :
        readBinding value (' ' :: ' ' :: cs) = readBinding value cs := by
      rw [readBinding, skipSpaces_cons_space, skipSpaces_cons_space, readBinding]
    rw [hline, hindent, readBinding_of_value hn (hv more)]

/-- A text without escapes is read back as it is. -/
theorem reads_rawLine {name text : String} (hn : IsName name) (ht : IsRawLine text) :
    ReadsBinding rawLine (bindingLine name text.toList) (name, text) := by
  refine reads_bindingLine hn fun rest => ?_
  rw [skipSpaces_line ht.head]
  exact rawLine_append ht.newline (by simp; decide)

/-- Lines that bind names are read back before a line that is not indented. -/
theorem readBindings_append {β : Type} {value : Reader (List Char)} {line : β → List Char}
    {bound : β → String × String} {l : List β} {rest : List Char}
    (hr : rest.head? ≠ some ' ')
    (h : ∀ b ∈ l, ReadsBinding value (line b) (bound b)) :
    readBindings value (l.flatMap line ++ rest) = some (l.map bound, rest) :=
  Reader.many_append trivial (by simpa using hr) h

end BuildGraph.Ninja
