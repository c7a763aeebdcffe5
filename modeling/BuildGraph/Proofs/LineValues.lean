import BuildGraph.Proofs.BuildFileLines

/-!
# Values on lines

A value is written behind `=` on a line of its own, an end of a line in it behind `$`.  For the
reader this makes the value go on with the first character of the next line that is no space, so
the end of the line is gone with the spaces behind it (`unfold`, `decodeUntil_value`).  The spaces
at the start of the value are skipped with those behind `=` (`lineValue`, `reads_valueLine`).  All
other values are read back as they are (`lineValue_eq_self_iff`).
-/

namespace BuildGraph.Ninja

/-! ## Lines that go on -/

theorem decodeUntil_skip (stop : Char → Bool) (cs : List Char) :
    decodeUntil stop true (' ' :: cs) = decodeUntil stop true cs := by
  rw [decodeUntil.eq_def]
  simp

theorem decodeUntil_continued (stop : Char → Bool) (skipping : Bool) (cs : List Char) :
    decodeUntil stop skipping ('$' :: '\n' :: cs) = decodeUntil stop true cs := by
  rw [decodeUntil.eq_def]
  simp

/-- Only spaces are skipped at the start of a line that goes on. -/
theorem decodeUntil_of_ne_space (stop : Char → Bool) (skipping : Bool) {c : Char} (hc : c ≠ ' ')
    (cs : List Char) :
    decodeUntil stop skipping (c :: cs) = decodeUntil stop false (c :: cs) := by
  rw [decodeUntil.eq_def, decodeUntil.eq_def stop false]
  simp [hc]

theorem decodeUntil_newline (skipping : Bool) (rest : List Char) :
    decodeUntil isLineEnd skipping ('\n' :: rest) = some ([], '\n' :: rest) := by
  rw [decodeUntil_of_ne_space _ _ (by decide)]
  exact decodeUntil_of_stop (by decide) (by simp; decide)

/-! ## Values -/

/-- A value as it is read back: the ends of lines are gone, each with the spaces behind it. -/
def unfold (skipping : Bool) : List Char → List Char
  | [] => []
  | c :: cs =>
    if skipping && c == ' ' then unfold true cs
    else if c = '\n' then unfold true cs
    else c :: unfold false cs

theorem decodeUntil_value (skipping : Bool) (cs rest : List Char) :
    decodeUntil isLineEnd skipping (valueChars cs ++ '\n' :: rest)
      = some (unfold skipping cs, '\n' :: rest) := by
  induction cs generalizing skipping with
  | nil => rw [valueChars, List.nil_append, decodeUntil_newline, unfold]
  | cons c cs ih =>
      rw [valueChars, unfold]
      split
      · next hspecial =>
          rw [List.cons_append, List.cons_append]
          obtain rfl | rfl := hspecial
          · rw [decodeUntil_of_ne_space _ _ (by decide), decodeUntil_escaped _ (by decide), ih]
            simp
          · rw [decodeUntil_continued, ih]
            simp
      · next hplain =>
          obtain ⟨hdollar, hline⟩ := not_or.1 hplain
          rw [List.cons_append]
          -- A space at the start of a line that goes on is skipped; another character ends this.
          cases hskip : skipping && c == ' ' with
          | true =>
              obtain ⟨rfl, hspace⟩ := Bool.and_eq_true_iff.1 hskip
              rw [beq_iff_eq.1 hspace, decodeUntil_skip, ih, if_pos rfl]
          | false =>
              have hsame : decodeUntil isLineEnd skipping (c :: (valueChars cs ++ '\n' :: rest))
                  = decodeUntil isLineEnd false (c :: (valueChars cs ++ '\n' :: rest)) := by
                cases skipping with
                | false => rfl
                | true => exact decodeUntil_of_ne_space _ _ (by simpa using hskip) _
              have hstop : isLineEnd c = false := by simpa [isLineEnd] using hline
              rw [hsame, decodeUntil_plain hdollar hstop, ih, if_neg Bool.false_ne_true,
                if_neg hline]
              rfl

theorem newline_not_mem_unfold (skipping : Bool) (cs : List Char) :
    '\n' ∉ unfold skipping cs := by
  induction cs generalizing skipping with
  | nil => exact List.not_mem_nil
  | cons c cs ih =>
      rw [unfold]
      split
      · exact ih true
      · split
        · exact ih true
        · next hc => exact List.not_mem_cons_of_ne_of_not_mem (Ne.symm hc) (ih false)

/-- A value is read back as it is exactly if it has one line. -/
theorem unfold_eq_self_iff {cs : List Char} : unfold false cs = cs ↔ '\n' ∉ cs := by
  constructor
  · intro h
    rw [← h]
    exact newline_not_mem_unfold false cs
  · intro h
    induction cs with
    | nil => rfl
    | cons c cs ih =>
        obtain ⟨hc, hcs⟩ := List.ne_and_not_mem_of_not_mem_cons h
        rw [unfold, Bool.false_and, if_neg Bool.false_ne_true, if_neg (Ne.symm hc), ih hcs]

/-- A value as it is read back from the line of a variable. -/
def lineValue (value : String) : String :=
  String.ofList (unfold false (skipSpaces value.toList))

/-- A value as it is read back if it does not begin with a space. -/
def unfolded (value : String) : String := String.ofList (unfold false value.toList)

theorem lineValue_of_head?_ne {value : String} (h : value.toList.head? ≠ some ' ') :
    lineValue value = unfolded value := by
  rw [lineValue, skipSpaces_of_head?_ne h, unfolded]

/-- A value is read back from its line exactly if it has one line and does not begin with a
space. -/
theorem lineValue_eq_self_iff {value : String} :
    lineValue value = value ↔ '\n' ∉ value.toList ∧ value.toList.head? ≠ some ' ' := by
  constructor
  · intro h
    have hlist : unfold false (skipSpaces value.toList) = value.toList := by
      rw [← String.toList_inj, lineValue, String.toList_ofList] at h
      exact h
    have hline : '\n' ∉ value.toList := by
      rw [← hlist]
      exact newline_not_mem_unfold _ _
    refine ⟨hline, fun hhead => ?_⟩
    have hskipped : '\n' ∉ skipSpaces value.toList :=
      fun h => hline ((List.dropWhile_suffix _).subset h)
    rw [unfold_eq_self_iff.2 hskipped, skipSpaces] at hlist
    have hfirst := List.head?_dropWhile_not (· == ' ') value.toList
    rw [hlist, hhead] at hfirst
    cases hfirst
  · rintro ⟨hline, hhead⟩
    rw [lineValue, skipSpaces_of_head?_ne hhead, unfold_eq_self_iff.2 hline,
      String.ofList_toList]

theorem map_lineValue_eq_self_iff {l : List (String × String)} :
    (l.map fun v => (v.1, lineValue v.2)) = l ↔ ∀ v ∈ l, lineValue v.2 = v.2 := by
  induction l with
  | nil => simp
  | cons v l ih =>
      rw [List.map_cons, List.cons.injEq, ih, List.forall_mem_cons, Prod.ext_iff,
        and_iff_right rfl]

theorem IsLine.lineValue_eq {value : String} (h : IsLine value) : lineValue value = value :=
  lineValue_eq_self_iff.2 ⟨newline_not_mem h.1, h.2⟩

/-! ## Lines -/

/-- The spaces at the start of a value are skipped with those behind `=`. -/
theorem skipSpaces_valueChars (cs rest : List Char) :
    skipSpaces (valueChars cs ++ '\n' :: rest) = valueChars (skipSpaces cs) ++ '\n' :: rest := by
  induction cs with
  | nil => rfl
  | cons c cs ih =>
      by_cases hspace : c = ' '
      · have hwritten : valueChars (' ' :: cs) = ' ' :: valueChars cs := rfl
        rw [hspace, hwritten, List.cons_append, skipSpaces_cons_space, skipSpaces_cons_space, ih]
      · have hhead : (c :: cs).head? ≠ some ' ' := by simpa using hspace
        rw [skipSpaces_of_head?_ne hhead, skipSpaces_line]
        rw [valueChars]
        split
        · simp
        · simpa using hspace

/-- What is written of a value is read as the value, but for what is skipped and unfolded. -/
theorem decodeUntil_line (value : String) (rest : List Char) :
    decodeUntil isLineEnd false (skipSpaces (valueChars value.toList ++ '\n' :: rest))
      = some ((lineValue value).toList, '\n' :: rest) := by
  rw [skipSpaces_valueChars, decodeUntil_value, lineValue, String.toList_ofList]

theorem reads_valueLine {name value : String} (hn : IsName name) :
    ReadsBinding (decodeUntil isLineEnd false) (bindingLine name (valueChars value.toList))
      (name, lineValue value) :=
  reads_bindingLine hn (decodeUntil_line value)

end BuildGraph.Ninja
