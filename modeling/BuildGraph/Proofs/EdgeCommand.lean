import BuildGraph.Proofs.BuildFileRoundTrip

/-!
# Commands of edges

The executor runs the command of an edge's rule with the variables in it replaced by their values,
as it reads them from the block of the edge (`firstCommand?`).

The line of paths is passed over, whatever its paths hold (`Passes`), and the values behind it are
read back but for the ends of lines in them (`readVariables_edgeText`).
-/

namespace BuildGraph.Ninja

/-! ## Variables in commands -/

/-- Where a character of a command stands. -/
inductive Within where
  | text
  /-- Behind `$`. -/
  | dollar
  /-- In the name of a variable, of which some characters were read. -/
  | name (read : List Char)
  /-- In such a name between braces. -/
  | braces (read : List Char)

/-- Characters of names that stand behind `$` without braces. -/
def isNameChar (c : Char) : Bool := c.isAlphanum || c == '_' || c == '-'

/-- A command with its variables replaced by their values. -/
def expand (value : String → String) : Within → List Char → Option (List Char)
  | .text, [] => some []
  | .dollar, [] => none
  | .name read, [] => some (value (String.ofList read)).toList
  | .braces _, [] => none
  | .text, c :: cs =>
    if c = '$' then expand value .dollar cs else (expand value .text cs).map (c :: ·)
  | .dollar, c :: cs =>
    if isEscapable c then (expand value .text cs).map (c :: ·)
    else if c = '\x7b' then expand value (.braces []) cs
    else if isNameChar c then expand value (.name [c]) cs
    else none
  | .name read, c :: cs =>
    if isNameChar c then expand value (.name (read ++ [c])) cs
    else
      let before := (value (String.ofList read)).toList
      if c = '$' then (expand value .dollar cs).map (before ++ ·)
      else (expand value .text cs).map (before ++ c :: ·)
  | .braces read, c :: cs =>
    if isWordChar c then expand value (.braces (read ++ [c])) cs
    else if c = '\x7d' ∧ read ≠ [] then
      (expand value .text cs).map ((value (String.ofList read)).toList ++ ·)
    else none

/-- A text without variables stays as it is. -/
theorem expand_append {value : String → String} {cs : List Char} (h : '$' ∉ cs)
    (rest : List Char) :
    expand value .text (cs ++ rest) = (expand value .text rest).map (cs ++ ·) := by
  induction cs with
  | nil => simp
  | cons c cs ih =>
      obtain ⟨hc, hcs⟩ := List.ne_and_not_mem_of_not_mem_cons h
      rw [List.cons_append, expand, if_neg (Ne.symm hc), ih hcs, Option.map_map]
      rfl

/-! ## Lines of paths -/

/-- Characters that are decoded, whatever is decoded behind them. -/
def Passes (stop : Char → Bool) (cs : List Char) : Prop :=
  ∀ skipping, ∃ text skipping', ∀ rest, decodeUntil stop skipping (cs ++ rest)
    = (decodeUntil stop skipping' rest).map fun r => (text ++ r.1, r.2)

section Passes

variable {stop : Char → Bool}

theorem passes_nil : Passes stop [] := fun skipping => ⟨[], skipping, fun rest => by simp⟩

theorem Passes.append {xs ys : List Char} (hx : Passes stop xs) (hy : Passes stop ys) :
    Passes stop (xs ++ ys) := by
  intro skipping
  obtain ⟨text, skipping, htext⟩ := hx skipping
  obtain ⟨more, skipping, hmore⟩ := hy skipping
  refine ⟨text ++ more, skipping, fun rest => ?_⟩
  rw [List.append_assoc, htext, hmore, Option.map_map]
  simp [Function.comp_def]

theorem passes_flatMap {α : Type} {f : α → List Char} {l : List α}
    (h : ∀ a ∈ l, Passes stop (f a)) : Passes stop (l.flatMap f) := by
  induction l with
  | nil => exact passes_nil
  | cons a l ih =>
      obtain ⟨ha, hl⟩ := List.forall_mem_cons.1 h
      rw [List.flatMap_cons]
      exact ha.append (ih hl)

theorem passes_char {c : Char} (hdollar : c ≠ '$') (hstop : stop c = false) :
    Passes stop [c] := by
  intro skipping
  by_cases hc : c = ' '
  · rw [hc] at hdollar hstop ⊢
    cases skipping with
    | true => exact ⟨[], true, fun rest => by simp [decodeUntil_skip]⟩
    | false => exact ⟨[' '], false, fun rest => by simp [decodeUntil_plain hdollar hstop]⟩
  · refine ⟨[c], false, fun rest => ?_⟩
    rw [List.singleton_append, decodeUntil_of_ne_space _ _ hc, decodeUntil_plain hdollar hstop]
    rfl

theorem passes_of_all {cs : List Char} (h : cs.all (fun c => c != '$' && !stop c) = true) :
    Passes stop cs := by
  have hchar : ∀ c ∈ cs, Passes stop [c] := fun c hc => by
    have hc := List.all_eq_true.1 h c hc
    simp only [Bool.and_eq_true, bne_iff_ne, Bool.not_eq_true'] at hc
    exact passes_char hc.1 hc.2
  have hchars := passes_flatMap (f := fun c => [c]) hchar
  rwa [List.flatMap_singleton'] at hchars

/-- A character behind `$` passes even if it would end the text by itself. -/
theorem passes_escaped {c : Char} (h : c = '\n' ∨ isEscapable c = true) :
    Passes stop ['$', c] := by
  intro skipping
  obtain rfl | hescapable := h
  · refine ⟨[], true, fun rest => ?_⟩
    rw [List.cons_append, List.singleton_append, decodeUntil_continued]
    simp
  · refine ⟨[c], false, fun rest => ?_⟩
    rw [List.cons_append, List.singleton_append, decodeUntil_of_ne_space _ _ (by decide),
      decodeUntil_escaped _ hescapable]
    rfl

/-- A written path passes if what would end the text is escaped in it. -/
theorem passes_pathChars {cs : List Char}
    (h : ∀ c ∈ cs, c = '\n' ∨ isEscapable c = true ∨ stop c = false) :
    Passes stop (pathChars cs) := by
  induction cs with
  | nil => exact passes_nil
  | cons c cs ih =>
      obtain ⟨hc, hcs⟩ := List.forall_mem_cons.1 h
      rw [pathChars]
      split
      · next hspecial =>
          have hpair : c = '\n' ∨ isEscapable c = true := by
            obtain rfl | rfl | rfl | rfl := hspecial <;> simp [isEscapable]
          exact (passes_escaped hpair).append (ih hcs)
      · next hplain =>
          simp only [not_or] at hplain
          obtain ⟨hdollar, hspace, hcolon, hline⟩ := hplain
          have hstop : stop c = false := by
            simpa [isEscapable, hdollar, hspace, hcolon, hline] using hc
          exact (passes_char hdollar hstop).append (ih hcs)

theorem passes_pathList (hspace : stop ' ' = false) {ps : List String}
    (h : ∀ p ∈ ps, ∀ c ∈ p.toList, c = '\n' ∨ isEscapable c = true ∨ stop c = false) :
    Passes stop (pathList ps).toList := by
  rw [toList_pathList]
  exact passes_flatMap fun p hp =>
    (passes_char (by decide) hspace).append (passes_pathChars (h p hp))

theorem passes_markedPaths {mark : String} (hmark : Passes stop mark.toList)
    (hspace : stop ' ' = false) {ps : List String}
    (h : ∀ p ∈ ps, ∀ c ∈ p.toList, c = '\n' ∨ isEscapable c = true ∨ stop c = false) :
    Passes stop (markedPaths mark ps).toList := by
  cases ps with
  | nil => exact passes_nil
  | cons p ps =>
      rw [toList_markedPaths_cons]
      exact hmark.append (passes_pathList hspace h)

end Passes

/-! ## Variables of edges -/

/-- The variables of an edge as they are read from its block, behind the line of paths. -/
def readVariables (block : String) : Option (List (String × String)) := do
  let (_, cs) ← decodeUntil isLineEnd false block.toList
  let cs ← expect '\n' cs
  let (vars, _) ← readBindings (decodeUntil isLineEnd false) cs
  pure vars

/-- The line of an edge's paths, without its end. -/
def pathLine (e : Edge) : List Char :=
  "build".toList ++ ((pathList e.outputs).toList ++ (": ".toList ++ (e.rule.toList
    ++ ((pathList e.inputs).toList ++ ((markedPaths " |" (writtenImplicits e)).toList
      ++ (markedPaths " ||" e.orderOnly).toList)))))

theorem toList_edgeText_eq_pathLine (e : Edge) :
    (edgeText e).toList = pathLine e ++ '\n' :: ((varLines e.vars).toList ++ ['\n']) := by
  have hend : "\n".toList = ['\n'] := rfl
  unfold edgeText pathLine
  simp only [String.toList_append, hend, List.append_assoc, List.cons_append, List.nil_append]

theorem IsName.ne_of_mem {s : String} (h : IsName s) {c d : Char} (hc : c ∈ s.toList)
    (hd : isWordChar d = false) : c ≠ d := by
  rintro rfl
  rw [h.2 c hc] at hd
  cases hd

theorem passes_pathLine {e : Edge} (hrule : IsName e.rule) : Passes isLineEnd (pathLine e) := by
  have hname : Passes isLineEnd e.rule.toList := passes_of_all (List.all_eq_true.2 fun c hc => by
    simp [hrule.ne_of_mem hc (d := '$') (by decide), isLineEnd,
      hrule.ne_of_mem hc (d := '\n') (by decide)])
  have hpaths (ps : List String) : ∀ p ∈ ps, ∀ c ∈ p.toList,
      c = '\n' ∨ isEscapable c = true ∨ isLineEnd c = false := by
    intro p _ c _
    by_cases hc : c = '\n'
    · exact .inl hc
    · exact .inr (.inr (by simpa [isLineEnd] using hc))
  have hspace : isLineEnd ' ' = false := by decide
  exact (passes_of_all (by decide)).append ((passes_pathList hspace (hpaths _)).append
    ((passes_of_all (by decide)).append (hname.append ((passes_pathList hspace (hpaths _)).append
      ((passes_markedPaths (passes_of_all (by decide)) hspace (hpaths _)).append
        (passes_markedPaths (passes_of_all (by decide)) hspace (hpaths _)))))))

/-- The variables of an edge are read back, whatever its paths hold. -/
theorem readVariables_edgeText {e : Edge} (hrule : IsName e.rule)
    (hvars : ∀ v ∈ e.vars.entries, IsName v.1 ∧ v.2.toList.head? ≠ some ' ') :
    readVariables (edgeText e) = some (e.vars.entries.map fun v => (v.1, unfolded v.2)) := by
  obtain ⟨text, skipping, hline⟩ := passes_pathLine hrule false
  have hvalues : (e.vars.entries.map fun v => (v.1, lineValue v.2))
      = e.vars.entries.map fun v => (v.1, unfolded v.2) :=
    List.map_congr_left fun v hv => by rw [lineValue_of_head?_ne (hvars v hv).2]
  have hlines := readBindings_varLines (fun v hv => (hvars v hv).1)
    (by simp : ['\n'].head? ≠ some ' ')
  rw [readVariables, toList_edgeText_eq_pathLine, hline, decodeUntil_newline]
  simp only [Option.map_some, Option.bind_eq_bind, Option.bind_some, expect_self, hlines, hvalues]
  rfl

/-- The value of a variable among others, empty if it is not set. -/
def valueIn (vars : List (String × String)) (name : String) : String := (vars.lookup name).getD ""

/-- The first command of a rule as it is run for an edge. -/
def firstCommand? (r : Rule) (e : Edge) : Option String := do
  let vars ← readVariables (edgeText e)
  let cs ← expand (valueIn vars) .text (commandLine (r.commands.take 1)).toList
  pure (String.ofList cs)

end BuildGraph.Ninja
