import BuildGraph.Proofs.EdgeCommand

/-!
# Lines of edges

A build file says something line by line, and what a line says apart from its paths and values is
little: that it is an edge of a rule, that it binds a name, or with which other word it begins
(`Line`, `readLines`).  A line ends where its end is not escaped, and the outputs of an edge end at
the first colon that is not.  The marks `|` and `||` may stand anywhere between paths.

The block of an edge is read as the line of its rule and one line for each variable, whatever the
paths and values hold (`readLines_edgeText`).  No text in them can end its line, since the end of a
line is only written behind the escape character, and that one only in pairs (`passes_pathChars`,
`passes_valueChars`).  Excluded are a carriage return and NUL, which no build file may hold.
-/

namespace BuildGraph.Ninja

/-! ## Reading lines -/

/-- What a line says, its paths and values left out. -/
inductive Line where
  | comment
  /-- An edge, by the name of its rule. -/
  | build (rule : String)
  /-- An indented line that binds a name. -/
  | binding (name : String)
  /-- Any other line, by its first word. -/
  | other (word : String)
  deriving DecidableEq, Repr

/-- Characters that no build file may hold. -/
def isForeign (c : Char) : Bool := c == '\r' || c == '\x00'

/-- Characters at which a value stops. -/
def stopsValue (c : Char) : Bool := c == '\n' || isForeign c

/-- Characters at which the paths before or behind a colon stop. -/
def stopsPaths (c : Char) : Bool := c == ':' || stopsValue c

/-- A word that is not empty. -/
def readName : Reader String := fun cs =>
  let (name, rest) := word cs
  if name = "" then none else some (name, rest)

/-- What stands behind an escaped text and the character that ends it, which must be `c`. -/
def passTo (stop : Char → Bool) (c : Char) (cs : List Char) : Option (List Char) := do
  let (_, cs) ← decodeUntil stop false cs
  expect c cs

/-- A line that is not blank. -/
def readLine : Reader Line := fun cs => do
  if (skipSpaces cs).head? = some '#' then
    let (_, cs) ← rawLine cs
    let cs ← expect '\n' cs
    pure (.comment, cs)
  else if cs.head? = some ' ' then
    let (name, cs) ← readName (skipSpaces cs)
    let cs ← expect '=' (skipSpaces cs)
    let cs ← passTo stopsValue '\n' cs
    pure (.binding name, cs)
  else
    let (first, cs) ← readName cs
    if first = "build" then
      let cs ← passTo stopsPaths ':' cs
      let (rule, cs) ← readName (skipSpaces cs)
      let cs ← passTo stopsPaths '\n' cs
      pure (.build rule, cs)
    else
      let cs ← passTo stopsValue '\n' cs
      pure (.other first, cs)

/-- A line and the blank ones behind it. -/
def readLineAndVoid : Reader Line := fun cs => do
  let (line, cs) ← readLine cs
  pure (line, cs.dropWhile isLineEnd)

/-- The lines of some characters, blank ones left out. -/
def linesOf (cs : List Char) : Option (List Line) := do
  let (lines, _) ← Reader.many List.isEmpty readLineAndVoid (cs.dropWhile isLineEnd)
  pure lines

/-- The lines of a text, blank ones left out. -/
def readLines (text : String) : Option (List Line) := linesOf text.toList

theorem linesOf_nil : linesOf [] = some [] := by
  rw [linesOf, List.dropWhile_nil, Reader.many, if_pos List.isEmpty_nil]
  rfl

theorem linesOf_newline (rest : List Char) : linesOf ('\n' :: rest) = linesOf rest := rfl

/-- A line that is read from its text, whatever follows, is the first of the lines. -/
theorem linesOf_append {text : List Char} {line : Line}
    (hstart : ∃ c ∈ text.head?, isLineEnd c = false)
    (h : ∀ rest, readLine (text ++ rest) = some (line, rest)) (rest : List Char) :
    linesOf (text ++ rest) = (linesOf rest).map (line :: ·) := by
  obtain ⟨c, hhead, hc⟩ := hstart
  obtain ⟨cs, rfl⟩ := List.head?_eq_some_iff.1 hhead
  have hkept : (c :: cs ++ rest).dropWhile isLineEnd = c :: cs ++ rest :=
    List.dropWhile_cons_of_neg (by simp [hc])
  have hread : readLineAndVoid (c :: cs ++ rest) = some (line, rest.dropWhile isLineEnd) := by
    rw [readLineAndVoid, h rest]
    rfl
  have hless : (rest.dropWhile isLineEnd).length < (c :: cs ++ rest).length := by
    have hle := (List.dropWhile_suffix isLineEnd (l := rest)).length_le
    simp only [List.length_append, List.length_cons]
    omega
  rw [linesOf, hkept, Reader.many, if_neg (by simp), hread]
  simp only [if_pos hless]
  rw [linesOf]
  cases Reader.many List.isEmpty readLineAndVoid (rest.dropWhile isLineEnd) with
  | none => rfl
  | some r => rfl

/-! ## Escaped texts -/

/-- A text without characters that are foreign to build files. -/
def IsPlain (s : String) : Prop := ∀ c ∈ s.toList, isForeign c = false

instance (s : String) : Decidable (IsPlain s) :=
  List.decidableBAll (fun c => isForeign c = false) s.toList

theorem stopsPaths_eq_false_iff {c : Char} :
    stopsPaths c = false ↔ c ≠ ':' ∧ c ≠ '\n' ∧ isForeign c = false := by
  simp [stopsPaths, stopsValue]

theorem IsPlain.escaped_or {s : String} (h : IsPlain s) {c : Char} (hc : c ∈ s.toList) :
    c = '\n' ∨ isEscapable c = true ∨ stopsPaths c = false := by
  by_cases hline : c = '\n'
  · exact .inl hline
  · by_cases hcolon : c = ':'
    · rw [hcolon]
      exact .inr (.inl rfl)
    · exact .inr (.inr (stopsPaths_eq_false_iff.2 ⟨hcolon, hline, h c hc⟩))

/-- A written value passes up to the end of its line. -/
theorem passes_valueChars {cs : List Char} (h : ∀ c ∈ cs, isForeign c = false) :
    Passes stopsValue (valueChars cs) := by
  induction cs with
  | nil => exact passes_nil
  | cons c cs ih =>
      obtain ⟨hc, hcs⟩ := List.forall_mem_cons.1 h
      rw [valueChars]
      split
      · next hspecial =>
          have hpair : c = '\n' ∨ isEscapable c = true := by
            obtain rfl | rfl := hspecial <;> simp [isEscapable]
          exact (passes_escaped hpair).append (ih hcs)
      · next hplain =>
          obtain ⟨hdollar, hline⟩ := not_or.1 hplain
          have hstop : stopsValue c = false := by simp [stopsValue, hline, hc]
          exact (passes_char hdollar hstop).append (ih hcs)

/-- What passes is left behind at the character that ends it. -/
theorem passTo_append {stop : Char → Bool} {cs : List Char} (h : Passes stop cs) {c : Char}
    (hspace : c ≠ ' ') (hdollar : stop '$' = false) (hstop : stop c = true) (rest : List Char) :
    passTo stop c (cs ++ c :: rest) = some rest := by
  obtain ⟨text, skipping, htext⟩ := h false
  have hend : decodeUntil stop skipping (c :: rest) = some ([], c :: rest) := by
    rw [decodeUntil_of_ne_space _ _ hspace]
    exact decodeUntil_of_stop hdollar (by simpa using hstop)
  rw [passTo, htext, hend]
  simp [expect_self]

theorem IsName.skipSpaces_append {s : String} (h : IsName s) (rest : List Char) :
    skipSpaces (s.toList ++ rest) = s.toList ++ rest :=
  skipSpaces_of_head?_ne (h.head?_ne rest (by decide))

theorem IsName.readName_append {s : String} (h : IsName s) {rest : List Char}
    (hr : ∀ c ∈ rest.head?, isWordChar c = false) :
    readName (s.toList ++ rest) = some (s, rest) := by
  rw [readName, word_append h.2 hr]
  exact if_neg h.1

/-! ## Blocks of edges -/

/-- An edge whose names are words and whose paths and values may hold anything that a build file
may hold. -/
structure PlainEdge (e : Edge) : Prop where
  rule : IsName e.rule
  outputs : ∀ p ∈ e.outputs, IsPlain p
  inputs : ∀ p ∈ e.inputs, IsPlain p
  implicits : ∀ p ∈ e.implicits, IsPlain p
  regenImplicits : ∀ p ∈ e.regenImplicits, IsPlain p
  orderOnly : ∀ p ∈ e.orderOnly, IsPlain p
  vars : ∀ v ∈ e.vars.entries, IsName v.1 ∧ IsPlain v.2

/-- The lines that an edge should have: one for itself and one for each variable. -/
def Line.ofEdge (e : Edge) : List Line :=
  .build e.rule :: e.vars.entries.map fun v => .binding v.1

/-- An indented line binds its name, whatever its value holds. -/
theorem readLine_bindingLine {name value : String} (hn : IsName name) (hv : IsPlain value)
    (rest : List Char) : readLine (bindingLine name (valueChars value.toList) ++ rest)
      = some (.binding name, rest) := by
  have htext : bindingLine name (valueChars value.toList) ++ rest
      = ' ' :: ' ' :: (name.toList ++ ' ' :: '=' :: (' ' :: valueChars value.toList
        ++ '\n' :: rest)) := by
    simp [bindingLine]
  have hequals (cs : List Char) : skipSpaces (' ' :: '=' :: cs) = '=' :: cs := rfl
  have hvalue : Passes stopsValue (' ' :: valueChars value.toList) :=
    (passes_char (by decide) (by decide)).append (passes_valueChars hv)
  have hend := passTo_append hvalue (c := '\n') (by decide) (by decide) (by decide) rest
  rw [htext, readLine, skipSpaces_cons_space, skipSpaces_cons_space, hn.skipSpaces_append,
    if_neg (hn.head?_ne _ (by decide)), if_pos List.head?_cons,
    hn.readName_append (by simp; decide)]
  simp only [Option.bind_eq_bind, Option.bind_some, hequals, expect_self, hend]
  rfl

theorem PlainEdge.isPlain_of_mem_writtenImplicits {e : Edge} (h : PlainEdge e) :
    ∀ p ∈ writtenImplicits e, IsPlain p := by
  intro p hp
  obtain hp | hp := List.mem_append.1 hp
  · exact h.implicits p hp
  · exact h.regenImplicits p (List.mem_filter.1 hp).1

theorem passes_plainPaths {ps : List String} (h : ∀ p ∈ ps, IsPlain p) :
    Passes stopsPaths (pathList ps).toList :=
  passes_pathList (by decide) fun p hp _ hc => (h p hp).escaped_or hc

theorem passes_plainMarked {mark : String} (hmark : Passes stopsPaths mark.toList)
    {ps : List String} (h : ∀ p ∈ ps, IsPlain p) :
    Passes stopsPaths (markedPaths mark ps).toList :=
  passes_markedPaths hmark (by decide) fun p hp _ hc => (h p hp).escaped_or hc

/-- The paths of an edge pass up to the end of its line. -/
theorem PlainEdge.passes_inputs {e : Edge} (h : PlainEdge e) :
    Passes stopsPaths ((pathList e.inputs).toList
      ++ ((markedPaths " |" (writtenImplicits e)).toList
        ++ (markedPaths " ||" e.orderOnly).toList)) := by
  have himplicits : Passes stopsPaths (markedPaths " |" (writtenImplicits e)).toList :=
    passes_plainMarked (passes_of_all (by decide)) h.isPlain_of_mem_writtenImplicits
  have horderOnly : Passes stopsPaths (markedPaths " ||" e.orderOnly).toList :=
    passes_plainMarked (passes_of_all (by decide)) h.orderOnly
  exact (passes_plainPaths h.inputs).append (himplicits.append horderOnly)

/-- The line of an edge names its rule, whatever its paths hold. -/
theorem PlainEdge.readLine_edgeLine {e : Edge} (h : PlainEdge e) (rest : List Char) :
    readLine ("build".toList ++ edgeLine e.outputs e.rule e.inputs (writtenImplicits e)
      e.orderOnly rest) = some (.build e.rule, rest) := by
  have hname : IsName "build" := by decide
  have hline : ∀ c ∈ (edgeLine e.outputs e.rule e.inputs (writtenImplicits e) e.orderOnly
      rest).head?, isWordChar c = false :=
    fun c hc => not_isWordChar_of_isPathEnd (isPathEnd_of_pathList rfl c hc)
  have houtputs (cs : List Char) :
      passTo stopsPaths ':' ((pathList e.outputs).toList ++ ':' :: cs) = some cs :=
    passTo_append (passes_plainPaths h.outputs) (by decide) (by decide) (by decide) cs
  have hrule : ∀ c ∈ ((pathList e.inputs).toList ++ implicitsTail (writtenImplicits e) e.orderOnly
      rest).head?, isWordChar c = false := fun c hc => not_isWordChar_of_isPathEnd
    (isPathEnd_of_pathList (noPath_implicitsTail _ _ _) c hc)
  have hinputs : passTo stopsPaths '\n' ((pathList e.inputs).toList
      ++ implicitsTail (writtenImplicits e) e.orderOnly rest) = some rest := by
    have hend := passTo_append h.passes_inputs (c := '\n') (by decide) (by decide) (by decide) rest
    rwa [List.append_assoc, List.append_assoc] at hend
  rw [readLine, hname.skipSpaces_append, if_neg (hname.head?_ne _ (by decide)),
    if_neg (hname.head?_ne _ (by decide)), hname.readName_append hline]
  simp only [Option.bind_eq_bind, Option.bind_some, if_pos, edgeLine, houtputs,
    skipSpaces_cons_space, h.rule.skipSpaces_append, h.rule.readName_append hrule, hinputs]
  rfl

/-! ## Texts of edges -/

/-- The lines of variables are read from their text, and what is behind it by itself. -/
theorem linesOf_varLines {vars : List (String × String)}
    (h : ∀ v ∈ vars, IsName v.1 ∧ IsPlain v.2) (rest : List Char) :
    linesOf ((vars.flatMap fun v => bindingLine v.1 (valueChars v.2.toList)) ++ rest)
      = (linesOf rest).map ((vars.map fun v => .binding v.1) ++ ·) := by
  induction vars with
  | nil => simp
  | cons v vars ih =>
      obtain ⟨⟨hname, hvalue⟩, hvars⟩ := List.forall_mem_cons.1 h
      have hstart : ∃ c ∈ (bindingLine v.1 (valueChars v.2.toList)).head?, isLineEnd c = false :=
        ⟨' ', rfl, rfl⟩
      rw [List.flatMap_cons, List.append_assoc,
        linesOf_append hstart (readLine_bindingLine hname hvalue), ih hvars, Option.map_map]
      rfl

/-- An edge is read from its block, and what is behind it by itself. -/
theorem PlainEdge.linesOf_edgeText {e : Edge} (h : PlainEdge e) (rest : List Char) :
    linesOf ((edgeText e).toList ++ rest) = (linesOf rest).map (Line.ofEdge e ++ ·) := by
  let line := "build".toList ++ edgeLine e.outputs e.rule e.inputs (writtenImplicits e)
    e.orderOnly []
  have hline (text : List Char) : "build".toList ++ edgeLine e.outputs e.rule e.inputs
      (writtenImplicits e) e.orderOnly text = line ++ text := by
    rw [List.append_assoc, edgeLine_append, List.nil_append]
  have hread (text : List Char) : readLine (line ++ text) = some (.build e.rule, text) := by
    rw [← hline, h.readLine_edgeLine]
  have hstart : ∃ c ∈ line.head?, isLineEnd c = false := ⟨'b', rfl, rfl⟩
  rw [toList_edgeText, hline, List.append_assoc, linesOf_append hstart hread, toList_varLines,
    List.append_assoc, List.singleton_append, linesOf_varLines h.vars, linesOf_newline,
    Option.map_map]
  rfl

/-- An edge is read from its block as the line of its rule and one line for each variable, whatever
its paths and values hold.  What is behind the block is read as it is by itself, so edges with the
same names give the same lines wherever they stand. -/
theorem readLines_edgeText {e : Edge} (h : PlainEdge e) :
    readLines (edgeText e) = some (Line.ofEdge e)
      ∧ (∀ rest, readLines (edgeText e ++ rest) = (readLines rest).map (Line.ofEdge e ++ ·))
      ∧ ∀ e', PlainEdge e' → e'.rule = e.rule →
        e'.vars.entries.map (·.1) = e.vars.entries.map (·.1) →
        ∀ rest, readLines (edgeText e' ++ rest) = readLines (edgeText e ++ rest) := by
  have happend (e : Edge) (he : PlainEdge e) (rest : String) : readLines (edgeText e ++ rest)
      = (readLines rest).map (Line.ofEdge e ++ ·) := by
    rw [readLines, String.toList_append, he.linesOf_edgeText, readLines]
  refine ⟨?_, happend e h, fun e' he' hrule hnames rest => ?_⟩
  · have halone := h.linesOf_edgeText []
    rw [List.append_nil, linesOf_nil, Option.map_some, List.append_nil] at halone
    exact halone
  · have hsame : Line.ofEdge e' = Line.ofEdge e := by
      have hbindings := congrArg (List.map Line.binding) hnames
      rw [List.map_map, List.map_map] at hbindings
      rw [Line.ofEdge, Line.ofEdge, hrule]
      exact congrArg (Line.build e.rule :: ·) hbindings
    rw [happend e' he', happend e h, hsame]

/-- Every text holds what looks like the end of an edge and the start of another. -/
theorem readLines_edgeText_of_lines :
    let text := "a$\n  v = 1\n\nbuild x: phony | y\n"
    let e : Edge := {
      inputs := [text, "$"]
      outputs := [text, "b:", "||"]
      implicits := [text]
      orderOnly := ["", text]
      regenImplicits := ["c$$"]
      rule := "cat.1"
      vars := (Bindings.empty.insert "opt" text).insert "dst-dir" "$" }
    let e' := { e with inputs := [], outputs := ["o"] }
    let lines := [Line.build "cat.1", .binding "dst-dir", .binding "opt"]
    (PlainEdge e ∧ PlainEdge e') ∧ readLines (edgeText e) = some lines
      ∧ readLines (edgeText e ++ edgeText e') = some (lines ++ lines)
      ∧ readLines (edgeText e' ++ edgeText e) = some (lines ++ lines) := by
  intro text e e' lines
  have he : PlainEdge e := by constructor <;> decide
  have he' : PlainEdge e' := by constructor <;> decide
  obtain ⟨halone, hfirst, hsame⟩ := readLines_edgeText he
  have hother : readLines (edgeText e') = some lines := (readLines_edgeText he').1
  refine ⟨⟨he, he'⟩, halone, ?_, ?_⟩
  · rw [hfirst, hother]
    rfl
  · rw [hsame e' he' rfl rfl, hfirst, halone]
    rfl

end BuildGraph.Ninja
