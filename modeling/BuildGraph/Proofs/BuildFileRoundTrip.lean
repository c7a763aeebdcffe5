import BuildGraph.Proofs.LineValues

/-!
# Written build files are read back

A build file loses nothing of the graph that it is written for: reading it gives the rules and
the edges in order, each with all its texts, then the alias of all default outputs
(`read_buildFile`).  The graph's texts must be such that a line can hold them: names are words,
paths are not empty and hold neither control characters nor `|`, and command lines,
descriptions and values hold no control character and do not begin with a space.

The groups of paths on the line of an edge are optional, so the end of the line is read from the
back: no path follows the inputs (`noPath_implicitsTail`), and where no implicit inputs are
written the mark of the order-only paths is not taken for theirs (`readImplicits_orderOnlyTail`).
-/

namespace BuildGraph.Ninja

/-! ## What can be written -/

/-- The texts of a rule can be written. -/
structure WritableRule (r : Rule) : Prop where
  name : IsName r.name
  command : IsLine (Text.join " && " (r.commands.map (Text.join " ")))
  description : ∀ d ∈ r.description, IsLine d

/-- The texts of an edge can be written. -/
structure WritableEdge (e : Edge) : Prop where
  rule : IsName e.rule
  outputs : ∀ p ∈ e.outputs, IsPath p
  inputs : ∀ p ∈ e.inputs, IsPath p
  implicits : ∀ p ∈ e.implicits, IsPath p
  regenImplicits : ∀ p ∈ e.regenImplicits, IsPath p
  orderOnly : ∀ p ∈ e.orderOnly, IsPath p
  vars : ∀ v ∈ e.vars.entries, IsName v.1 ∧ IsLine v.2

/-! ## What should be read -/

/-- A rule with its command lines run in sequence. -/
def RuleBlock.ofRule (r : Rule) : RuleBlock where
  name := r.name
  command := Text.join " && " (r.commands.map (Text.join " "))
  description := r.description
  generator := r.generator
  restat := r.restat

/-- An edge whose implicit inputs are followed by the files that make the build file out of date,
those left out that are among them already. -/
def Statement.ofEdge (e : Edge) : Statement where
  outputs := e.outputs
  rule := e.rule
  inputs := e.inputs
  implicits := e.implicits ++ e.regenImplicits.filter (· ∉ e.implicits)
  orderOnly := e.orderOnly
  vars := e.vars.entries

/-- The alias of all outputs that are built by default. -/
def Statement.ofDefaults (edges : List Edge) : Statement where
  outputs := ["all"]
  rule := "phony"
  inputs := (edges.filter (·.all)).flatMap (·.outputs)
  implicits := []
  orderOnly := []
  vars := []

/-- The blocks of a graph. -/
def blocks (g : Graph) : List Block :=
  [.comment " Generated by haga. Do not edit.", .setting "ninja_required_version" "1.7"]
    ++ g.rules.map (fun r => .rule (.ofRule r))
    ++ g.edges.map (fun e => .build (.ofEdge e))
    ++ [.build (.ofDefaults g.edges), .default ["all"]]

/-! ## Rules -/

/-- What a rule binds, in the order in which it is written. -/
def ruleBindings (r : Rule) : List (String × String) :=
  ("command", commandLine r.commands) :: (r.description.toList.map (("description", ·))
    ++ (if r.generator then [("generator", "1")] else [])
    ++ (if r.restat then [("restat", "1")] else []))

theorem toList_ruleText (r : Rule) :
    (ruleText r).toList = "rule".toList ++ ' ' :: (r.name.toList ++ '\n' ::
      ((ruleBindings r).flatMap (fun b => bindingLine b.1 b.2.toList) ++ ['\n'])) := by
  unfold ruleText ruleBindings
  cases r.description <;> cases r.generator <;> cases r.restat <;> simp [bindingLine]

theorem ruleBlock?_ruleBindings (r : Rule) :
    ruleBlock? r.name (ruleBindings r) = some (.ofRule r) := by
  unfold ruleBlock? ruleBindings RuleBlock.ofRule commandLine
  cases r.description <;> cases r.generator <;> cases r.restat <;> simp [List.lookup_cons]

theorem mem_ruleBindings {r : Rule} {b : String × String} (h : b ∈ ruleBindings r) :
    b = ("command", commandLine r.commands) ∨ (∃ d ∈ r.description, b = ("description", d))
      ∨ b = ("generator", "1") ∨ b = ("restat", "1") := by
  simp only [ruleBindings, List.mem_cons, List.mem_append, List.mem_map, Option.mem_toList] at h
  obtain h | ((⟨d, hd, rfl⟩ | h) | h) := h
  · exact .inl h
  · exact .inr (.inl ⟨d, hd, rfl⟩)
  · split at h
    · exact .inr (.inr (.inl (by simpa using h)))
    · cases h
  · split at h
    · exact .inr (.inr (.inr (by simpa using h)))
    · cases h

theorem isName_of_mem_ruleBindings {r : Rule} {b : String × String} (hb : b ∈ ruleBindings r) :
    IsName b.1 := by
  obtain rfl | ⟨d, -, rfl⟩ | rfl | rfl := mem_ruleBindings hb
  · exact (by decide : IsName "command")
  · exact (by decide : IsName "description")
  · exact (by decide : IsName "generator")
  · exact (by decide : IsName "restat")

/-- What a rule binds can be written. -/
theorem WritableRule.isLine_of_mem_ruleBindings {r : Rule} (h : WritableRule r)
    {b : String × String} (hb : b ∈ ruleBindings r) : IsLine b.2 := by
  have hone : IsLine "1" := by decide
  obtain rfl | ⟨d, hd, rfl⟩ | rfl | rfl := mem_ruleBindings hb
  · exact h.command
  · exact h.description d hd
  · exact hone
  · exact hone

/-- The text of a rule behind its first word is read back if each text in it has one line. -/
theorem readRule_ruleLines {r : Rule} (hname : IsName r.name)
    (hlines : ∀ b ∈ ruleBindings r, IsRawLine b.2) (rest : List Char) :
    readRule (' ' :: (r.name.toList ++ '\n' ::
      ((ruleBindings r).flatMap (fun b => bindingLine b.1 b.2.toList) ++ '\n' :: rest)))
      = some (.ofRule r, '\n' :: rest) := by
  have hbindings : readBindings rawLine
      ((ruleBindings r).flatMap (fun b => bindingLine b.1 b.2.toList) ++ '\n' :: rest)
      = some (ruleBindings r, '\n' :: rest) := by
    rw [readBindings_append (by simp) fun b hb =>
      reads_rawLine (isName_of_mem_ruleBindings hb) (hlines b hb), List.map_id']
  rw [readRule, skipSpaces_cons_space, skipSpaces_of_head?_ne (hname.head?_ne _ (by decide)),
    word_append hname.2 (by simp; decide)]
  simp [expect_self, hbindings, ruleBlock?_ruleBindings]

/-! ## Edges -/

/-- The end of an edge's line, behind its implicit inputs. -/
def orderOnlyTail (orderOnly : List String) (rest : List Char) : List Char :=
  (markedPaths " ||" orderOnly).toList ++ '\n' :: rest

/-- The end of an edge's line, behind its inputs. -/
def implicitsTail (implicits orderOnly : List String) (rest : List Char) : List Char :=
  (markedPaths " |" implicits).toList ++ orderOnlyTail orderOnly rest

theorem toList_markedPaths_cons (mark p : String) (ps : List String) :
    (markedPaths mark (p :: ps)).toList = mark.toList ++ (pathList (p :: ps)).toList := by
  rw [markedPaths, if_neg (List.cons_ne_nil p ps), String.toList_append]

/-- No path follows on the line of an edge behind its inputs. -/
theorem noPath_orderOnlyTail (os : List String) (rest : List Char) :
    noPath (orderOnlyTail os rest) = true := by
  rw [orderOnlyTail]
  cases os with
  | nil => rfl
  | cons p ps =>
      rw [toList_markedPaths_cons]
      rfl

theorem noPath_implicitsTail (is os : List String) (rest : List Char) :
    noPath (implicitsTail is os rest) = true := by
  rw [implicitsTail]
  cases is with
  | nil => exact noPath_orderOnlyTail os rest
  | cons p ps =>
      rw [toList_markedPaths_cons]
      rfl

/-- The order-only paths are read back, also when there are none. -/
theorem readOrderOnly_orderOnlyTail {os : List String} (h : ∀ p ∈ os, IsPath p)
    (rest : List Char) :
    readOrderOnly (skipSpaces (orderOnlyTail os rest)) = some (os, '\n' :: rest) := by
  rw [orderOnlyTail]
  cases os with
  | nil => rfl
  | cons p ps =>
      have hmark (cs : List Char) : skipSpaces (" ||".toList ++ cs) = '|' :: '|' :: cs := rfl
      rw [toList_markedPaths_cons, List.append_assoc, hmark, readOrderOnly]
      exact readPaths_pathList (fun p hp => (h p hp).listable) (noPath_newline rest)

/-- No implicit inputs are read before the order-only paths. -/
theorem readImplicits_orderOnlyTail (os : List String) (rest : List Char) :
    readImplicits (skipSpaces (orderOnlyTail os rest))
      = some ([], skipSpaces (orderOnlyTail os rest)) := by
  rw [orderOnlyTail]
  cases os with
  | nil => rfl
  | cons p ps =>
      rw [toList_markedPaths_cons]
      rfl

/-- The implicit inputs are read back, also when there are none, before the order-only paths. -/
theorem readImplicits_implicitsTail {is : List String} (h : ∀ p ∈ is, IsPath p)
    (os : List String) (rest : List Char) :
    readImplicits (skipSpaces (implicitsTail is os rest))
      = some (is, skipSpaces (orderOnlyTail os rest)) := by
  rw [implicitsTail]
  cases is with
  | nil => exact readImplicits_orderOnlyTail os rest
  | cons p ps =>
      have hpaths := readPaths_pathList (fun p hp => (h p hp).listable)
        (noPath_orderOnlyTail os rest)
      rw [toList_markedPaths_cons, List.append_assoc]
      -- The space before the first path tells the mark from the one of order-only paths.
      rw [toList_pathList_cons] at hpaths ⊢
      exact hpaths

/-- The line of an edge, behind its first word, and what follows it. -/
def edgeLine (outputs : List String) (rule : String) (inputs implicits orderOnly : List String)
    (rest : List Char) : List Char :=
  (pathList outputs).toList ++ ':' :: ' ' :: (rule.toList
    ++ ((pathList inputs).toList ++ implicitsTail implicits orderOnly rest))

/-- The line of an edge is read back, the variables behind it by what reads them. -/
theorem readStatement_edgeLine {outputs : List String} {rule : String}
    {inputs implicits orderOnly : List String} (ho : ∀ p ∈ outputs, IsPath p) (hr : IsName rule)
    (hi : ∀ p ∈ inputs, IsPath p) (him : ∀ p ∈ implicits, IsPath p)
    (hoo : ∀ p ∈ orderOnly, IsPath p) {text rest : List Char} {vars : List (String × String)}
    (hv : readBindings (decodeUntil isLineEnd false) text = some (vars, rest)) :
    readStatement (edgeLine outputs rule inputs implicits orderOnly text)
      = some ({ outputs, rule, inputs, implicits, orderOnly, vars }, rest) := by
  have hcolon (cs : List Char) : skipSpaces (':' :: cs) = ':' :: cs := rfl
  have htail := noPath_implicitsTail implicits orderOnly text
  have hword : word (skipSpaces (' ' :: (rule.toList ++ ((pathList inputs).toList
      ++ implicitsTail implicits orderOnly text))))
      = (rule, (pathList inputs).toList ++ implicitsTail implicits orderOnly text) := by
    rw [skipSpaces_cons_space, skipSpaces_of_head?_ne (hr.head?_ne _ (by decide))]
    refine word_append hr.2 fun c hc => ?_
    exact not_isWordChar_of_isPathEnd (isPathEnd_of_pathList htail c hc)
  rw [readStatement, edgeLine, readPaths_pathList (fun p hp => (ho p hp).listable) rfl]
  simp only [Option.bind_eq_bind, Option.bind_some, hcolon, expect_self, hword,
    readPaths_pathList (fun p hp => (hi p hp).listable) htail, readImplicits_implicitsTail him,
    readOrderOnly_orderOnlyTail hoo, hv]
  rfl

theorem toList_varLines (vars : Bindings) :
    (varLines vars).toList
      = vars.entries.flatMap fun v => bindingLine v.1 (valueChars v.2.toList) := by
  simp [varLines, toList_concat, bindingLine, valueText]

/-- The variables of an edge are read before a line that is not indented, their values without the
spaces at their start and the ends of their lines. -/
theorem readBindings_varLines {vars : Bindings} {rest : List Char}
    (hnames : ∀ v ∈ vars.entries, IsName v.1) (hrest : rest.head? ≠ some ' ') :
    readBindings (decodeUntil isLineEnd false) ((varLines vars).toList ++ rest)
      = some (vars.entries.map fun v => (v.1, lineValue v.2), rest) := by
  rw [toList_varLines]
  exact readBindings_append hrest fun v hv => reads_valueLine (hnames v hv)

theorem toList_edgeText (e : Edge) :
    (edgeText e).toList = "build".toList ++ edgeLine e.outputs e.rule e.inputs
      (writtenImplicits e) e.orderOnly ((varLines e.vars).toList ++ ['\n']) := by
  have hcolon : ": ".toList = [':', ' '] := rfl
  have hend : "\n".toList = ['\n'] := rfl
  unfold edgeText edgeLine implicitsTail orderOnlyTail
  simp only [String.toList_append, hcolon, hend, List.append_assoc, List.cons_append,
    List.nil_append]

theorem WritableEdge.writtenImplicits {e : Edge} (h : WritableEdge e) :
    ∀ p ∈ writtenImplicits e, IsPath p := by
  intro p hp
  obtain hp | hp := List.mem_append.1 hp
  · exact h.implicits p hp
  · exact h.regenImplicits p (List.mem_filter.1 hp).1

/-! ## Blocks -/

/-- What may follow a block: neither a blank line nor an indented one. -/
def StartsBlock (rest : List Char) : Prop := ∀ c ∈ rest.head?, c ≠ '\n' ∧ c ≠ ' '

/-- A block is read back from a text with the void behind it. -/
abbrev ReadsBlock (text : List Char) (b : Block) : Prop :=
  Reader.Reads List.isEmpty readBlockAndVoid StartsBlock text b

theorem dropWhile_isLineEnd {void rest : List Char} (hv : ∀ c ∈ void, isLineEnd c = true)
    (h : StartsBlock rest) : (void ++ rest).dropWhile isLineEnd = rest := by
  rw [List.dropWhile_append_of_pos hv]
  cases rest with
  | nil => rfl
  | cons c cs =>
      have hc := (h c rfl).1
      exact List.dropWhile_cons_of_neg (by simpa [isLineEnd] using hc)

/-- A block is read with the void behind it if its own step reads it up to there. -/
theorem reads_block {text : List Char} {b : Block} (void : List Char) (hne : text ≠ [])
    (ht : StartsBlock text) (hv : ∀ c ∈ void, isLineEnd c = true)
    (h : ∀ rest, StartsBlock rest → readBlock (text ++ rest) = some (b, void ++ rest)) :
    ReadsBlock text b := by
  constructor
  case ne_nil => exact hne
  case may_follow =>
    intro more c hc
    cases text with
    | nil => exact absurd rfl hne
    | cons d ds => exact ht c hc
  case done_eq =>
    intro more _
    simp [hne]
  case item_eq =>
    intro more hmore
    rw [readBlockAndVoid, h more hmore]
    simp [dropWhile_isLineEnd hv hmore]

/-- A block that begins with a name begins a line of its own. -/
theorem IsName.reads_block {w : String} (hw : IsName w) {text : List Char} {b : Block}
    (void : List Char) (hv : ∀ c ∈ void, isLineEnd c = true)
    (h : ∀ rest, StartsBlock rest → readBlock (w.toList ++ text ++ rest) = some (b, void ++ rest)) :
    ReadsBlock (w.toList ++ text) b := by
  have hne : w.toList ≠ [] := mt String.toList_eq_nil_iff.1 hw.1
  refine Ninja.reads_block void (List.append_ne_nil_of_left_ne_nil hne text) ?_ hv h
  intro c hc
  constructor
  · rintro rfl
    exact hw.head?_ne text (by decide) hc
  · rintro rfl
    exact hw.head?_ne text (by decide) hc

/-- A block is told from a comment and from the other blocks by its first word. -/
theorem readBlock_of_word {w : String} (hw : IsName w) {rest : List Char}
    (hr : ∀ c ∈ rest.head?, isWordChar c = false) :
    readBlock (w.toList ++ rest) = if w = "rule" then
        (readRule rest).map fun r => (.rule r.1, r.2)
      else if w = "build" then (readStatement rest).map fun r => (.build r.1, r.2)
      else if w = "default" then (readPaths rest).map fun r => (.default r.1, r.2)
      else (readBinding (decodeUntil isLineEnd false) (w.toList ++ rest)).map
        fun r => (.setting r.1.1 r.1.2, r.2) := by
  rw [readBlock, if_neg (hw.head?_ne rest (by decide)), word_append hw.2 hr]
  dsimp only
  split
  · cases readRule rest <;> rfl
  · split
    · cases readStatement rest <;> rfl
    · split
      · cases readPaths rest <;> rfl
      · cases readBinding (decodeUntil isLineEnd false) (w.toList ++ rest) <;> rfl

theorem reads_ruleText {r : Rule} (hname : IsName r.name)
    (hlines : ∀ b ∈ ruleBindings r, IsRawLine b.2) :
    ReadsBlock (ruleText r).toList (.rule (.ofRule r)) := by
  have hword : IsName "rule" := by decide
  rw [toList_ruleText]
  refine hword.reads_block ['\n'] (by simp [isLineEnd]) fun rest _ => ?_
  have hrule := readRule_ruleLines hname hlines rest
  rw [List.append_assoc, readBlock_of_word hword (by simp; decide), if_pos rfl]
  simp only [List.cons_append, List.append_assoc, List.nil_append] at hrule ⊢
  rw [hrule]
  rfl

theorem WritableRule.reads {r : Rule} (h : WritableRule r) :
    ReadsBlock (ruleText r).toList (.rule (.ofRule r)) :=
  reads_ruleText h.name fun _ hb => (h.isLine_of_mem_ruleBindings hb).raw

/-- The line of an edge and what it binds are read back. -/
theorem readBlock_edgeLine {outputs : List String} {rule : String}
    {inputs implicits orderOnly : List String} (ho : ∀ p ∈ outputs, IsPath p) (hr : IsName rule)
    (hi : ∀ p ∈ inputs, IsPath p) (him : ∀ p ∈ implicits, IsPath p)
    (hoo : ∀ p ∈ orderOnly, IsPath p) {text rest : List Char} {vars : List (String × String)}
    (hv : readBindings (decodeUntil isLineEnd false) text = some (vars, rest)) :
    readBlock ("build".toList ++ edgeLine outputs rule inputs implicits orderOnly text)
      = some (.build { outputs, rule, inputs, implicits, orderOnly, vars }, rest) := by
  have hname : IsName "build" := by decide
  have hline : ∀ c ∈ (edgeLine outputs rule inputs implicits orderOnly text).head?,
      isWordChar c = false :=
    fun c hc => not_isWordChar_of_isPathEnd (isPathEnd_of_pathList rfl c hc)
  rw [readBlock_of_word hname hline, if_neg (by decide), if_pos rfl,
    readStatement_edgeLine ho hr hi him hoo hv]
  rfl

theorem edgeLine_append (outputs : List String) (rule : String)
    (inputs implicits orderOnly : List String) (text rest : List Char) :
    edgeLine outputs rule inputs implicits orderOnly text ++ rest
      = edgeLine outputs rule inputs implicits orderOnly (text ++ rest) := by
  simp [edgeLine, implicitsTail, orderOnlyTail]

theorem WritableEdge.reads {e : Edge} (h : WritableEdge e) :
    ReadsBlock (edgeText e).toList (.build (.ofEdge e)) := by
  have hname : IsName "build" := by decide
  rw [toList_edgeText]
  refine hname.reads_block ['\n'] (by simp [isLineEnd]) fun rest _ => ?_
  have hvars : readBindings (decodeUntil isLineEnd false) ((varLines e.vars).toList
      ++ ['\n'] ++ rest) = some (e.vars.entries, '\n' :: rest) := by
    rw [List.append_assoc, readBindings_varLines (fun v hv => (h.vars v hv).1) (by simp),
      map_lineValue_eq_self_iff.2 fun v hv => (h.vars v hv).2.lineValue_eq]
    rfl
  rw [List.append_assoc, edgeLine_append]
  exact readBlock_edgeLine h.outputs h.rule h.inputs h.writtenImplicits h.orderOnly hvars

/-- The line of the alias of all default outputs. -/
def aliasChars (edges : List Edge) : List Char :=
  "build".toList ++ edgeLine [defaultAlias] Rule.aliasName
    ((edges.filter (·.all)).flatMap (·.outputs)) [] [] []

theorem reads_aliasChars {edges : List Edge} (h : ∀ e ∈ edges, WritableEdge e) :
    ReadsBlock (aliasChars edges) (.build (.ofDefaults edges)) := by
  have hname : IsName "build" := by decide
  refine hname.reads_block [] (by simp) fun rest hrest => ?_
  have hall : ∀ p ∈ [defaultAlias], IsPath p := by decide
  have houtputs : ∀ p ∈ (edges.filter (·.all)).flatMap (·.outputs), IsPath p := by
    intro p hp
    obtain ⟨e, he, hpe⟩ := List.mem_flatMap.1 hp
    exact (h e (List.mem_filter.1 he).1).outputs p hpe
  have hvars : readBindings (decodeUntil isLineEnd false) ([] ++ rest) = some ([], rest) := by
    have hspace : rest.head? ≠ some ' ' := fun hc => (hrest _ hc).2 rfl
    rw [readBindings, Reader.many, if_pos (by simpa using hspace), List.nil_append]
  rw [List.append_assoc, edgeLine_append]
  exact readBlock_edgeLine hall (by decide) houtputs (by simp) (by simp) hvars

/-- The line that makes the alias the default. -/
theorem reads_default :
    ReadsBlock ("default".toList ++ ((pathList [defaultAlias]).toList ++ ['\n']))
      (.default ["all"]) := by
  have hname : IsName "default" := by decide
  refine hname.reads_block ['\n'] (by simp [isLineEnd]) fun rest _ => ?_
  have hpath : ∀ p ∈ [defaultAlias], IsPath p := by decide
  rw [List.append_assoc, List.append_assoc, List.singleton_append,
    readBlock_of_word hname (by simp [toList_pathList_cons]; decide),
    if_neg (by decide), if_neg (by decide), if_pos rfl,
    readPaths_pathList (fun p hp => (hpath p hp).listable) (noPath_newline rest)]
  rfl

theorem reads_comment {text : String} (h : ∀ c ∈ text.toList, isControl c = false) :
    ReadsBlock ('#' :: (text.toList ++ ['\n'])) (.comment text) := by
  refine reads_block ['\n'] (by simp) (by simp [StartsBlock]) (by simp [isLineEnd]) fun rest _ => ?_
  have hline : rawLine (text.toList ++ '\n' :: rest) = some (text.toList, '\n' :: rest) :=
    rawLine_append (newline_not_mem h) (by simp; decide)
  simp [readBlock, hline]

/-- A variable of the whole file is told from the blocks with a word of their own. -/
theorem reads_setting {name value : String} (hn : IsName name)
    (hw : name ∉ ["rule", "build", "default"]) (hl : IsLine value) :
    ReadsBlock (name.toList ++ ' ' :: '=' :: ' ' :: (valueChars value.toList ++ ['\n', '\n']))
      (.setting name value) := by
  refine hn.reads_block ['\n'] (by simp [isLineEnd]) fun rest _ => ?_
  have hvalue : decodeUntil isLineEnd false
      (skipSpaces (valueChars value.toList ++ '\n' :: '\n' :: rest))
      = some (value.toList, '\n' :: '\n' :: rest) := by
    rw [decodeUntil_line, hl.lineValue_eq]
  have hline := readBinding_of_value hn hvalue
  simp only [List.mem_cons, List.not_mem_nil, or_false, not_or] at hw
  rw [List.append_assoc, readBlock_of_word hn (by simp; decide), if_neg hw.1, if_neg hw.2.1,
    if_neg hw.2.2]
  simp only [List.cons_append, List.append_assoc, List.nil_append]
  rw [hline]
  rfl

/-! ## Build files -/

/-- A build file as the texts of its blocks, each with what should be read from it. -/
def pieces (g : Graph) : List (List Char × Block) :=
  [('#' :: (" Generated by haga. Do not edit.".toList ++ ['\n']),
      .comment " Generated by haga. Do not edit."),
    ("ninja_required_version".toList ++ ' ' :: '=' :: ' ' ::
      (valueChars "1.7".toList ++ ['\n', '\n']), .setting "ninja_required_version" "1.7")]
    ++ g.rules.map (fun r => ((ruleText r).toList, .rule (.ofRule r)))
    ++ g.edges.map (fun e => ((edgeText e).toList, .build (.ofEdge e)))
    ++ [(aliasChars g.edges, .build (.ofDefaults g.edges)),
      ("default".toList ++ ((pathList [defaultAlias]).toList ++ ['\n']), .default ["all"])]

theorem map_snd_pieces (g : Graph) : (pieces g).map (·.2) = blocks g := by
  simp [pieces, blocks, Function.comp_def]

theorem toList_buildFile (g : Graph) :
    (buildFile g).toList = (pieces g).flatMap (·.1) := by
  have hversion : valueChars ['1', '.', '7'] = ['1', '.', '7'] := rfl
  have hpath : pathChars ['a', 'l', 'l'] = ['a', 'l', 'l'] := rfl
  have hnone : (pathList []).toList = [] := rfl
  have hend : implicitsTail [] [] [] = ['\n'] := rfl
  unfold buildFile header footer pieces aliasChars edgeLine defaultOutputs
  simp [toList_concat, toList_pathList_cons, List.flatMap_map, defaultAlias, Rule.aliasName,
    hnone, hend, hversion, hpath]

/-- Reading the build file of a graph gives the graph's blocks. -/
theorem read_buildFile (g : Graph) (hr : ∀ r ∈ g.rules, WritableRule r)
    (he : ∀ e ∈ g.edges, WritableEdge e) : read (buildFile g) = some (blocks g) := by
  have hpieces : ∀ b ∈ pieces g, ReadsBlock b.1 b.2 := by
    refine List.forall_mem_append.2 ⟨List.forall_mem_append.2 ⟨List.forall_mem_append.2
      ⟨List.forall_mem_cons.2 ⟨?comment, List.forall_mem_singleton.2 ?setting⟩,
        List.forall_mem_map.2 ?rules⟩, List.forall_mem_map.2 ?edges⟩,
      List.forall_mem_cons.2 ⟨?all, List.forall_mem_singleton.2 ?last⟩⟩
    case comment =>
      have hall : " Generated by haga. Do not edit.".toList.all (!isControl ·) = true := by decide
      exact reads_comment fun c hc => by simpa using List.all_eq_true.1 hall c hc
    case setting => exact reads_setting (by decide) (by decide) (by decide)
    case rules =>
      intro r hmem
      dsimp only
      exact (hr r hmem).reads
    case edges =>
      intro e hmem
      dsimp only
      exact (he e hmem).reads
    case all => exact reads_aliasChars he
    case last => exact reads_default
  have hmany : Reader.many List.isEmpty readBlockAndVoid ((pieces g).flatMap (·.1) ++ [])
      = some ((pieces g).map (·.2), []) :=
    Reader.many_append (by simp [StartsBlock]) rfl hpieces
  rw [List.append_nil, ← toList_buildFile, map_snd_pieces] at hmany
  rw [read, hmany]
  rfl

/-- Every escape occurs, all four groups of paths are there, and one file that makes the build
file out of date is an implicit input already. -/
theorem read_buildFile_of_escapes :
    let r : Rule := {
      name := "cat"
      commands := [["cat", "$in"], ["mv", "x y", "$out"]]
      description := some "" }
    let e : Edge := {
      inputs := ["a b", "$"]
      outputs := ["c:\\d", "e"]
      implicits := ["f"]
      orderOnly := ["g$ :h"]
      regenImplicits := ["i", "f"]
      rule := "cat"
      vars := Bindings.empty.insert "opt" "$a: b" }
    (WritableRule r ∧ WritableEdge e)
      ∧ read (buildFile { rules := [r], edges := [e] }) = some [
        .comment " Generated by haga. Do not edit.",
        .setting "ninja_required_version" "1.7",
        .rule {
          name := "cat"
          command := "cat $in && mv x y $out"
          description := some ""
          generator := false
          restat := false },
        .build {
          outputs := ["c:\\d", "e"]
          rule := "cat"
          inputs := ["a b", "$"]
          implicits := ["f", "i"]
          orderOnly := ["g$ :h"]
          vars := [("opt", "$a: b")] },
        .build {
          outputs := ["all"]
          rule := "phony"
          inputs := ["c:\\d", "e"]
          implicits := []
          orderOnly := []
          vars := [] },
        .default ["all"]] := by
  intro r e
  have hr : WritableRule r := by constructor <;> decide
  have he : WritableEdge e := by constructor <;> decide
  refine ⟨⟨hr, he⟩, ?_⟩
  rw [read_buildFile _ (List.forall_mem_singleton.2 hr) (List.forall_mem_singleton.2 he)]
  rfl

end BuildGraph.Ninja
