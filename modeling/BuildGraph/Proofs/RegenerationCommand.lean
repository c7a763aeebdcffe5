import BuildGraph.Proofs.BareWords
import BuildGraph.Proofs.EdgeCommand
import BuildGraph.Proofs.RuleTable

/-!
# The command of regeneration

The built-in rule that makes the build file again changes to the input directory and runs the
program there.  Both paths stand in the command as they are, so they are read twice, first by the
executor, for which `$` starts a variable, and then by the shell.  The paths that the executor puts
in for `$in` and `$out` are quoted by it (`shellPath`).

The command does what it should exactly if both paths are bare words
(`Regeneration.tokens_iff`).  What is lost of a path is not made up for by a variable in it.  The
characters before the next space or slash are counted (`lead`).  By this count no value is longer
than the name of its variable (`lead_expand_le`), and the shell only leaves characters out
(`Kept.lead_le`), so too few are left from the first character on that is not read as itself
(`isBareWord_of_expand`).
-/

namespace BuildGraph

/-- An absolute path begins with a slash. -/
theorem Path.exists_cons_of_isAbsolute {p : String} (h : isAbsolute p = true) :
    ∃ cs, p.toList = '/' :: cs :=
  List.head?_eq_some_iff.1 (beq_iff_eq.1 h)

namespace Ninja

/-! ## Commands of rules -/

/-- The command of a block. -/
def Block.command? : Block → Option String
  | .rule r => some r.command
  | _ => none

/-- The command of a rule as it is read from its block. -/
def ruleCommand? (r : Rule) : Option String := do
  let blocks ← read (ruleText r)
  blocks.findSome? Block.command?

theorem ruleCommand?_eq {r : Rule} (hname : IsName r.name)
    (hlines : ∀ b ∈ ruleBindings r, IsRawLine b.2) :
    ruleCommand? r = some (commandLine r.commands) := by
  have hblock : ∀ b ∈ [()], ReadsBlock (ruleText r).toList (.rule (.ofRule r)) :=
    fun _ _ => reads_ruleText hname hlines
  have hmany : Reader.many List.isEmpty readBlockAndVoid
      ([()].flatMap (fun _ => (ruleText r).toList) ++ [])
      = some ([()].map fun _ => Block.rule (.ofRule r), []) :=
    Reader.many_append (by simp [StartsBlock]) rfl hblock
  rw [List.flatMap_singleton, List.append_nil] at hmany
  rw [ruleCommand?, read, hmany]
  rfl

/-! ## Commands of edges -/

/-- Characters of paths that the executor does not quote. -/
def isSafe (c : Char) : Bool := c.isAlphanum || c ∈ ['_', '+', '-', '.', '/']

/-- The inside of single quotes; one of them is put behind a backslash outside of others. -/
def singleQuoted : List Char → List Char
  | [] => []
  | c :: cs =>
    if c = '\x27' then '\x27' :: '\\' :: '\x27' :: '\x27' :: singleQuoted cs
    else c :: singleQuoted cs

/-- A path as the executor puts it into a command. -/
def shellPath (path : String) : String :=
  if path.toList.all isSafe then path
  else String.ofList ('\x27' :: (singleQuoted path.toList ++ ['\x27']))

/-- The value of a variable in the command of an edge. -/
def edgeValue (e : Edge) (name : String) : String :=
  if name = "in" then Text.join " " (e.inputs.map shellPath)
  else if name = "in_newline" then Text.join "\n" (e.inputs.map shellPath)
  else if name = "out" then Text.join " " (e.outputs.map shellPath)
  else valueIn e.vars.entries name

/-- The command of a rule as it is run for an edge. -/
def edgeCommand? (r : Rule) (e : Edge) : Option String := do
  let command ← ruleCommand? r
  let cs ← expand (edgeValue e) .text command.toList
  pure (String.ofList cs)

end Ninja

/-! ## Quoted paths -/

namespace Shell

theorem read_singleQuoted (w cs rest : List Char) :
    read .single (some w) (Ninja.singleQuoted cs ++ '\x27' :: rest)
      = read .outside (some (w ++ cs)) rest := by
  induction cs generalizing w with
  | nil => rw [Ninja.singleQuoted, List.nil_append, read, if_pos rfl, List.append_nil]
  | cons c cs ih =>
      rw [Ninja.singleQuoted]
      split
      · next hc =>
          rw [hc]
          simp [read, extend, ih]
      · next hc =>
          rw [List.cons_append, read, if_neg hc, extend, ih, Option.getD_some, List.append_assoc,
            List.singleton_append]

theorem isReserved_of_isSafe {c : Char} (h : Ninja.isSafe c = true) : isReserved c = false := by
  cases hc : isReserved c with
  | false => rfl
  | true =>
      have hunsafe : (!Ninja.isSafe c) = true :=
        (List.all_eq_true (p := (!Ninja.isSafe ·))).1 (by decide) c (of_decide_eq_true hc)
      rw [h] at hunsafe
      cases hunsafe

/-- A path is read back from the quotes of the executor. -/
theorem readsAs_shellPath {path : String} (h : path ≠ "") :
    ReadsAs (Ninja.shellPath path) path := by
  rw [Ninja.shellPath]
  split
  · next hsafe =>
      have hsafe := List.all_eq_true.1 hsafe
      refine IsBareWord.readsAs ⟨h, fun c hc => isReserved_of_isSafe (hsafe c hc), fun c hc => ?_⟩
      have hc := hsafe c (List.mem_of_mem_head? hc)
      constructor <;> rintro rfl <;> exact absurd hc (by decide)
  · intro rest
    rw [String.toList_ofList, List.cons_append, List.append_assoc, List.singleton_append, read]
    simp [read_singleQuoted]

end Shell

/-! ## What stands before a space or a slash -/

namespace Ninja

/-- Characters at which counting ends. -/
def endsLead (c : Char) : Bool := c = ' ' || c = '/'

/-- The number of characters before the first space or slash: a space ends a word for the shell, and
the paths that stand for variables begin with a slash. -/
def lead (cs : List Char) : Nat := cs.findIdx endsLead

theorem lead_cons (c : Char) (cs : List Char) :
    lead (c :: cs) = if endsLead c then 0 else lead cs + 1 := by
  rw [lead, List.findIdx_cons, cond_eq_ite]
  rfl

theorem lead_cons_of_not {c : Char} (h : endsLead c = false) (cs : List Char) :
    lead (c :: cs) = lead cs + 1 := by
  rw [lead_cons, h, if_neg Bool.false_ne_true]

theorem lead_cons_le {xs ys : List Char} (h : lead xs ≤ lead ys) (c : Char) :
    lead (c :: xs) ≤ lead (c :: ys) := by
  rw [lead_cons, lead_cons]
  split <;> omega

theorem endsLead_of_isWordChar {c : Char} (h : isWordChar c = true) : endsLead c = false := by
  cases hc : endsLead c with
  | false => rfl
  | true =>
      obtain rfl | rfl : c = ' ' ∨ c = '/' := by simpa [endsLead] using hc
      · exact absurd h (by decide)
      · exact absurd h (by decide)

theorem isWordChar_of_isNameChar {c : Char} (h : isNameChar c = true) : isWordChar c = true := by
  simp only [isNameChar, isWordChar, Bool.or_eq_true] at h ⊢
  tauto

theorem lead_append_le {xs ys zs : List Char} {n : Nat} (hx : lead xs ≤ n)
    (hy : lead ys ≤ lead zs) : lead (xs ++ ys) ≤ lead zs + n := by
  induction xs generalizing n with
  | nil => exact Nat.le_add_right_of_le hy
  | cons x xs ih =>
      rw [lead_cons] at hx
      rw [List.cons_append, lead_cons]
      split
      · exact Nat.zero_le _
      · next hlead =>
          rw [if_neg hlead] at hx
          have hrest := ih (n := n - 1) (by omega)
          omega

/-- Nothing behind a space is counted. -/
theorem lead_append_space (xs ys : List Char) : lead (xs ++ ' ' :: ys) = lead xs := by
  induction xs with
  | nil => rfl
  | cons x xs ih => rw [List.cons_append, lead_cons, lead_cons, ih]

/-- The part of a name that was read. -/
def Within.read : Within → List Char
  | .text | .dollar => []
  | .name read | .braces read => read

/-- Replacing variables by values with leads no longer than the names makes no lead longer. -/
theorem lead_expand_le {value : String → String}
    (hvalue : ∀ name, lead (value name).toList ≤ name.length) {place : Within}
    {cs text : List Char} (h : expand value place cs = some text) :
    lead text ≤ lead cs + place.read.length := by
  have hname (read : List Char) : lead (value (String.ofList read)).toList ≤ read.length := by
    rw [← String.length_ofList (l := read)]
    exact hvalue _
  fun_induction expand value place cs generalizing text with
  | case1 =>
      obtain rfl := Option.some.inj h
      exact Nat.zero_le _
  | case2 | case4 | case10 | case16 => cases h
  | case3 read =>
      obtain rfl := Option.some.inj h
      exact Nat.le_add_left_of_le (hname read)
  | case5 cs ih =>
      rw [lead_cons_of_not (by decide)]
      exact Nat.le_succ_of_le (ih h)
  | case6 c cs _ ih | case7 c cs _ ih =>
      obtain ⟨text, htext, rfl⟩ := Option.map_eq_some_iff.1 h
      exact lead_cons_le (ih htext) c
  | case8 cs _ ih =>
      rw [lead_cons_of_not (by decide)]
      exact Nat.le_succ_of_le (ih h)
  -- A character that is read into the name counts until the value takes the name's place.
  | case9 c cs _ _ hc ih =>
      rw [lead_cons_of_not (endsLead_of_isWordChar (isWordChar_of_isNameChar hc))]
      exact ih h
  | case11 read c cs hc ih =>
      have hread := ih h
      rw [Within.read, List.length_append, List.length_singleton] at hread
      rw [lead_cons_of_not (endsLead_of_isWordChar (isWordChar_of_isNameChar hc)), Within.read]
      omega
  | case14 read c cs hc ih =>
      have hread := ih h
      rw [Within.read, List.length_append, List.length_singleton] at hread
      rw [lead_cons_of_not (endsLead_of_isWordChar hc), Within.read]
      omega
  | case12 read cs =>
      rename_i ih
      obtain ⟨text, htext, rfl⟩ := Option.map_eq_some_iff.1 h
      refine lead_append_le (hname read) ?_
      rw [lead_cons_of_not (by decide)]
      exact Nat.le_succ_of_le (ih htext)
  | case13 read c cs =>
      rename_i ih
      obtain ⟨text, htext, rfl⟩ := Option.map_eq_some_iff.1 h
      exact lead_append_le (hname read) (lead_cons_le (ih htext) c)
  | case15 read c cs _ hend ih =>
      obtain ⟨text, htext, rfl⟩ := Option.map_eq_some_iff.1 h
      refine lead_append_le (hname read) ?_
      rw [hend.1, lead_cons_of_not (by decide)]
      exact Nat.le_succ_of_le (ih htext)

end Ninja

namespace Shell

open Ninja (expand lead)

theorem endsLead_of_isDropped {c : Char} (hc : isDropped false c = true) :
    Ninja.endsLead c = false := by
  simp only [isDropped, Bool.false_and, Bool.or_false, List.mem_cons, List.not_mem_nil, or_false,
    decide_eq_true_eq] at hc
  obtain rfl | rfl | rfl | rfl := hc <;> decide

/-- What is kept of a word has no longer lead than the text. -/
theorem Kept.lead_le {more cs : List Char} (h : Kept false more cs) : lead more ≤ lead cs := by
  induction h with
  | stop cs => exact Nat.zero_le _
  | keep c _ ih => exact Ninja.lead_cons_le ih c
  | @drop c _ _ hc _ ih =>
      rw [Ninja.lead_cons_of_not (endsLead_of_isDropped hc)]
      exact Nat.le_succ_of_le ih

/-- What is read from a reserved character on is nothing, or has no longer lead than what follows
that character. -/
theorem exists_kept_of_reserved {value : String → String}
    (hvalue : ∀ name, lead (value name).toList ≤ name.length) {w cs tail text : List Char}
    {c : Char} (hc : isReserved c = true)
    (htext : expand value .text (c :: cs ++ ' ' :: tail) = some text) {s : String}
    {ts : List Token} (hread : read .outside (some w) text = some (.word s :: ts)) :
    ∃ more, s.toList = w ++ more
      ∧ (more ≠ [] → Ninja.endsLead c = false ∧ lead more ≤ lead cs) := by
  rw [List.cons_append, expand] at htext
  split at htext
  · next hdollar =>
      obtain ⟨more, hs, hmore⟩ := endsIn_of_read hread
      have hlead := Ninja.lead_expand_le hvalue htext
      rw [Ninja.lead_append_space] at hlead
      have hends : Ninja.endsLead c = false := by
        rw [hdollar]
        decide
      exact ⟨more, hs, fun _ => ⟨hends, Nat.le_trans hmore.lead_le hlead⟩⟩
  · obtain ⟨rest, hrest, rfl⟩ := Option.map_eq_some_iff.1 htext
    obtain hs | ⟨hdropped, more, hs, hmore⟩ := endsIn_of_reserved hc hread
    · exact ⟨[], by simpa using hs, fun h => absurd rfl h⟩
    · have hlead := Ninja.lead_expand_le hvalue hrest
      rw [Ninja.lead_append_space] at hlead
      exact ⟨more, hs, fun _ => ⟨endsLead_of_isDropped hdropped,
        Nat.le_trans hmore.lead_le hlead⟩⟩

/-- A path in a command that both the executor and the shell read as itself is a bare word. -/
theorem isBareWord_of_expand {value : String → String}
    (hvalue : ∀ name, lead (value name).toList ≤ name.length) {word : String}
    (hword : Path.isAbsolute word = true) {tail text : List Char}
    (htext : expand value .text (word.toList ++ ' ' :: tail) = some text) {ts : List Token}
    (hread : read .outside none text = some (.word word :: ts)) : IsBareWord word := by
  obtain ⟨cs, hcs⟩ := Path.exists_cons_of_isAbsolute hword
  have hhead : ∀ c ∈ word.toList.head?, c ≠ '#' ∧ c ≠ '~' := by
    rw [hcs]
    simp
  refine ⟨?_, ?_, hhead⟩
  · rintro rfl
    cases hword
  · by_contra hreserved
    obtain ⟨before, c, after, hs, hbefore, hc⟩ := exists_first_reserved hreserved
    have hne : before ≠ [] := by
      rintro rfl
      obtain ⟨rfl, -⟩ := List.cons.inj (hcs.symm.trans hs)
      cases hc
    have hbegin : ∀ d ∈ before.head?, d ≠ '#' ∧ d ≠ '~' := by
      rwa [hs, List.head?_append_of_ne_nil _ hne] at hhead
    have hdollar : '$' ∉ before := fun h => by
      cases hbefore '$' h
    rw [hs, List.append_assoc, Ninja.expand_append hdollar] at htext
    obtain ⟨rest, hrest, rfl⟩ := Option.map_eq_some_iff.1 htext
    rw [read_unreserved_append hbefore fun _ => hbegin, foldl_extend_of_ne_nil hne,
      Option.getD_none, List.nil_append] at hread
    -- The part of the path from this character on is what is kept, which has a shorter lead.
    obtain ⟨more, hmore, hshort⟩ := exists_kept_of_reserved hvalue hc hrest hread
    obtain rfl : c :: after = more := List.append_cancel_left (hs.symm.trans hmore)
    obtain ⟨hlead, hle⟩ := hshort (List.cons_ne_nil _ _)
    rw [Ninja.lead_cons_of_not hlead] at hle
    exact absurd hle (Nat.not_succ_le_self _)

/-! ## Words of commands -/

/-- The tokens of a command with its variables replaced by their values. -/
def tokensOf? (value : String → String) (cs : List Char) : Option (List Token) :=
  (expand value .text cs).bind (read .outside none)

/-- Blanks before a word are left out. -/
theorem read_space (cs : List Char) :
    read .outside none (' ' :: cs) = read .outside none cs := by
  have hclose : close none = id := rfl
  rw [read, if_pos (.inl rfl), hclose, Option.map_id_fun, id]

theorem read_and (cs : List Char) : read .outside none ("&& ".toList ++ cs)
    = (read .outside none cs).map (.mark "&&" :: ·) := by
  have hjoint : read .outside none ("&& ".toList ++ cs) = read .joint none ('&' :: ' ' :: cs) :=
    rfl
  rw [hjoint, read, if_pos rfl, read_space]
  rfl

theorem read_redirection (cs : List Char) : read .outside none ("> ".toList ++ cs)
    = (read .outside none cs).map (.mark ">" :: ·) := by
  have hmark : read .outside none ("> ".toList ++ cs)
      = (read .outside none (' ' :: cs)).map (.mark ">" :: ·) := by
    change read .outside none ('>' :: ' ' :: cs) = _
    rw [read]
    simp [isRedirection, close]
  rw [hmark, read_space]

variable {value : String → String} {tail : List Char}

/-- What is read before any text and holds no variable is read at the start of a command. -/
theorem tokensOf?_append {before : List Char} {token : Token} (hdollar : '$' ∉ before)
    (hread : ∀ cs, read .outside none (before ++ cs) = (read .outside none cs).map (token :: ·)) :
    tokensOf? value (before ++ tail) = (tokensOf? value tail).map (token :: ·) := by
  rw [tokensOf?, Ninja.expand_append hdollar, Option.bind_map, tokensOf?, Option.map_bind]
  exact congrArg _ (funext hread)

theorem tokensOf?_bareWord {word : String} (h : IsBareWord word) :
    tokensOf? value (word.toList ++ ' ' :: tail)
      = (tokensOf? value tail).map (.word word :: ·) := by
  have hdollar : '$' ∉ word.toList ++ [' '] := fun hmem => by
    rcases List.mem_append.1 hmem with hmem | hmem
    · cases h.unreserved '$' hmem
    · exact absurd hmem (by decide)
  rw [← List.singleton_append, ← List.append_assoc]
  refine tokensOf?_append hdollar fun cs => ?_
  rw [List.append_assoc, List.singleton_append, h.readsAs.read_blank]

theorem map_cons_eq_some_iff {o : Option (List Token)} {token : Token} {ts : List Token} :
    o.map (token :: ·) = some (token :: ts) ↔ o = some ts := by
  simp

/-- A path at the start of a command is read as itself exactly if it is a bare word. -/
theorem tokensOf?_word_iff (hvalue : ∀ name, lead (value name).toList ≤ name.length)
    {word : String} (hword : Path.isAbsolute word = true) {ts : List Token} :
    tokensOf? value (word.toList ++ ' ' :: tail) = some (.word word :: ts)
      ↔ IsBareWord word ∧ tokensOf? value tail = some ts := by
  constructor
  · intro h
    obtain ⟨text, htext, hread⟩ := Option.bind_eq_some_iff.1 h
    have hbare := isBareWord_of_expand hvalue hword htext hread
    rw [tokensOf?_bareWord hbare, map_cons_eq_some_iff] at h
    exact ⟨hbare, h⟩
  · rintro ⟨hbare, h⟩
    rw [tokensOf?_bareWord hbare, map_cons_eq_some_iff, h]

end Shell

/-! ## Regeneration -/

namespace Ninja

/-- An absolute path begins with a slash, in quotes or without. -/
theorem lead_shellPath_le {path : String} (h : Path.isAbsolute path = true) :
    lead (shellPath path).toList ≤ 1 := by
  obtain ⟨cs, hcs⟩ := Path.exists_cons_of_isAbsolute h
  rw [shellPath]
  split
  · rw [hcs]
    exact Nat.zero_le 1
  · rw [String.toList_ofList, hcs]
    exact Nat.le_refl 1

/-- An edge that makes one file of another and has no variables of its own. -/
structure Makes (e : Edge) (input output : String) : Prop where
  inputs : e.inputs = [input]
  outputs : e.outputs = [output]
  vars : e.vars = .empty

namespace Makes

variable {e : Edge} {input output : String}

theorem edgeValue_in (h : Makes e input output) : edgeValue e "in" = shellPath input := by
  rw [edgeValue, if_pos rfl, h.inputs, List.map_singleton, Text.join_singleton]

theorem edgeValue_out (h : Makes e input output) : edgeValue e "out" = shellPath output := by
  rw [edgeValue, if_neg (by decide), if_neg (by decide), if_pos rfl, h.outputs,
    List.map_singleton, Text.join_singleton]

theorem lead_edgeValue_le (h : Makes e input output) (hinput : Path.isAbsolute input = true)
    (houtput : Path.isAbsolute output = true) (name : String) :
    lead (edgeValue e name).toList ≤ name.length := by
  rw [edgeValue, h.inputs, h.outputs, h.vars]
  simp only [List.map_singleton, Text.join_singleton]
  split
  · next hname =>
      rw [hname]
      exact Nat.le_trans (lead_shellPath_le hinput) (by decide)
  · split
    · next hname =>
        rw [hname]
        exact Nat.le_trans (lead_shellPath_le hinput) (by decide)
    · split
      · next hname =>
          rw [hname]
          exact Nat.le_trans (lead_shellPath_le houtput) (by decide)
      · exact Nat.zero_le _

end Makes

end Ninja

namespace Regeneration

variable {dir own : String}

/-- The built-in rule for an input directory and a path of the program. -/
def ruleFor (dir own : String) : Rule where
  name := "regen"
  commands := [["cd", dir], [own, "genin", "$in", ">", "$out"]]
  description := some "Regenerate build.ninja"
  generator := true
  restat := true

theorem ruleAt_eq_ruleFor {template : RuleTemplate} {values : KeywordValues}
    (htemplate : Target.Kind.regen.builtin? = some template) : template.ruleAt values
      = ruleFor (Keyword.inputDir.textAt values) (Keyword.ownCommand.textAt values) := by
  obtain rfl := Option.some.inj htemplate
  rw [RuleTemplate.ruleAt_eq]
  simp [ruleFor]

theorem toList_commandLine (dir own : String) :
    (Ninja.commandLine (ruleFor dir own).commands).toList
      = "cd".toList ++ ' ' :: (dir.toList ++ ' ' :: ("&& ".toList
        ++ (own.toList ++ ' ' :: ("genin".toList ++ ' ' :: "$in > $out".toList)))) := by
  simp [ruleFor, Ninja.commandLine, Text.join]

theorem ruleCommand?_ruleFor (hdir : '\n' ∉ dir.toList) (hown : '\n' ∉ own.toList) :
    Ninja.ruleCommand? (ruleFor dir own) = some (Ninja.commandLine (ruleFor dir own).commands) := by
  refine Ninja.ruleCommand?_eq (by decide +kernel : Ninja.IsName "regen") fun b hb => ?_
  obtain rfl | ⟨d, hd, rfl⟩ | rfl | rfl := Ninja.mem_ruleBindings hb
  · constructor
    · rw [toList_commandLine]
      simp [hdir, hown]
    · rw [toList_commandLine]
      simp
  · obtain rfl := Option.some.inj hd
    constructor <;> decide
  · constructor <;> decide
  · constructor <;> decide

/-- The paths of an edge are read back from the end of the command. -/
theorem tokensOf?_paths {value : String → String} {input output : String}
    (hinput : Shell.ReadsAs (value "in") input) (houtput : Shell.ReadsAs (value "out") output) :
    Shell.tokensOf? value "$in > $out".toList
      = some [.word input, .mark ">", .word output] := by
  have hexpand : Ninja.expand value .text "$in > $out".toList = some ((value "in").toList
      ++ ' ' :: ("> ".toList ++ (value "out").toList)) := by
    simp [Ninja.expand, Ninja.isNameChar, Ninja.isEscapable]
  rw [Shell.tokensOf?, hexpand, Option.bind_some, hinput.read_blank, Shell.read_redirection,
    houtput.read_end]
  rfl

/-- The command that makes the build file again changes to the working directory and runs the
program there exactly if the paths of both need no quotes. -/
theorem tokens_iff {cwd file command : String} {tools : Toolset} {template : RuleTemplate}
    {e : Edge} {input output : String} (hcwd : Path.isAbsolute cwd = true)
    (hcwdLine : '\n' ∉ cwd.toList) (hcommand : Path.isAbsolute command = true)
    (hcommandLine : '\n' ∉ command.toList)
    (htemplate : Target.Kind.regen.builtin? = some template) (he : Ninja.Makes e input output)
    (hinput : Path.isAbsolute input = true) (houtput : Path.isAbsolute output = true) :
    let values := Session.invocationKeywords cwd file command tools
    (Ninja.edgeCommand? (template.ruleAt values) e).bind Shell.tokens?
        = some [.word "cd", .word cwd, .mark "&&", .word command, .word "genin", .word input,
          .mark ">", .word output]
      ↔ Shell.IsBareWord cwd ∧ Shell.IsBareWord command := by
  intro values
  have hrule : template.ruleAt values = ruleFor cwd command := ruleAt_eq_ruleFor htemplate
  have htokens : (Ninja.edgeCommand? (ruleFor cwd command) e).bind Shell.tokens?
      = Shell.tokensOf? (Ninja.edgeValue e)
        (Ninja.commandLine (ruleFor cwd command).commands).toList := by
    have hread (text : List Char) : Shell.tokens? (String.ofList text)
        = Shell.read .outside none text := by
      rw [Shell.tokens?, String.toList_ofList]
    rw [Ninja.edgeCommand?, ruleCommand?_ruleFor hcwdLine hcommandLine, Option.bind_eq_bind,
      Option.bind_some, Option.bind_eq_bind, Option.bind_assoc, Shell.tokensOf?]
    exact congrArg _ (funext hread)
  have hvalue := he.lead_edgeValue_le hinput houtput
  have hpaths : Shell.tokensOf? (Ninja.edgeValue e) "$in > $out".toList
      = some [.word input, .mark ">", .word output] := by
    refine tokensOf?_paths ?_ ?_
    · rw [he.edgeValue_in]
      exact Shell.readsAs_shellPath (by rintro rfl; cases hinput)
    · rw [he.edgeValue_out]
      exact Shell.readsAs_shellPath (by rintro rfl; cases houtput)
  have hcd : Shell.IsBareWord "cd" := by decide
  have hgenin : Shell.IsBareWord "genin" := by decide
  rw [hrule, htokens, toList_commandLine, Shell.tokensOf?_bareWord hcd,
    Shell.map_cons_eq_some_iff, Shell.tokensOf?_word_iff hvalue hcwd,
    Shell.tokensOf?_append (by decide) Shell.read_and, Shell.map_cons_eq_some_iff,
    Shell.tokensOf?_word_iff hvalue hcommand, Shell.tokensOf?_bareWord hgenin,
    Shell.map_cons_eq_some_iff, hpaths]
  simp

/-- From a directory with a space in its name the build file is not made again. -/
theorem tokens_iff_of_space :
    let s := Session.ofInvocation "/my site" "HAGA.lua" "/usr/bin/haga" {} {}
    let e := (({} : Regeneration).edge.run s).1
    ∃ template, Target.Kind.regen.builtin? = some template
      ∧ Ninja.Makes e "/my site/HAGA.lua" "/my site/out/build.ninja"
      ∧ (Ninja.edgeCommand? (template.ruleAt s.keywords) e).bind Shell.tokens?
        ≠ some [.word "cd", .word "/my site", .mark "&&", .word "/usr/bin/haga", .word "genin",
          .word "/my site/HAGA.lua", .mark ">", .word "/my site/out/build.ninja"] := by
  intro s e
  have he : Ninja.Makes e "/my site/HAGA.lua" "/my site/out/build.ninja" :=
    ⟨by decide +kernel, by decide +kernel, by decide +kernel⟩
  refine ⟨_, rfl, he, fun htokens => ?_⟩
  have hbare := (tokens_iff (by decide) (by decide) (by decide) (by decide) rfl he (by decide)
    (by decide)).1 htokens
  exact absurd hbare.1 (by decide)

end Regeneration

end BuildGraph
