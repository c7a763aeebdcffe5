import BuildGraph.Composition
import Mathlib.Data.List.Forall2

/-!
# Reading command lines

The shell's side of a command line: a text is read as words and marks.  Blanks separate words.
Between single quotes every character is itself; between double quotes a backslash goes if it
stands before a character that is special there, and everywhere else it makes the next character
ordinary.  What the shell would replace or leave out (parameters, commands, patterns, home
directories, comments) is refused, and so are the marks that are not of use here, so a text that is
read starts no expansion.

An argument is read back from its quotes, whatever it holds, and whatever follows them
(`readsAs_quote`), so a list of quoted arguments is read as the list, also if it is empty or an
argument is (`words?_quoteAll`).
-/

namespace BuildGraph.Shell

/-! ## Reading -/

/-- A part of a command line. -/
inductive Token where
  | word (s : String)
  /-- What stands between commands or before the file that takes the output. -/
  | mark (s : String)
  deriving DecidableEq, Repr

/-- Where a character stands. -/
inductive Place where
  /-- Outside of quotes. -/
  | outside
  | single
  | double
  /-- Behind a backslash outside of quotes. -/
  | escaped
  /-- Behind a backslash between double quotes. -/
  | guarded
  /-- Behind the first half of `&&`. -/
  | joint
  deriving DecidableEq, Repr

/-- Characters that a backslash makes ordinary between double quotes. -/
def isGuarded (c : Char) : Bool := c ∈ ['\x22', '\\', '$', '\x60']

/-- Characters that mean something without quotes; some of them only at the start of a word. -/
def isActive (c : Char) : Bool :=
  c ∈ [' ', '\t', '\n', '|', '&', ';', '<', '>', '(', ')', '$', '\x60', '\\', '\x22', '\x27', '*',
    '?', '[', '#', '~', '=', '%']

/-- Characters that are refused without quotes, after the start of a word and at it. -/
def isRefused (w : Option (List Char)) (c : Char) : Bool :=
  c ∈ ['\n', '|', ';', '<', '(', ')', '$', '\x60', '*', '?', '['] || w.isNone && c ∈ ['#', '~']

/-- The word so far with one more character. -/
def extend (w : Option (List Char)) (c : Char) : Option (List Char) := some (w.getD [] ++ [c])

/-- Tokens behind a word, if one has begun. -/
def close (w : Option (List Char)) (ts : List Token) : List Token :=
  match w with
  | none => ts
  | some w => .word (String.ofList w) :: ts

/-- Whether `>` sends the output of the command to a file: it must stand alone, and no number of
another stream may stand before it. -/
def isRedirection (w : Option (List Char)) (cs : List Char) : Bool :=
  !(cs.head?.any (· ∈ ['>', '&', '|'])) && !(w.any (·.all Char.isDigit))

/-- The tokens of a text behind a word that may have begun. -/
def read (place : Place) (w : Option (List Char)) : List Char → Option (List Token)
  | [] => if place = .outside then some (close w []) else none
  | c :: cs =>
    match place with
    | .single => if c = '\x27' then read .outside w cs else read .single (extend w c) cs
    | .double =>
      if c = '\x22' then read .outside w cs
      else if c = '\\' then read .guarded w cs
      else if c = '$' ∨ c = '\x60' then none
      else read .double (extend w c) cs
    | .escaped => if c = '\n' then read .outside w cs else read .outside (extend w c) cs
    | .guarded =>
      if c = '\n' then read .double w cs
      else if isGuarded c then read .double (extend w c) cs
      else read .double (extend (extend w '\\') c) cs
    | .joint =>
      if c = '&' then (read .outside none cs).map fun ts => close w (.mark "&&" :: ts) else none
    | .outside =>
      if c = ' ' ∨ c = '\t' then (read .outside none cs).map (close w)
      else if c = '\x27' then read .single (some (w.getD [])) cs
      else if c = '\x22' then read .double (some (w.getD [])) cs
      else if c = '\\' then read .escaped w cs
      else if c = '&' then read .joint w cs
      else if c = '>' then
        if isRedirection w cs then
          (read .outside none cs).map fun ts => close w (.mark ">" :: ts)
        else none
      else if isRefused w c then none
      else read .outside (extend w c) cs

/-- The tokens of a command line. -/
def tokens? (line : String) : Option (List Token) := read .outside none line.toList

/-- The text of a word. -/
def Token.word? : Token → Option String
  | .word s => some s
  | .mark _ => none

/-- The words of one command, if the line holds nothing else. -/
def words? (line : String) : Option (List String) := (tokens? line).bind (·.mapM Token.word?)

example : tokens? "cd \"a b\" && h 'x'y > z" = some [.word "cd", .word "a b", .mark "&&", .word "h",
    .word "xy", .mark ">", .word "z"] := by decide +kernel

/-! ## Words without quotes -/

/-- A text that is read as a word, whatever follows. -/
def ReadsAs (text word : String) : Prop :=
  ∀ rest, read .outside none (text.toList ++ rest) = read .outside (some word.toList) rest

/-- Characters that never stand for themselves outside of quotes. -/
def isReserved (c : Char) : Bool :=
  c ∈ [' ', '\t', '\n', '|', '&', ';', '<', '>', '(', ')', '$', '\x60', '\\', '\x22', '\x27', '*',
    '?', '[']

/-- A text that is read as itself without quotes, as an argument. -/
structure IsBareWord (s : String) : Prop where
  ne_empty : s ≠ ""
  unreserved : ∀ c ∈ s.toList, isReserved c = false
  head : ∀ c ∈ s.toList.head?, c ≠ '#' ∧ c ≠ '~'

instance (s : String) : Decidable (IsBareWord s) :=
  decidable_of_iff (s ≠ "" ∧ s.toList.all (!isReserved ·) = true
      ∧ s.toList.head?.all (fun c => c != '#' && c != '~') = true) (by
    constructor
    · rintro ⟨hne, hs, hhead⟩
      exact ⟨hne, by simpa using hs, by simpa [Option.all_eq_true] using hhead⟩
    · rintro ⟨hne, hs, hhead⟩
      exact ⟨hne, by simpa using hs, by simpa [Option.all_eq_true] using hhead⟩)

theorem read_unreserved {w : Option (List Char)} {c : Char} (hc : isReserved c = false)
    (hhead : w = none → c ≠ '#' ∧ c ≠ '~') (cs : List Char) :
    read .outside w (c :: cs) = read .outside (extend w c) cs := by
  simp only [isReserved, List.mem_cons, List.not_mem_nil, or_false, decide_eq_false_iff_not,
    not_or] at hc
  have hrefused : isRefused w c = false := by
    cases w with
    | none => simp [isRefused, hc, hhead rfl]
    | some w => simp [isRefused, hc]
  rw [read]
  simp [hc, hrefused]

/-- Unreserved characters are read as themselves, if the first of them may begin a word. -/
theorem read_unreserved_append {w : Option (List Char)} {cs : List Char}
    (hcs : ∀ c ∈ cs, isReserved c = false)
    (hhead : w = none → ∀ c ∈ cs.head?, c ≠ '#' ∧ c ≠ '~') (rest : List Char) :
    read .outside w (cs ++ rest) = read .outside (cs.foldl extend w) rest := by
  induction cs generalizing w with
  | nil => rfl
  | cons c cs ih =>
      obtain ⟨hc, hcs⟩ := List.forall_mem_cons.1 hcs
      rw [List.cons_append, read_unreserved hc fun hw => hhead hw c rfl, List.foldl_cons]
      exact ih hcs (by simp [extend])

theorem getD_foldl_extend (w : Option (List Char)) (cs : List Char) :
    (cs.foldl extend w).getD [] = w.getD [] ++ cs := by
  induction cs generalizing w with
  | nil => simp
  | cons c cs ih => simp [ih, extend]

theorem foldl_extend_of_ne_nil {w : Option (List Char)} {cs : List Char} (h : cs ≠ []) :
    cs.foldl extend w = some (w.getD [] ++ cs) := by
  rw [← List.dropLast_append_getLast h, List.foldl_append, List.foldl_cons, List.foldl_nil,
    extend, getD_foldl_extend, List.append_assoc]

theorem IsBareWord.readsAs {s : String} (h : IsBareWord s) : ReadsAs s s := by
  intro rest
  have hne : s.toList ≠ [] := mt String.toList_eq_nil_iff.1 h.ne_empty
  rw [read_unreserved_append h.unreserved (fun _ => h.head), foldl_extend_of_ne_nil hne,
    Option.getD_none, List.nil_append]

/-- A word that needs no quotes wherever it stands in a command. -/
def IsPlainWord (s : String) : Prop := s ≠ "" ∧ ∀ c ∈ s.toList, isActive c = false

instance (s : String) : Decidable (IsPlainWord s) :=
  decidable_of_iff (s ≠ "" ∧ s.toList.all (!isActive ·) = true) (by simp [IsPlainWord])

theorem IsPlainWord.isBareWord {s : String} (h : IsPlainWord s) : IsBareWord s := by
  obtain ⟨hne, hs⟩ := h
  simp only [isActive, List.mem_cons, List.not_mem_nil, or_false, decide_eq_false_iff_not,
    not_or] at hs
  refine ⟨hne, fun c hc => ?_, fun c hc => ?_⟩
  · simp [isReserved, hs c hc]
  · simp [hs c (List.mem_of_mem_head? hc)]

/-! ## Words in quotes -/

/-- The inside of double quotes is read back up to the quote that closes them. -/
theorem read_escape (w cs rest : List Char) :
    read .double (some w) (ShellWord.escape cs ++ '\x22' :: rest)
      = read .outside (some (w ++ cs)) rest := by
  induction cs generalizing w with
  | nil => rw [ShellWord.escape, List.nil_append, read, if_pos rfl, List.append_nil]
  | cons c cs ih =>
      by_cases hc : ShellWord.isSpecial c = true
      · have hguarded : isGuarded c = true := by
          simpa [ShellWord.isSpecial, isGuarded] using hc
        have hnewline : c ≠ '\n' := by
          rintro rfl
          cases hc
        have hback : ('\\' : Char) ≠ '\x22' := by decide
        rw [ShellWord.escape, if_pos hc, List.cons_append, List.cons_append, read]
        simp only [hback, if_false, if_true]
        rw [read]
        simp [hnewline, hguarded, extend, ih]
      · have hplain : c ≠ '\x22' ∧ c ≠ '\\' ∧ c ≠ '$' ∧ c ≠ '\x60' := by
          simpa [ShellWord.isSpecial] using hc
        rw [ShellWord.escape, if_neg hc, List.cons_append, read]
        simp [hplain, extend, ih]

/-- An argument is read back from its quotes. -/
theorem readsAs_quote (arg : String) : ReadsAs (ShellWord.quote arg) arg := by
  intro rest
  have hquote : ShellWord.quote arg = String.ofList ('\x22' :: ShellWord.escape arg.toList
      ++ ['\x22']) := rfl
  rw [hquote, String.toList_ofList, List.cons_append, List.cons_append, List.append_assoc,
    List.singleton_append, read]
  simp [read_escape]

/-! ## Lists of words -/

/-- A word and the blank behind it. -/
theorem ReadsAs.read_blank {text word : String} (h : ReadsAs text word) (rest : List Char) :
    read .outside none (text.toList ++ ' ' :: rest)
      = (read .outside none rest).map (.word word :: ·) := by
  have hclose : close (some word.toList) = (.word word :: ·) := by
    funext ts
    rw [close, String.ofList_toList]
  rw [h, read]
  simp [hclose]

/-- A word at the end of a line. -/
theorem ReadsAs.read_end {text word : String} (h : ReadsAs text word) :
    read .outside none text.toList = some [.word word] := by
  have hend := h []
  rw [List.append_nil, read, if_pos rfl, close, String.ofList_toList] at hend
  exact hend

/-- Words with blanks between them are read one after the other. -/
theorem read_join {texts words : List String} (h : List.Forall₂ ReadsAs texts words) :
    read .outside none (Text.join " " texts).toList = some (words.map .word) := by
  induction h with
  | nil => rfl
  | @cons text word texts words hword hrest ih =>
      cases hrest with
      | nil =>
          rw [Text.join_singleton, hword.read_end]
          rfl
      | cons _ _ =>
          have hblank : (" " : String).toList = [' '] := rfl
          rw [Text.join_cons_cons, String.toList_append, String.toList_append, hblank,
            List.append_assoc, List.singleton_append, hword.read_blank, ih]
          rfl

theorem mapM_word? (words : List String) :
    (words.map Token.word).mapM Token.word? = some words := by
  induction words with
  | nil => rfl
  | cons word words ih => simp [Token.word?, ih]

theorem read_quoteAll (args : List String) :
    read .outside none (ShellWord.quoteAll args).toList = some (args.map .word) := by
  refine read_join ?_
  induction args with
  | nil => exact .nil
  | cons arg args ih => exact .cons (readsAs_quote arg) ih

/-- Quoted arguments are read back as they are. -/
theorem words?_quoteAll (args : List String) : words? (ShellWord.quoteAll args) = some args := by
  rw [words?, tokens?, read_quoteAll]
  exact mapM_word? args

end BuildGraph.Shell
