import BuildGraph.Proofs.ShellReader
import Mathlib.Tactic.SplitIfs

/-!
# Words without quotes

A text that is put into a command line as it is may be read as anything: it may be cut at blanks,
lose its quotes and backslashes, or be refused.  What is read of it as the first word is what is
*kept* of it (`Kept`): some of its first characters in order, of which only quotes, backslashes,
ends of lines and, before the word, blanks are left out (`endsIn_of_read`).

Outside of quotes a reserved character is never kept at its place.  It ends the word, is refused, or
is left out (`Outside`).  Since nothing can make up for a character that is left out, a text is read
as itself exactly if it holds none of them (`words?_eq_self_iff`).
-/

namespace BuildGraph.Shell

/-! ## What is kept of a text -/

/-- Characters that may be left out of a word: those that quote, the end of a line behind a
backslash, and blanks as long as no word has begun. -/
def isDropped (early : Bool) (c : Char) : Bool :=
  c ∈ ['\n', '\x22', '\x27', '\\'] || early && c ∈ [' ', '\t']

/-- What is kept of a text up to the end of a word. -/
inductive Kept (early : Bool) : List Char → List Char → Prop where
  | stop (cs : List Char) : Kept early [] cs
  | keep (c : Char) {more cs : List Char} (h : Kept early more cs) :
      Kept early (c :: more) (c :: cs)
  | drop {c : Char} {more cs : List Char} (hc : isDropped early c = true)
      (h : Kept early more cs) : Kept early more (c :: cs)

theorem Kept.length_le {early : Bool} {more cs : List Char} (h : Kept early more cs) :
    more.length ≤ cs.length := by
  induction h with
  | stop cs => exact Nat.zero_le _
  | keep c _ ih => exact Nat.succ_le_succ ih
  | drop _ _ ih => exact Nat.le_succ_of_le ih

/-- Blanks are kept in a word that has begun. -/
theorem Kept.mono {early : Bool} {more cs : List Char} (h : Kept false more cs) :
    Kept early more cs := by
  induction h with
  | stop cs => exact .stop cs
  | keep c _ ih => exact .keep c ih
  | drop hc _ ih => exact .drop (by simp_all [isDropped]) ih

/-- A word is what was read before a text, if anything was, and what is kept of the text. -/
def EndsIn (w : Option (List Char)) (cs : List Char) (s : String) : Prop :=
  ∃ more, s.toList = w.getD [] ++ more ∧ Kept w.isNone more cs

namespace EndsIn

variable {w : Option (List Char)} {c : Char} {cs : List Char} {s : String}

theorem keep (h : EndsIn (extend w c) cs s) : EndsIn w (c :: cs) s := by
  obtain ⟨more, hs, hmore⟩ := h
  exact ⟨c :: more, by simpa [extend] using hs, .keep c hmore.mono⟩

theorem drop (hc : isDropped w.isNone c = true) (h : EndsIn w cs s) : EndsIn w (c :: cs) s := by
  obtain ⟨more, hs, hmore⟩ := h
  exact ⟨more, hs, .drop hc hmore⟩

/-- A quote begins a word, if none has begun. -/
theorem begin (h : EndsIn (some (w.getD [])) cs s) : EndsIn w cs s := by
  obtain ⟨more, hs, hmore⟩ := h
  exact ⟨more, hs, hmore.mono⟩

theorem of_eq (h : s.toList = w.getD []) : EndsIn w cs s := ⟨[], by simpa using h, .stop cs⟩

end EndsIn

/-! ## Reading outside of quotes -/

variable {w : Option (List Char)} {s : String} {ts rest : List Token}

/-- The first word is the one that has begun, if it ends here. -/
theorem toList_eq_of_close (h : close w ts = .word s :: rest)
    (hts : w = none → ∀ s', ts.head? ≠ some (.word s')) : s.toList = w.getD [] := by
  cases w with
  | none =>
      rw [close] at h
      exact absurd (by rw [h]; rfl) (hts rfl s)
  | some w =>
      rw [close, List.cons.injEq, Token.word.injEq] at h
      simp [← h.1]

theorem toList_eq_of_mark {read : Option (List Token)} {mark : String}
    (h : read.map (fun ts => close w (.mark mark :: ts)) = some (.word s :: rest)) :
    s.toList = w.getD [] := by
  obtain ⟨ts, -, hclose⟩ := Option.map_eq_some_iff.1 h
  exact toList_eq_of_close hclose fun _ s' => by simp

theorem toList_eq_of_joint {cs : List Char} (h : read .joint w cs = some (.word s :: ts)) :
    s.toList = w.getD [] := by
  cases cs with
  | nil => cases h
  | cons c cs =>
      rw [read] at h
      split at h
      · exact toList_eq_of_mark h
      · cases h

/-- How a word is read on from a character outside of quotes. -/
inductive Outside (w : Option (List Char)) (c : Char) (cs : List Char) (s : String)
    (ts : List Token) : Prop where
  /-- The character ends the word. -/
  | closed (hc : isReserved c = true) (hs : s.toList = w.getD [])
  /-- The character is left out. -/
  | dropped (place : Place) {w' : Option (List Char)} (hc : isReserved c = true)
      (hdropped : isDropped w.isNone c = true) (hplace : place ≠ .guarded)
      (hword : ∀ cs, EndsIn w' cs s → EndsIn w cs s)
      (h : read place w' cs = some (.word s :: ts))
  /-- The character is the next one of the word. -/
  | kept (hc : isReserved c = false) (h : read .outside (extend w c) cs = some (.word s :: ts))

theorem outside_of_read {c : Char} {cs : List Char}
    (h : read .outside w (c :: cs) = some (.word s :: ts)) : Outside w c cs s ts := by
  rw [read] at h
  split_ifs at h with hblank hsingle hdouble hback hjoint hout hmark hrefused
  · -- A blank ends the word, or is left out before it.
    have hc : isReserved c = true := by obtain rfl | rfl := hblank <;> rfl
    obtain ⟨ts', hread, hclose⟩ := Option.map_eq_some_iff.1 h
    cases w with
    | none =>
        rw [close] at hclose
        rw [hclose] at hread
        have hdropped : isDropped true c = true := by simp [isDropped, hblank]
        exact .dropped .outside hc hdropped (by decide) (fun _ => id) hread
    | some w => exact .closed hc (toList_eq_of_close hclose fun hw => by cases hw)
  · subst hsingle
    exact .dropped .single rfl rfl (by decide) (fun _ => EndsIn.begin) h
  · subst hdouble
    exact .dropped .double rfl rfl (by decide) (fun _ => EndsIn.begin) h
  · subst hback
    exact .dropped .escaped rfl rfl (by decide) (fun _ => id) h
  · subst hjoint
    exact .closed rfl (toList_eq_of_joint h)
  · subst hout
    exact .closed rfl (toList_eq_of_mark h)
  · refine .kept ?_ h
    cases hc : isReserved c with
    | false => rfl
    | true =>
        simp_all [isReserved, isRefused]

/-! ## Reading anywhere -/

/-- The backslash that was read between double quotes and may still become a character. -/
def pending (place : Place) : List Char := if place = .guarded then ['\\'] else []

theorem pending_of_ne {place : Place} (h : place ≠ .guarded) : pending place = [] := if_neg h

theorem endsIn_of_read {place : Place} {cs : List Char}
    (h : read place w cs = some (.word s :: ts)) : EndsIn w (pending place ++ cs) s := by
  induction cs generalizing place w with
  | nil =>
      rw [read] at h
      split_ifs at h
      exact .of_eq (toList_eq_of_close (Option.some.inj h) fun _ s' => by simp)
  | cons c cs ih =>
      cases place with
      | outside =>
          cases outside_of_read h with
          | closed _ hs => exact .of_eq hs
          | dropped _ _ hdropped hplace hword h =>
              have hrest := ih h
              rw [pending_of_ne hplace] at hrest
              exact (hword _ hrest).drop hdropped
          | kept _ h => exact (ih h).keep
      | single =>
          rw [read] at h
          split_ifs at h with hquote
          · exact (ih h).drop (by simp [isDropped, hquote])
          · exact (ih h).keep
      | double =>
          rw [read] at h
          split_ifs at h with hquote hback
          · exact (ih h).drop (by simp [isDropped, hquote])
          · rw [hback]
            exact ih h
          · exact (ih h).keep
      | escaped =>
          rw [read] at h
          split_ifs at h with hline
          · exact (ih h).drop (by simp [isDropped, hline])
          · exact (ih h).keep
      | guarded =>
          have hback : isDropped w.isNone '\\' = true := by simp [isDropped]
          rw [read] at h
          split_ifs at h with hline
          · exact ((ih h).drop (by simp [isDropped, hline])).drop hback
          · exact (ih h).keep.drop hback
          · exact (ih h).keep.keep
      | joint => exact .of_eq (toList_eq_of_joint h)

/-- A reserved character ends the word before it, or is left out of it. -/
theorem endsIn_of_reserved {c : Char} {cs : List Char} (hc : isReserved c = true)
    (h : read .outside w (c :: cs) = some (.word s :: ts)) :
    s.toList = w.getD [] ∨ isDropped w.isNone c = true ∧ EndsIn w cs s := by
  cases outside_of_read h with
  | closed _ hs => exact .inl hs
  | dropped _ _ hdropped hplace hword h =>
      have hrest := endsIn_of_read h
      rw [pending_of_ne hplace] at hrest
      exact .inr ⟨hdropped, hword _ hrest⟩
  | kept hfree _ =>
      rw [hc] at hfree
      cases hfree

/-! ## Texts that are read as themselves -/

/-- A text with a reserved character has a first one. -/
theorem exists_first_reserved {cs : List Char} (h : ¬∀ c ∈ cs, isReserved c = false) :
    ∃ before c after, cs = before ++ c :: after ∧ (∀ d ∈ before, isReserved d = false)
      ∧ isReserved c = true := by
  cases hfirst : cs.find? isReserved with
  | none => exact absurd (by simpa using List.find?_eq_none.1 hfirst) h
  | some c =>
      obtain ⟨hc, before, after, hcs, hbefore⟩ := List.find?_eq_some_iff_append.1 hfirst
      exact ⟨before, c, after, hcs, by simpa using hbefore, hc⟩

theorem eq_map_of_mapM_word? {tokens : List Token} {words : List String}
    (h : tokens.mapM Token.word? = some words) : tokens = words.map .word := by
  induction tokens generalizing words with
  | nil =>
      obtain rfl := Option.some.inj h
      rfl
  | cons token tokens ih =>
      rw [List.mapM_cons] at h
      obtain ⟨word, hword, h⟩ := Option.bind_eq_some_iff.1 h
      obtain ⟨rest, hrest, h⟩ := Option.bind_eq_some_iff.1 h
      obtain rfl := Option.some.inj h
      cases token with
      | word s =>
          obtain rfl := Option.some.inj hword
          rw [ih hrest, List.map_cons]
      | mark s => cases hword

theorem words?_eq_some_iff {line : String} {words : List String} :
    words? line = some words ↔ tokens? line = some (words.map .word) := by
  rw [words?, Option.bind_eq_some_iff]
  constructor
  · rintro ⟨tokens, htokens, hwords⟩
    rw [htokens, eq_map_of_mapM_word? hwords]
  · exact fun h => ⟨_, h, mapM_word? words⟩

/-- A text is read as itself exactly if it is a bare word. -/
theorem words?_eq_self_iff {s : String} : words? s = some [s] ↔ IsBareWord s := by
  constructor
  · intro h
    have hread : read .outside none s.toList = some [.word s] := words?_eq_some_iff.1 h
    have hhead : ∀ c ∈ s.toList.head?, c ≠ '#' ∧ c ≠ '~' := by
      intro c hc
      obtain ⟨cs, hcs⟩ := List.head?_eq_some_iff.1 hc
      rw [hcs] at hread
      constructor <;> rintro rfl <;> cases hread
    refine ⟨?_, ?_, hhead⟩
    · rintro rfl
      cases hread
    · by_contra hreserved
      obtain ⟨before, c, after, hs, hbefore, hc⟩ := exists_first_reserved hreserved
      have hbegin : ∀ d ∈ before.head?, d ≠ '#' ∧ d ≠ '~' := by
        intro d hd
        refine hhead d ?_
        rw [hs, List.head?_append, Option.mem_def.1 hd]
        rfl
      rw [hs, read_unreserved_append hbefore fun _ => hbegin] at hread
      -- What is left out of the word leaves it shorter than the text.
      have hlength : s.toList.length = before.length + (after.length + 1) := by
        rw [hs, List.length_append, List.length_cons]
      obtain hword | ⟨-, more, hword, hmore⟩ := endsIn_of_reserved hc hread
      · rw [hword, getD_foldl_extend, Option.getD_none, List.nil_append] at hlength
        omega
      · have hless := hmore.length_le
        rw [hword, getD_foldl_extend, Option.getD_none, List.nil_append, List.length_append]
          at hlength
        omega
  · intro h
    exact words?_eq_some_iff.2 h.readsAs.read_end

end BuildGraph.Shell
