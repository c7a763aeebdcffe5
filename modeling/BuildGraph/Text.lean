/-!
# Texts

The few operations on texts that the rest of the library shares.  A text is cut at every
occurrence of a separator, so that joining the pieces gives the text back
(`glue_cut`), a suffix is dropped at most once, and digits are read in any base up to sixteen.
-/

namespace BuildGraph.Text

/-! ## Cutting -/

/-- The pieces between the occurrences of a separator; there is always at least one. -/
def cut (sep : Char) : List Char → List (List Char)
  | [] => [[]]
  | c :: cs =>
    if c = sep then [] :: cut sep cs
    else match cut sep cs with
      | [] => [[c]]
      | piece :: pieces => (c :: piece) :: pieces

theorem cut_ne_nil (sep : Char) (cs : List Char) : cut sep cs ≠ [] := by
  cases cs with
  | nil => simp [cut]
  | cons c cs =>
      simp only [cut]
      split
      · simp
      · split <;> simp

/-- The pieces with the separator put back between them. -/
def glue (sep : Char) : List (List Char) → List Char
  | [] => []
  | [piece] => piece
  | piece :: pieces => piece ++ sep :: glue sep pieces

/-- Cutting loses nothing. -/
theorem glue_cut (sep : Char) (cs : List Char) : glue sep (cut sep cs) = cs := by
  induction cs with
  | nil => rfl
  | cons c cs ih =>
      simp only [cut]
      split
      · next h =>
          subst h
          cases hc : cut c cs with
          | nil => exact absurd hc (cut_ne_nil c cs)
          | cons p ps => rw [hc] at ih; simp [glue, ih]
      · cases hc : cut sep cs with
        | nil => exact absurd hc (cut_ne_nil sep cs)
        | cons p ps =>
            rw [hc] at ih
            cases ps with
            | nil => simpa [glue] using ih
            | cons q qs => simpa [glue] using ih

/-- No piece holds the separator. -/
theorem not_mem_of_mem_cut {sep : Char} {cs piece : List Char} (h : piece ∈ cut sep cs) :
    sep ∉ piece := by
  induction cs generalizing piece with
  | nil => simp_all [cut]
  | cons c cs ih =>
      simp only [cut] at h
      split at h
      · rcases List.mem_cons.1 h with rfl | h
        · simp
        · exact ih h
      · next hc =>
          cases hp : cut sep cs with
          | nil => exact absurd hp (cut_ne_nil sep cs)
          | cons p ps =>
              rw [hp] at h ih
              rcases List.mem_cons.1 h with rfl | h
              · simp [ih (List.mem_cons_self ..), Ne.symm hc]
              · exact ih (List.mem_cons_of_mem _ h)

/-! ## Joining -/

/-- Texts one after the other with a separator between neighbours. -/
def join (sep : String) : List String → String
  | [] => ""
  | [s] => s
  | s :: rest => s ++ sep ++ join sep rest

@[simp] theorem join_nil (sep : String) : join sep [] = "" := rfl

@[simp] theorem join_singleton (sep s : String) : join sep [s] = s := rfl

theorem join_cons_cons (sep s t : String) (rest : List String) :
    join sep (s :: t :: rest) = s ++ sep ++ join sep (t :: rest) := rfl

/-- Texts one after the other. -/
def concat : List String → String
  | [] => ""
  | s :: rest => s ++ concat rest

@[simp] theorem concat_cons (s : String) (rest : List String) :
    concat (s :: rest) = s ++ concat rest := rfl

/-! ## Suffixes -/

/-- The text without one trailing `suffix`; a text that does not end in it is left as it is. -/
def withoutSuffix (s suffix : String) : String :=
  if suffix.toList <:+ s.toList then
    String.ofList (s.toList.take (s.toList.length - suffix.toList.length))
  else s

/-- Whether a text ends in a character. -/
def endsWith (s : String) (c : Char) : Bool := s.toList.getLast? == some c

/-! ## Digits -/

/-- The value of a hexadecimal digit. -/
def hexValue? (c : Char) : Option Nat :=
  if '0' ≤ c ∧ c ≤ '9' then some (c.toNat - 48)
  else if 'a' ≤ c ∧ c ≤ 'f' then some (c.toNat - 87)
  else if 'A' ≤ c ∧ c ≤ 'F' then some (c.toNat - 55)
  else none

/-- Whether a character is a hexadecimal digit. -/
def isHexDigit (c : Char) : Bool := (hexValue? c).isSome

/-- The number that digits stand for. -/
def natOf (base : Nat) (digits : List Char) : Nat :=
  digits.foldl (fun n c => n * base + (hexValue? c).getD 0) 0

example : natOf 16 ['7', 'f'] = 127 := by decide

/-! ## Order -/

/-- Whether one list of texts comes before another or equals it, text by text and each text by
code points. -/
def listLe : List String → List String → Bool
  | [], _ => true
  | _ :: _, [] => false
  | s :: ss, t :: ts => if s = t then listLe ss ts else decide (s < t)

/-! ## Bytes -/

/-- The equality of byte arrays is decided by the core library's instance, also in a file that
sees another: an instance that is declared later is found first. -/
instance decidableEqByteArray : DecidableEq ByteArray := ByteArray.instDecidableEq

end BuildGraph.Text
