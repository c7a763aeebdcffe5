import BuildGraph.Deploy.Config

/-!
# Written configs are read back

A config is written as JSON and read as JSON5.  The inside of its string is read back character by
character (`Json5.Piece.readString_escapeChar`), so a run over the escaped characters of a text
gives the text (`Json5.Piece.readString_escaped`), with two exceptions: the separators U+2028 and
U+2029 end lines of JSON5, and no string of it may hold the end of a line.  A writer of JSON does
not escape them.

So the text of a config gives back its destination exactly if the destination holds no such
separator, and otherwise it cannot be parsed (`Deploy.Config.parse_text`).
-/

namespace BuildGraph

open Text (hexValue? natOf)

/-! ## Characters of strings -/

/-- Whether a character separates lines or paragraphs. -/
def Json5.isSeparator (c : Char) : Bool := c == '\u2028' || c == '\u2029'

theorem Json.hexValue?_hexDigit : ∀ n < 16, hexValue? (Json.hexDigit n) = some n := by decide

namespace Json5.Piece

/-- The piece as which a written character is read: by its number if it is a control character
without a letter of its own. -/
def ofWritten (c : Char) : Piece :=
  if c.toNat < 32 ∧ c ∉ ['\x08', '\x0c', '\n', '\r', '\t'] then .unit c.toNat else .char c

/-- The four digits by which a control character is written. -/
theorem hex?_hexDigits {n : Nat} (h : n < 32) :
    hex? ['0', '0', Json.hexDigit (n / 16), Json.hexDigit (n % 16)] = some n := by
  have hhigh := Json.hexValue?_hexDigit (n / 16) (by omega)
  have hlow := Json.hexValue?_hexDigit (n % 16) (by omega)
  have hzero : hexValue? '0' = some 0 := by decide
  have hvalue : natOf 16 ['0', '0', Json.hexDigit (n / 16), Json.hexDigit (n % 16)] = n := by
    simp only [natOf, List.foldl_cons, List.foldl_nil, hhigh, hlow, hzero, Option.getD_some]
    omega
  rw [hex?, hvalue, if_pos]
  simp [Text.isHexDigit, hhigh, hlow, hzero]

/-! The three ways in which a character is written. -/

theorem readString_letter {c e : Char} (h : escape? c = some e) (hc : isLineEnd c = false)
    (rest : List Char) : readString '\x22' ('\\' :: c :: rest)
      = (readString '\x22' rest).map fun r => (.char e :: r.1, r.2) := by
  have hx : c ≠ 'x' ∧ c ≠ 'u' := by
    constructor <;> rintro rfl <;> cases h
  have hr : c ≠ '\r' := by
    rintro rfl
    cases hc
  rw [readString.eq_5 _ _ _ (fun _ h => absurd h hr) (fun _ _ _ h => absurd h hx.1)
    (fun _ _ _ _ _ h => absurd h hx.2), if_neg (by simp [hc]), h]
  cases readString '\x22' rest <;> rfl

theorem readString_digits {n : Nat} (h : n < 32) (rest : List Char) :
    readString '\x22' (['\\', 'u', '0', '0', Json.hexDigit (n / 16), Json.hexDigit (n % 16)]
      ++ rest) = (readString '\x22' rest).map fun r => (.unit n :: r.1, r.2) := by
  have hn := hex?_hexDigits h
  simp only [List.cons_append, List.nil_append]
  rw [readString.eq_def]
  simp only [hn]
  cases readString '\x22' rest <;> rfl

theorem readString_plain {c : Char} (hquote : c ≠ '\x22') (hback : c ≠ '\\')
    (rest : List Char) : readString '\x22' (c :: rest)
      = if isLineEnd c then none
        else (readString '\x22' rest).map fun r => (.char c :: r.1, r.2) := by
  rw [readString.eq_6 _ _ _ (fun _ h => absurd h hback) (fun _ _ _ h => absurd h hback)
    (fun _ _ _ _ _ h => absurd h hback) (fun _ _ h => absurd h hback), if_neg hquote]
  cases hend : isLineEnd c with
  | true => rw [if_pos (.inr rfl), if_pos rfl]
  | false =>
      rw [if_neg (by simp [hback]), if_neg Bool.false_ne_true]
      cases readString '\x22' rest <;> rfl

/-- One written character of a string is read back, unless it is a separator. -/
theorem readString_escapeChar (c : Char) (rest : List Char) :
    readString '\x22' (Json.escapeChar c ++ rest)
      = if isSeparator c then none
        else (readString '\x22' rest).map fun r => (ofWritten c :: r.1, r.2) := by
  by_cases hnamed : c ∈ ['\x22', '\\', '\x08', '\x0c', '\n', '\r', '\t']
  · -- Each has a letter of its own.
    simp only [List.mem_cons, List.not_mem_nil, or_false] at hnamed
    obtain rfl | rfl | rfl | rfl | rfl | rfl | rfl := hnamed <;>
      exact readString_letter (by decide) (by decide) rest
  · simp only [List.mem_cons, List.not_mem_nil, or_false, not_or] at hnamed
    obtain ⟨hquote, hback, hb, hf, hn, hr, ht⟩ := hnamed
    by_cases hcontrol : c.toNat < 32
    · have hsep : isSeparator c = false := by
        simp only [isSeparator, Bool.or_eq_false_iff, beq_eq_false_iff_ne]
        constructor <;> rintro rfl <;> exact absurd hcontrol (by decide)
      have hwritten : ofWritten c = .unit c.toNat := by
        simp [ofWritten, hcontrol, hb, hf, hn, hr, ht]
      have hescape : Json.escapeChar c = ['\\', 'u', '0', '0', Json.hexDigit (c.toNat / 16),
          Json.hexDigit (c.toNat % 16)] := by
        simp [Json.escapeChar, hquote, hback, hb, hf, hn, hr, ht, hcontrol]
      rw [hescape, readString_digits hcontrol, hsep, hwritten]
      rfl
    · have hwritten : ofWritten c = .char c := by simp [ofWritten, hcontrol]
      have hescape : Json.escapeChar c = [c] := by
        simp [Json.escapeChar, hquote, hback, hb, hf, hn, hr, ht, hcontrol]
      have hend : isLineEnd c = isSeparator c := by
        exact Bool.eq_iff_iff.2 (by simp [isLineEnd, isSeparator, hn, hr])
      rw [hescape, List.singleton_append, readString_plain hquote hback, hend, hwritten]

/-- A written text is read back if it holds no separator. -/
theorem readString_escaped (cs rest : List Char) :
    readString '\x22' (cs.flatMap Json.escapeChar ++ '\x22' :: rest)
      = if cs.any isSeparator then none else some (cs.map ofWritten, rest) := by
  induction cs with
  | nil =>
      rw [List.flatMap_nil, List.nil_append, readString.eq_6] <;> simp
  | cons c cs ih =>
      rw [List.flatMap_cons, List.append_assoc, readString_escapeChar, ih, List.any_cons]
      cases isSeparator c with
      | true => rfl
      | false =>
          rw [if_neg Bool.false_ne_true, Bool.false_or]
          split <;> rfl

/-! ## Texts of strings -/

/-- A number of a control character is no half of a pair. -/
theorem decode_unit {n : Nat} (h : n < 32) (ps : List Piece) :
    decode (.unit n :: ps) = (decode ps).map (Char.ofNat n :: ·) := by
  have hhigh : isHigh n = false := by simp [isHigh]; omega
  have hlow : isLow n = false := by simp [isLow]; omega
  rw [decode.eq_def]
  split <;> simp_all

theorem decode_ofWritten (cs : List Char) : decode (cs.map ofWritten) = some cs := by
  induction cs with
  | nil => rfl
  | cons c cs ih =>
      rw [List.map_cons, ofWritten]
      split
      · next h => rw [decode_unit h.1, ih, Option.map_some, Char.ofNat_toNat]
      · rw [decode, ih, Option.map_some]


end Json5.Piece

/-! ## Tokens -/

namespace Json5.Token

/-- A written text between quotes is one token, if it holds no separator. -/
theorem next?_quoted (s : String) (rest : List Char) :
    next? ('\x22' :: (s.toList.flatMap Json.escapeChar ++ '\x22' :: rest))
      = if s.toList.any isSeparator then none else some (.string s, rest) := by
  have hnext (cs : List Char) : next? ('\x22' :: cs) = string? '\x22' cs := rfl
  rw [hnext, string?, Piece.readString_escaped]
  cases s.toList.any isSeparator with
  | true => rfl
  | false =>
      simp [Piece.text?, Piece.decode_ofWritten]

theorem scan_blank {c : Char} {cs : List Char} (h : afterBlank? (c :: cs) = some cs)
    (fuel : Nat) : scan (fuel + 1) (c :: cs) = scan fuel cs := by
  rw [scan, h]
  exact List.cons_ne_nil c cs

theorem scan_token {c : Char} {cs : List Char} (h : afterBlank? (c :: cs) = none) (fuel : Nat) :
    scan (fuel + 1) (c :: cs)
      = (next? (c :: cs)).bind fun r => (scan fuel r.2).map (r.1 :: ·) := by
  rw [scan, h]
  · cases next? (c :: cs) <;> rfl
  · exact List.cons_ne_nil c cs

end Json5.Token

/-! ## Configs -/

namespace Deploy.Config

open Json5 (isSeparator)
open Json5.Token (scan_blank scan_token next?_quoted)

theorem toList_text (dst : String) :
    (text dst).toList = '\x7b' :: '\n' :: ' ' :: ' ' :: '\x22'
      :: (field.toList.flatMap Json.escapeChar ++ '\x22' :: ':' :: ' ' :: '\x22'
        :: (dst.toList.flatMap Json.escapeChar ++ '\x22' :: '\n' :: ['\x7d'])) := by
  simp [text, Json.print, Json.render, Json.renderMembers, Json.bracketed, Json.newline, Json.quote]

/-- The tokens of a written config. -/
theorem ofText?_text (dst : String) :
    Json5.Token.ofText? (text dst) = if dst.toList.any isSeparator then none
      else some [.mark '\x7b', .string field, .mark ':', .string dst, .mark '\x7d'] := by
  have hkey : field.toList.any isSeparator = false := by decide
  -- Ten tokens and blanks, so the bound suffices.
  obtain ⟨fuel, hfuel⟩ : ∃ fuel, (text dst).toList.length = fuel + 10 := by
    refine ⟨(text dst).toList.length - 10, ?_⟩
    have hlength : field.toList.flatMap Json.escapeChar = field.toList := by decide
    rw [toList_text, hlength]
    simp [field]
  have hbrace (cs : List Char) : Json5.Token.next? ('\x7b' :: cs) = some (.mark '\x7b', cs) := rfl
  have hcolon (cs : List Char) : Json5.Token.next? (':' :: cs) = some (.mark ':', cs) := rfl
  have hend (cs : List Char) : Json5.Token.next? ('\x7d' :: cs) = some (.mark '\x7d', cs) := rfl
  rw [Json5.Token.ofText?, hfuel, toList_text, scan_token rfl, hbrace, Option.bind_some,
    scan_blank rfl, scan_blank rfl, scan_blank rfl, scan_token rfl, next?_quoted, hkey,
    if_neg Bool.false_ne_true, Option.bind_some, scan_token rfl, hcolon, Option.bind_some,
    scan_blank rfl, scan_token rfl, next?_quoted]
  cases dst.toList.any isSeparator with
  | true => rfl
  | false =>
      rw [if_neg Bool.false_ne_true, if_neg Bool.false_ne_true, Option.bind_some, scan_blank rfl,
        scan_token rfl, hend, Option.bind_some, Json5.Token.scan]
      rfl

/-- Whether a destination is read back from the config that is written with it. -/
def ReadsBack (dst : String) : Prop := ∀ c ∈ dst.toList, c ≠ '\u2028' ∧ c ≠ '\u2029'

theorem readsBack_iff {dst : String} :
    ReadsBack dst ↔ dst.toList.any isSeparator = false := by
  simp [ReadsBack, isSeparator]

instance (dst : String) : Decidable (ReadsBack dst) := decidable_of_iff _ readsBack_iff.symm

/-- The text of a config gives back its destination, or it cannot be parsed. -/
theorem parse_text (path dst : String) :
    parse path (text dst) = if ReadsBack dst then .ok dst else .error (.parse path) := by
  rw [parse, Json5.parse?, ofText?_text]
  cases hsep : dst.toList.any isSeparator with
  | true => rw [if_neg (show ¬ReadsBack dst by simp [readsBack_iff, hsep])]; rfl
  | false => rw [if_pos (readsBack_iff.2 hsep)]; rfl

end Deploy.Config

end BuildGraph
