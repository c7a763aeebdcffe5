import BuildGraph.Json5.Document

/-!
# The tokens of JSON5

The scanner works on a budget of tokens, blanks and comments.  Here a text is told to be a sequence
of tokens without one (`Token.IsText`): a blank or comment is passed over where there is one, and
else a token is taken.  Whatever is taken off the front of a text, a numeral, a string, a comment or
a word, is at least one character (`Token.length_of_afterBlank?`, `Token.length_of_next?`).  So the
length of the text is a sufficient budget, and the tokens of a text are those that it is a sequence
of (`Token.ofText?_eq_some_iff`).
-/

namespace BuildGraph.Json5

/-! ## Numerals -/

namespace Numeral

variable {cs rest : List Char} {isDigit : Char → Bool} {ds : List Char} {s : Option Char}
  {n : Numeral}

theorem length_of_digits? (h : digits? isDigit cs = some (ds, rest)) :
    rest.length < cs.length := by
  have hsplit := congrArg List.length (List.takeWhile_append_dropWhile (p := isDigit) (l := cs))
  rw [List.length_append] at hsplit
  rw [digits?] at h
  split at h
  · cases h
  · next hne =>
      cases h
      have hpos := List.length_pos_iff.2 hne
      omega

theorem length_sign (cs : List Char) : (sign cs).2.length ≤ cs.length := by
  rw [sign.eq_def]
  split
  · exact Nat.le_succ _
  · exact Nat.le_succ _
  · exact Nat.le_refl _

theorem length_exponent (cs : List Char) : (exponent cs).2.length ≤ cs.length := by
  rw [exponent.eq_def]
  split
  · exact Nat.le_refl _
  · next e rest =>
      split
      · split
        · exact Nat.le_refl _
        · next hdigits =>
            have hsign := length_sign rest
            have hlt := length_of_digits? hdigits
            rw [List.length_cons]
            dsimp only
            omega
      · exact Nat.le_refl _

theorem length_whole (cs : List Char) :
    (whole cs).1.length + (whole cs).2.length = cs.length := by
  rw [whole.eq_def]
  split
  · rw [List.length_singleton, List.length_cons, Nat.add_comm]
  · rw [← List.length_append, List.takeWhile_append_dropWhile]

theorem length_of_decimal? (h : decimal? s cs = some (n, rest)) : rest.length < cs.length := by
  have hwhole := length_whole cs
  rw [decimal?.eq_def] at h
  split at h
  · next left hw =>
    rw [hw] at hwhole
    split at h
    · cases h
    · next ds left' hdigits =>
        cases h
        have hlt := length_of_digits? hdigits
        have hexp := length_exponent left'
        simp only [List.length_nil, List.length_cons] at hwhole
        omega
  · cases h
  · next ws left hne hw =>
    rw [hw] at hwhole
    cases h
    have hdrop := (List.dropWhile_suffix (l := left) Char.isDigit).length_le
    have hexp := length_exponent (left.dropWhile Char.isDigit)
    simp only [List.length_cons] at hwhole
    omega
  · next ws left _ hne _ hw =>
    rw [hw] at hwhole
    cases h
    have hpos : 0 < ws.length := List.length_pos_iff.2 hne
    have hexp := length_exponent left
    dsimp only at hwhole
    omega

theorem length_of_unsigned? (h : unsigned? s cs = some (n, rest)) :
    rest.length < cs.length := by
  rw [unsigned?.eq_def] at h
  split at h
  · cases h
    simp only [List.length_cons]
    omega
  · cases h
    simp only [List.length_cons]
    omega
  · next x left =>
      split at h
      · split at h
        · next hdigits =>
            cases h
            have hlt := length_of_digits? hdigits
            simp only [List.length_cons]
            omega
        · exact length_of_decimal? h
      · exact length_of_decimal? h
  · exact length_of_decimal? h

theorem length_of_read? (h : read? cs = some (n, rest)) : rest.length < cs.length :=
  Nat.lt_of_lt_of_le (length_of_unsigned? h) (length_sign cs)

end Numeral

/-! ## Strings -/

theorem Piece.length_of_readString {quote : Char} {cs rest : List Char} {ps : List Piece}
    (h : readString quote cs = some (ps, rest)) : rest.length < cs.length := by
  fun_induction readString quote cs generalizing ps rest with
  | case1 | case4 | case6 | case9 | case11 | case13 => cases h
  | case2 left ih | case7 c left _ _ _ _ ih =>
      -- a continued line
      have hlt := ih h
      simp only [List.length_cons]
      omega
  | case3 a b left n ps left' hread _ ih | case5 a b c d left n ps left' hread _ ih
  | case8 c left _ _ _ _ e ps left' hread _ ih | case12 c left _ _ _ _ _ _ ps left' hread ih =>
      cases h
      have hlt := ih hread
      simp only [List.length_cons]
      omega
  | case10 left =>
      cases h
      exact Nat.lt_succ_self _

namespace Token

variable {cs rest : List Char} {t : Token}

/-! ## Blanks and comments -/

theorem length_of_afterBlock? (h : afterBlock? cs = some rest) : rest.length < cs.length := by
  fun_induction afterBlock? cs with
  | case1 => cases h
  | case2 rest' =>
      cases h
      exact Nat.lt_succ_of_lt (Nat.lt_succ_self _)
  | case3 c rest' _ ih => exact Nat.lt_succ_of_lt (ih h)

theorem length_of_afterBlank? (h : afterBlank? cs = some rest) : rest.length < cs.length := by
  rw [afterBlank?.eq_def] at h
  split at h
  · have hblock := length_of_afterBlock? h
    simp only [List.length_cons]
    omega
  · next left =>
      cases h
      have hdrop := (List.dropWhile_suffix (l := left) fun c => !isLineEnd c).length_le
      simp only [List.length_cons]
      omega
  · split at h
    · cases h
      exact Nat.lt_succ_self _
    · cases h
  · cases h

/-! ## Tokens -/

theorem length_readWord (cs : List Char) :
    (readWord cs).1.length + (readWord cs).2.length ≤ cs.length := by
  fun_induction readWord cs with
  | case1 a b c d left n hhex r ih =>
      have hr : r.1.length + r.2.length ≤ left.length := ih
      simp only [List.length_cons]
      omega
  | case3 c left _ hpart r ih =>
      have hr : r.1.length + r.2.length ≤ left.length := ih
      simp only [List.length_cons]
      omega
  | case2 | case4 | case5 => simp

theorem length_of_word? (h : word? cs = some (t, rest)) : rest.length < cs.length := by
  have hword := length_readWord cs
  rw [word?] at h
  split at h
  · cases h
  · next ps left hne hread =>
      rw [hread] at hword
      obtain ⟨name, -, hr⟩ := Option.map_eq_some_iff.1 h
      cases hr
      have hpos : 0 < ps.length := List.length_pos_iff.2 hne
      dsimp only at hword
      omega

theorem length_of_string? {quote : Char} (h : string? quote cs = some (t, rest)) :
    rest.length < cs.length := by
  rw [string?] at h
  split at h
  · cases h
  · next hread =>
      obtain ⟨s, -, hr⟩ := Option.map_eq_some_iff.1 h
      cases hr
      exact Piece.length_of_readString hread

theorem length_of_number? (h : number? cs = some (t, rest)) : rest.length < cs.length := by
  rw [number?] at h
  split at h
  · cases h
  · next hread =>
      split at h
      · cases h
        exact Numeral.length_of_read? hread
      · cases h

/-- A token takes at least one character. -/
theorem length_of_next? (h : next? cs = some (t, rest)) : rest.length < cs.length := by
  rw [next?.eq_def] at h
  split at h
  · cases h
  · split at h
    · cases h
      exact Nat.lt_succ_self _
    · split at h
      · exact Nat.lt_succ_of_lt (length_of_string? h)
      · split at h
        · exact length_of_word? h
        · exact length_of_number? h

/-! ## Texts -/

/-- Some tokens are written in a text, with blanks and comments between them; each is as long as
it can be. -/
inductive IsText : List Char → List Token → Prop
  | nil : IsText [] []
  | blank {cs rest : List Char} {ts : List Token} (hblank : afterBlank? cs = some rest)
      (h : IsText rest ts) : IsText cs ts
  | token {cs rest : List Char} {t : Token} {ts : List Token} (hblank : afterBlank? cs = none)
      (htoken : next? cs = some (t, rest)) (h : IsText rest ts) : IsText cs (t :: ts)

/-- The scanner takes all tokens of a text if its budget is the length of the text. -/
theorem scan_of_isText {ts : List Token} (h : IsText cs ts) {fuel : Nat}
    (hfuel : cs.length ≤ fuel) : scan fuel cs = some ts := by
  induction h generalizing fuel with
  | nil => exact scan.eq_1 fuel
  | @blank cs rest ts hblank h ih =>
      have hlt := length_of_afterBlank? hblank
      obtain ⟨fuel, rfl⟩ := Nat.exists_eq_add_one.2
        (Nat.lt_of_lt_of_le (Nat.zero_lt_of_lt hlt) hfuel)
      rw [scan, hblank]
      · exact ih (by omega)
      · rintro rfl
        cases hlt
  | @token cs rest t ts hblank htoken h ih =>
      have hlt := length_of_next? htoken
      obtain ⟨fuel, rfl⟩ := Nat.exists_eq_add_one.2
        (Nat.lt_of_lt_of_le (Nat.zero_lt_of_lt hlt) hfuel)
      rw [scan, hblank]
      · dsimp only
        rw [htoken]
        dsimp only
        rw [ih (by omega), Option.map_some]
      · rintro rfl
        cases hlt

theorem isText_of_scan {fuel : Nat} {ts : List Token} (h : scan fuel cs = some ts) :
    IsText cs ts := by
  induction fuel generalizing cs ts with
  | zero =>
      cases cs with
      | nil =>
          cases h
          exact .nil
      | cons c cs => cases h
  | succ fuel ih =>
      cases cs with
      | nil =>
          cases h
          exact .nil
      | cons c cs =>
          rw [scan] at h
          · split at h
            · next hblank => exact .blank hblank (ih h)
            · next hblank =>
                split at h
                · cases h
                · next htoken =>
                    obtain ⟨ts', hts, rfl⟩ := Option.map_eq_some_iff.1 h
                    exact .token hblank htoken (ih hts)
          · rintro ⟨⟩

theorem ofText?_eq_some_iff {text : String} {ts : List Token} :
    ofText? text = some ts ↔ IsText text.toList ts :=
  ⟨isText_of_scan, fun h => scan_of_isText h (Nat.le_refl _)⟩

end Token

end BuildGraph.Json5
