import BuildGraph.CommandLine.Arguments

/-!
# Arguments of a deployment

The command that carries out a deployment takes its directories and its whitelist as words.  An
argument that starts with a dash, with something behind it, is read as an option instead, which is
no word; and two dashes are no word either.  So the arguments become the words of the request, as
many as there are, exactly if none of them looks like an option and the first, the only word that
may not be empty, is not empty (`parse_rsync_iff`).
-/

namespace BuildGraph.CommandLine

namespace Reading

variable {r r' : Reading} {arg : String} {args : List String}

/-! ## Single arguments -/

/-- What an argument leaves of a reading if it adds no word. -/
def Kept (r r' : Reading) : Prop := r'.words = r.words ∧ r'.awaited = r.awaited

theorem kept_setVerbose (h : r.setVerbose = .ok r') : Kept r r' := by
  rw [setVerbose] at h
  split at h
  · cases h
  · obtain rfl := Except.ok.inj h
    exact ⟨rfl, rfl⟩

theorem kept_short {letters : List Char} (h : r.short .rsync letters = .ok r') : Kept r r' := by
  induction letters generalizing r with
  | nil =>
      obtain rfl := Except.ok.inj h
      exact ⟨rfl, rfl⟩
  | cons letter rest ih =>
      rw [short] at h
      split at h
      · cases h
      · split at h
        · cases hverbose : r.setVerbose with
          | error =>
              rw [hverbose] at h
              cases h
          | ok next =>
              rw [hverbose] at h
              obtain ⟨hwords, hawaited⟩ := ih h
              obtain ⟨hwords', hawaited'⟩ := kept_setVerbose hverbose
              exact ⟨hwords.trans hwords', hawaited.trans hawaited'⟩
        · rw [if_neg (by simp)] at h
          cases h

theorem kept_long {body : List Char} (h : r.long .rsync body = .ok r') : Kept r r' := by
  have hnone (name : String) : valueOption? .rsync name = none := by simp [valueOption?]
  rw [long] at h
  simp only [hnone] at h
  cases hvalue : body.dropWhile (· ≠ '=') with
  | cons =>
      rw [hvalue] at h
      cases h
  | nil =>
      rw [hvalue] at h
      simp only at h
      split at h
      · cases h
      · split at h
        · exact kept_setVerbose h
        · cases h

/-- An argument that does not look like an option is a word. -/
theorem step_of_plain (hr : r.awaited = none) (harg : isOption arg = false) :
    step .rsync r arg = r.addWord .rsync arg := by
  rw [isOption] at harg
  simp only [step, hr]
  split
  · rfl
  · split
    · next hl => simp [hl] at harg
    · next hl => simp [hl] at harg
    · next hl => simp [hl] at harg
    · rfl

/-- An argument that looks like an option is no word. -/
theorem kept_step_of_option (hr : r.awaited = none) (hescaped : r.escaped = false)
    (harg : isOption arg = true) (h : step .rsync r arg = .ok r') : Kept r r' := by
  rw [isOption] at harg
  simp only [step, hr, hescaped, Bool.false_eq_true, if_false] at h
  split at h
  · obtain rfl := Except.ok.inj h
    exact ⟨rfl, hr.symm⟩
  · exact kept_long h
  · exact kept_short h
  · next hdashes hlong hshort =>
      split at harg
      · next letter rest hl => exact absurd hl (hshort letter rest)
      · cases harg

theorem addWord_eq_ok (h : r.addWord .rsync arg = .ok r') :
    r' = { r with words := r.words ++ [arg] } := by
  rw [addWord] at h
  split at h
  · exact (Except.ok.inj h).symm
  · cases h

/-- A word that is not the first may be empty. -/
theorem addWord_of_ne_nil (h : r.words ≠ []) (arg : String) :
    r.addWord .rsync arg = .ok { r with words := r.words ++ [arg] } := by
  rw [addWord, if_pos]
  cases hwords : r.words with
  | nil => exact absurd hwords h
  | cons => rfl

/-- An argument is a word, or it looks like an option and none was to be taken as a word. -/
theorem step_cases (hr : r.awaited = none) (h : step .rsync r arg = .ok r') :
    r'.awaited = none ∧ ((isOption arg = true ∧ r.escaped = false ∧ r'.words = r.words)
      ∨ ((isOption arg = true → r.escaped = true) ∧ r'.escaped = r.escaped
        ∧ r'.words = r.words ++ [arg])) := by
  cases hescaped : r.escaped with
  | true =>
      rw [step, if_pos hescaped] at h
      obtain rfl := addWord_eq_ok h
      exact ⟨hr, .inr ⟨fun _ => rfl, hescaped, rfl⟩⟩
  | false =>
      cases harg : isOption arg with
      | true =>
          obtain ⟨hwords, hawaited⟩ := kept_step_of_option hr hescaped harg h
          exact ⟨hawaited.trans hr, .inl ⟨rfl, rfl, hwords⟩⟩
      | false =>
          rw [step_of_plain hr harg] at h
          obtain rfl := addWord_eq_ok h
          exact ⟨hr, .inr ⟨nofun, hescaped, rfl⟩⟩

/-! ## Lists of arguments -/

/-- There are at most as many new words as arguments, and fewer if one looks like an option, unless
all were to be taken as words. -/
theorem length_words_le (hr : r.awaited = none) (h : args.foldlM (step .rsync) r = .ok r') :
    r'.words.length ≤ r.words.length + args.length
      ∧ (r.escaped = false → (∃ a ∈ args, isOption a = true) →
        r'.words.length < r.words.length + args.length) := by
  induction args generalizing r with
  | nil =>
      obtain rfl : r = r' := Except.ok.inj h
      simp
  | cons a args ih =>
      rw [List.foldlM_cons] at h
      cases hstep : step .rsync r a with
      | error =>
          rw [hstep] at h
          cases h
      | ok next =>
          rw [hstep] at h
          obtain ⟨hawaited, hcases⟩ := step_cases hr hstep
          obtain ⟨hle, hlt⟩ := ih hawaited h
          -- An option is lost here, or the first one among the arguments comes later.
          obtain ⟨-, -, hwords⟩ | ⟨hword, hescaped, hwords⟩ := hcases
          · rw [hwords] at hle
            rw [List.length_cons]
            omega
          · rw [hescaped, hwords, List.length_append, List.length_singleton] at hlt
            rw [hwords, List.length_append, List.length_singleton] at hle
            rw [List.length_cons]
            refine ⟨by omega, fun hr' hoption => ?_⟩
            have hlt := hlt hr' (by
              obtain ⟨b, hb, hdash⟩ := hoption
              obtain rfl | hb := List.mem_cons.1 hb
              · rw [hword hdash] at hr'
                cases hr'
              · exact ⟨b, hb, hdash⟩)
            omega

/-- Arguments that do not look like options are words. -/
theorem foldlM_of_plain (hr : r.awaited = none) (hwords : r.words ≠ [])
    (h : ∀ a ∈ args, isOption a = false) :
    args.foldlM (step .rsync) r = .ok { r with words := r.words ++ args } := by
  induction args generalizing r with
  | nil =>
      rw [List.append_nil]
      rfl
  | cons a args ih =>
      obtain ⟨ha, hargs⟩ := List.forall_mem_cons.1 h
      have hrest := ih (r := { r with words := r.words ++ [a] }) hr (by simp) hargs
      simp only [List.append_assoc, List.singleton_append] at hrest
      rw [List.foldlM_cons, step_of_plain hr ha, addWord_of_ne_nil hwords]
      exact hrest

end Reading

/-! ## Requests -/

/-- Arguments that do not look like options are the words of the request, if the first may be
one. -/
theorem commandLine_rsync_of_plain {src dst : String} {inputs : List String} (verbose : Bool)
    (h : ∀ a ∈ src :: dst :: inputs, isOption a = false) :
    commandLine verbose .rsync (src :: dst :: inputs)
      = if src = "" then .error .usage
        else .ok { verbose, request := .rsync src dst inputs } := by
  obtain ⟨hsrc, hrest⟩ := List.forall_mem_cons.1 h
  have hfirst : Reading.step .rsync {} src
      = if src = "" then .error .usage else .ok { words := [src] } := by
    rw [Reading.step_of_plain rfl hsrc, Reading.addWord]
    by_cases hempty : src = ""
    · simp [Reading.accepts, hempty]
    · simp [Reading.accepts, hempty]
  split
  · next hempty =>
      rw [commandLine, List.foldlM_cons, hfirst, if_pos hempty]
      rfl
  · next hempty =>
      have hwords := Reading.foldlM_of_plain (r := { words := [src] }) rfl (by simp) hrest
      have hfold : (src :: dst :: inputs).foldlM (Reading.step .rsync) {}
          = .ok { words := src :: dst :: inputs } := by
        rw [List.foldlM_cons, hfirst, if_neg hempty]
        exact hwords
      exact commandLine_eq_ok_iff.2 ⟨_, hfold, rfl, (Bool.or_false verbose).symm⟩

theorem words_of_request {r : Reading} {src dst : String} {inputs : List String}
    (h : r.request .rsync = .ok (.rsync src dst inputs)) : r.words = src :: dst :: inputs := by
  unfold Reading.request at h
  split at h
  · cases h
  · match hwords : r.words, h with
    | [], h => cases h
    | [_], h => cases h
    | _ :: _ :: _, h =>
        simp only [Except.ok.injEq, Request.rsync.injEq] at h
        obtain ⟨rfl, rfl, rfl⟩ := h
        rfl

/-- The first argument names the command, and the others are its own. -/
theorem readLine_rsync (args : List String) :
    readLine ("rsync" :: args) = commandLine false .rsync args := rfl

/-- The arguments of a deployment make the request with these words exactly if none of them looks
like an option and the first is not empty. -/
theorem parse_rsync_iff {src dst : String} {inputs args : List String}
    (h : args.length = inputs.length + 2) :
    parse ("rsync" :: args) = .ok (.rsync src dst inputs)
      ↔ args = src :: dst :: inputs ∧ src ≠ "" ∧ ∀ a ∈ args, isOption a = false := by
  rw [parse_eq_ok_iff]
  simp only [readLine_rsync]
  constructor
  · rintro ⟨verbose, hline⟩
    have hplain : ∀ a ∈ args, isOption a = false := by
      obtain ⟨r, hfold, hrequest, -⟩ := commandLine_eq_ok_iff.1 hline
      have hlength := congrArg List.length (words_of_request hrequest)
      obtain ⟨-, hlt⟩ := Reading.length_words_le rfl hfold
      intro a ha
      rw [← Bool.not_eq_true]
      intro hoption
      have hfewer := hlt rfl ⟨a, ha, hoption⟩
      simp only [List.length_cons, List.length_nil] at hlength hfewer
      omega
    obtain ⟨a, b, rest, rfl⟩ : ∃ a b rest, args = a :: b :: rest := by
      match args, h with
      | a :: b :: rest, _ => exact ⟨a, b, rest, rfl⟩
    rw [commandLine_rsync_of_plain false hplain] at hline
    split at hline
    · cases hline
    · next hempty =>
        simp only [Except.ok.injEq, Line.mk.injEq, Request.rsync.injEq] at hline
        obtain ⟨-, rfl, rfl, rfl⟩ := hline
        exact ⟨rfl, hempty, hplain⟩
  · rintro ⟨rfl, hempty, hplain⟩
    exact ⟨false, by rw [commandLine_rsync_of_plain false hplain, if_neg hempty]⟩

end BuildGraph.CommandLine
