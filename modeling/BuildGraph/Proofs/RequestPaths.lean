import BuildGraph.CommandLine.Arguments

/-!
# Paths of requests

No path of a request is empty.  An option with an empty path is not understood and neither is an
empty first word of a command, so a reading never has one (`Reading.HasPaths.step`), and a request
takes its paths from the reading or has the usual one (`parse_hasPaths`).
-/

namespace BuildGraph.CommandLine

/-- The paths of a request are not empty. -/
def Request.HasPaths : Request → Prop
  | .generate file outDir _ => file ≠ "" ∧ outDir ≠ some ""
  | .build file _ => file ≠ ""
  | .deploy file => file ≠ ""
  | .rsync src _ _ => src ≠ ""

namespace Reading

/-- The paths that were read so far are not empty. -/
structure HasPaths (r : Reading) : Prop where
  outDir : r.outDir ≠ some ""
  first : r.words.head? ≠ some ""

namespace HasPaths

variable {r r' : Reading} {c : Command}

theorem setVerbose (h : r.HasPaths) (hr : r.setVerbose = .ok r') : r'.HasPaths := by
  rw [Reading.setVerbose] at hr
  split at hr
  · cases hr
  · obtain rfl := Except.ok.inj hr
    exact ⟨h.outDir, h.first⟩

theorem setValue (h : r.HasPaths) {o : ValueOption} {value : String}
    (hr : r.setValue o value = .ok r') : r'.HasPaths := by
  cases o with
  | outDir =>
      rw [Reading.setValue] at hr
      split at hr
      · cases hr
      · next hvalue =>
          obtain rfl := Except.ok.inj hr
          exact ⟨fun hempty => hvalue (.inr (Option.some.inj hempty)), h.first⟩
  | format =>
      unfold Reading.setValue at hr
      simp only at hr
      split at hr
      · obtain rfl := Except.ok.inj hr
        exact ⟨h.outDir, h.first⟩
      · cases hr

theorem addWord (h : r.HasPaths) {word : String} (hr : r.addWord c word = .ok r') :
    r'.HasPaths := by
  rw [Reading.addWord] at hr
  split at hr
  · next haccepts =>
      obtain rfl := Except.ok.inj hr
      refine ⟨h.outDir, fun hempty => ?_⟩
      cases hwords : r.words with
      | nil =>
          rw [hwords] at haccepts hempty
          obtain rfl : word = "" := Option.some.inj hempty
          cases c <;> simp [accepts] at haccepts
      | cons first rest =>
          rw [hwords] at hempty
          exact h.first (hwords ▸ hempty)
  · cases hr

theorem short (h : r.HasPaths) {letters : List Char} (hr : r.short c letters = .ok r') :
    r'.HasPaths := by
  induction letters generalizing r with
  | nil =>
      obtain rfl := Except.ok.inj hr
      exact h
  | cons letter rest ih =>
      rw [Reading.short] at hr
      split at hr
      · cases hr
      · split at hr
        · cases hverbose : r.setVerbose with
          | error =>
              rw [hverbose] at hr
              cases hr
          | ok next =>
              rw [hverbose] at hr
              exact ih (h.setVerbose hverbose) hr
        · split at hr
          · split at hr
            · obtain rfl := Except.ok.inj hr
              exact ⟨h.outDir, h.first⟩
            · exact h.setValue hr
          · cases hr

theorem long (h : r.HasPaths) {body : List Char} (hr : r.long c body = .ok r') :
    r'.HasPaths := by
  unfold Reading.long at hr
  simp only at hr
  split at hr
  · exact h.setValue hr
  · obtain rfl := Except.ok.inj hr
    exact ⟨h.outDir, h.first⟩
  · split at hr
    · cases hr
    · split at hr
      · exact h.setVerbose hr
      · cases hr
  · cases hr

/-- One more argument. -/
theorem step (h : r.HasPaths) {arg : String} (hr : Reading.step c r arg = .ok r') :
    r'.HasPaths := by
  rw [Reading.step] at hr
  split at hr
  · exact h.addWord hr
  · split at hr
    · split at hr
      · cases hr
      · exact h.setValue hr
    · split at hr
      · obtain rfl := Except.ok.inj hr
        exact ⟨h.outDir, h.first⟩
      · exact h.long hr
      · exact h.short hr
      · exact h.addWord hr

/-- All arguments of a command. -/
theorem foldlM (h : r.HasPaths) {args : List String}
    (hr : args.foldlM (Reading.step c) r = .ok r') : r'.HasPaths := by
  induction args generalizing r with
  | nil =>
      obtain rfl : r = r' := Except.ok.inj hr
      exact h
  | cons arg args ih =>
      rw [List.foldlM_cons] at hr
      cases hstep : Reading.step c r arg with
      | error =>
          rw [hstep] at hr
          cases hr
      | ok next =>
          rw [hstep] at hr
          exact ih (h.step hstep) hr

theorem head?_getD_ne_empty (h : r.HasPaths) : r.words.head?.getD defaultFile ≠ "" := by
  cases hwords : r.words.head? with
  | none => decide
  | some word =>
      rintro rfl
      exact h.first hwords

/-- A reading that is complete. -/
theorem request (h : r.HasPaths) {q : Request} (hr : r.request c = .ok q) : q.HasPaths := by
  unfold Reading.request at hr
  split at hr
  · cases hr
  · split at hr
    · obtain rfl := Except.ok.inj hr
      exact ⟨h.head?_getD_ne_empty, h.outDir⟩
    · obtain rfl := Except.ok.inj hr
      exact h.head?_getD_ne_empty
    · obtain rfl := Except.ok.inj hr
      exact h.head?_getD_ne_empty
    · next src dst inputs hwords =>
        obtain rfl := Except.ok.inj hr
        rintro rfl
        exact h.first (by rw [hwords, List.head?_cons])
    · cases hr

end HasPaths

end Reading

end BuildGraph.CommandLine
