import BuildGraph.Deploy.Destination
import BuildGraph.Proofs.Composing
import BuildGraph.Proofs.ConfigText
import BuildGraph.Proofs.Places

/-!
# Bootstrapping configs

Where nothing lies at the path of a config, a deployment writes one with the destination of the
description, and the next run reads it (`Deploy.Destination.obtain_protocol`).  Where anything
lies, even a link without target, nothing is changed; and nothing is changed by a run that fails.

There are three exceptions to the first sentence.  A config is not written at a path that ends in a
slash, nor where the draft beside it would have a path that is too long.  And a destination with a
separator of lines or paragraphs is written in a form that cannot be read, so the run after the
first one fails.
-/

namespace BuildGraph.Deploy

namespace Config

variable {fs : Files} {path : String}

/-- The entry of a written config. -/
def entry (dst : String) : Entry := .file (text dst).toUTF8 false

theorem entry_ne_link (dst target : String) : entry dst ≠ .link target := Entry.noConfusion

/-- Configs that are written alike are both read back or neither is. -/
theorem ReadsBack.of_entry_eq {dst dst' : String} (h : entry dst = entry dst')
    (hback : ReadsBack dst') : ReadsBack dst := by
  have htext : text dst = text dst' := String.toByteArray_inj.1 (Entry.file.inj h).1
  have hparse := parse_text "" dst
  rw [htext, parse_text, if_pos hback] at hparse
  split at hparse
  · next hdst => exact hdst
  · cases hparse

/-- A written config is read back where it lies. -/
theorem read_of_stat {dst : String} (hstat : fs.stat path = .ok (entry dst)) :
    read fs path = if ReadsBack dst then .ok dst else .error (.parse path) := by
  rw [read, Files.readText_of_stat hstat]
  exact parse_text path dst

/-- A config is created at a free path only, and nothing else is changed. -/
theorem exists_vacant_of_create {dst : String} {more : Files}
    (h : create fs path dst = .ok more) :
    ∃ l, fs.Vacant path l false ∧ more = fs.insert l (entry dst) := by
  rw [create] at h
  cases hwrite : fs.writeNew path (text dst) with
  | error cause =>
      rw [hwrite] at h
      cases h
  | ok written =>
      rw [hwrite] at h
      obtain rfl : written = more := Except.ok.inj h
      obtain ⟨dir, name, hplace, hnone, hwritten⟩ := Files.exists_place_of_writeNew hwrite
      exact ⟨dir ++ [name], ⟨dir, name, hplace, rfl, hnone⟩, hwritten⟩

end Config

namespace Destination

variable {p : String} {s : Session}

/-! ## Runs -/

/-- What lies at the path is read and nothing is changed. -/
theorem obtain_of_pathExists (h : s.files.pathExists p = true) (template : Build String) :
    (obtain p template).run s = ((Config.read s.files p).map .found, s) := by
  unfold obtain
  simp only [StateT.run_bind, StateT.run_get, pure_bind, h, if_true]
  rfl

/-- Where nothing is, a config with the composed template is created. -/
theorem obtain_of_not_pathExists (h : s.files.pathExists p = false) {template : Build String}
    (htemplate : template.Composes) :
    (obtain p template).run s
      = match Config.create s.files p (template.valueAt s.keywords) with
        | .error e => (.error e, s.addErrors (template.problemsAt s.keywords))
        | .ok files => (.ok (.written (template.valueAt s.keywords)),
          { s.addErrors (template.problemsAt s.keywords) with files }) := by
  have hrun : (obtain p template).run s = (template >>= fun dst => do
      match Config.create (← get).files p dst with
      | .error e => pure (.error e)
      | .ok files =>
        modify fun s => { s with files }
        pure (.ok (.written dst)) : Build (Except Config.Error Destination)).run s := by
    have hmissing : ¬s.files.pathExists p = true := by simp [h]
    unfold obtain
    change StateT.run (if s.files.pathExists p = true then _ else _) s = _
    exact congrArg (fun c => StateT.run c s) (if_neg hmissing)
  have hfiles (ps : List Problem) :
      ((get : Build Session).run (s.addErrors ps)).1.files = s.files := rfl
  rw [hrun, Build.run_bind, htemplate s, Build.run_bind]
  simp only [hfiles]
  cases Config.create s.files p (template.valueAt s.keywords) with
  | error e => rfl
  | ok files => rfl

/-- Errors that were recorded before have no part in what is obtained.  Names that are missing in
the template are recorded after them where nothing is at the path. -/
theorem run_obtain_addErrors {template : Build String} (h : template.Composes)
    (ps : List Problem) :
    (obtain p template).run (s.addErrors ps) = (((obtain p template).run s).1,
      { s.addErrors (ps ++ if s.files.pathExists p then [] else template.problemsAt s.keywords) with
        files := ((obtain p template).run s).2.files }) := by
  cases hexists : s.files.pathExists p with
  | true =>
      rw [obtain_of_pathExists hexists, obtain_of_pathExists (s := s.addErrors ps) hexists,
        if_pos rfl, List.append_nil]
      rfl
  | false =>
      rw [obtain_of_not_pathExists hexists h,
        obtain_of_not_pathExists (s := s.addErrors ps) hexists h, Session.keywords_addErrors,
        if_neg Bool.false_ne_true, Session.addErrors_addErrors]
      change (match Config.create s.files p (template.valueAt s.keywords) with
        | .error e => _
        | .ok files => _) = _
      cases Config.create s.files p (template.valueAt s.keywords) with
      | error e => rfl
      | ok files => rfl

theorem obtain_pure_of_not_pathExists (h : s.files.pathExists p = false) (t : String) :
    (obtain p (pure t)).run s = match Config.create s.files p t with
      | .error e => (.error e, s)
      | .ok files => (.ok (.written t), { s with files }) := by
  rw [obtain_of_not_pathExists h (Build.composes_pure t)]
  have hnone : (pure t : Build String).problemsAt s.keywords = [] := rfl
  rw [hnone, Session.addErrors_nil, Build.valueAt_pure]

variable {l : Location} {slash : Bool}

/-- The first run at a free path writes the config, unless it cannot be written at all. -/
theorem obtain_of_vacant (h : s.files.Vacant p l slash) (t : String) :
    (obtain p (pure t)).run s
      = if Files.maxPath ≤ (s.files.draftPath (Path.directoryOf p)).utf8ByteSize then
          (.error (.write p .nameTooLong), s)
        else if slash then (.error (.write p .notDirectory), s)
        else (.ok (.written t), { s with files := s.files.insert l (Config.entry t) }) := by
  obtain ⟨dir, name, hplace, rfl, hnone⟩ := h
  have hmissing := (Files.Placed.of_place hplace).pathExists_eq_false hnone
  rw [obtain_pure_of_not_pathExists hmissing, Config.create, Files.writeNew_of_place hplace hnone]
  by_cases hlong : Files.maxPath ≤ (s.files.draftPath (Path.directoryOf p)).utf8ByteSize
  · rw [if_pos hlong, if_pos hlong]
    rfl
  · rw [if_neg hlong, if_neg hlong]
    cases slash with
    | true => rfl
    | false => rfl

/-- A config that was written is read. -/
theorem obtain_of_stat {t : String} (h : s.files.stat p = .ok (Config.entry t))
    (template : Build String) : (obtain p template).run s
      = (if Config.ReadsBack t then .ok (.found t) else .error (.parse p), s) := by
  rw [obtain_of_pathExists (Files.pathExists_iff.2 ⟨_, h⟩), Config.read_of_stat h]
  split
  · rfl
  · rfl

/-- A run that fails changes nothing. -/
theorem obtain_eq_of_error {t : String} {e : Config.Error}
    (h : ((obtain p (pure t)).run s).1 = .error e) : ((obtain p (pure t)).run s).2 = s := by
  cases hexists : s.files.pathExists p with
  | true => rw [obtain_of_pathExists hexists]
  | false =>
      rw [obtain_pure_of_not_pathExists hexists] at h ⊢
      cases hcreate : Config.create s.files p t with
      | error => rfl
      | ok files =>
          rw [hcreate] at h
          cases h

/-- Nothing is changed where something lies. -/
theorem obtain_of_occupied (h : s.files.Occupied p) (t : String) :
    ((obtain p (pure t)).run s).2 = s ∧ ∃ e, Config.create s.files p t = .error e := by
  obtain ⟨cause, hcause⟩ := h.writeNew_eq_error (Config.text t)
  have hcreate : Config.create s.files p t = .error (.write p cause) := by
    rw [Config.create, hcause]
    rfl
  refine ⟨?_, _, hcreate⟩
  cases hexists : s.files.pathExists p with
  | true => rw [obtain_of_pathExists hexists]
  | false => rw [obtain_pure_of_not_pathExists hexists, hcreate]

/-! ## The protocol -/

/-- A config is written once, where nothing lies, and read ever after; nothing else is changed.
It is not written at a path that ends in a slash or leaves no room for a draft, and it cannot be
read if its destination holds a separator of lines or paragraphs. -/
theorem obtain_protocol (s : Session) (p : String) :
    (∀ l slash, s.files.Vacant p l slash → ∀ t,
      (obtain p (pure t)).run s
        = (if Files.maxPath ≤ (s.files.draftPath (Path.directoryOf p)).utf8ByteSize then
            (.error (.write p .nameTooLong), s)
          else if slash then (.error (.write p .notDirectory), s)
          else (.ok (.written t), { s with files := s.files.insert l (Config.entry t) }))
      ∧ (slash = false → ∀ s' : Session, s'.files = s.files.insert l (Config.entry t) →
        ∀ template, (obtain p template).run s'
          = (if Config.ReadsBack t then .ok (.found t) else .error (.parse p), s')))
    ∧ (s.files.Occupied p → ∀ t,
      ((obtain p (pure t)).run s).2 = s ∧ ∃ e, Config.create s.files p t = .error e)
    ∧ ∀ t e, ((obtain p (pure t)).run s).1 = .error e → ((obtain p (pure t)).run s).2 = s := by
  refine ⟨fun l slash h t => ⟨obtain_of_vacant h t, ?_⟩, obtain_of_occupied,
    fun t e => obtain_eq_of_error⟩
  rintro rfl s' hs template
  refine obtain_of_stat ?_ template
  rw [hs, h.stat_insert (Config.entry_ne_link t)]

/-- A destination with a separator is written by the first run, and the second cannot read it and
leaves the config as it is. -/
theorem obtain_protocol_of_separator :
    let after : Session := { files := ({} : Files).insert ["config"] (Config.entry "a\u2028b") }
    ({} : Files).Vacant "config" ["config"] false
      ∧ (obtain "config" (pure "a\u2028b")).run {} = (.ok (.written "a\u2028b"), after)
      ∧ ((obtain "config" (pure "c")).run after).1 = .error (.parse "config")
      ∧ (∃ e, Config.create after.files "config" "c" = .error e)
      ∧ ((obtain "config" (pure "c")).run after).2 = after := by
  intro after
  have hpieces : Path.pieces "config" = [] ++ ["config"] := by decide +kernel
  have hvacant : ({} : Files).Vacant "config" ["config"] false :=
    Files.vacant_of_pieces rfl hpieces (List.forall_mem_nil _) (by decide) (by decide +kernel)
      rfl rfl
  have hshort : ¬Files.maxPath
      ≤ (({} : Files).draftPath (Path.directoryOf "config")).utf8ByteSize := by decide +kernel
  have hoccupied : after.files.Occupied "config" :=
    .inl (Files.pathExists_iff.2 ⟨_, hvacant.stat_insert (Config.entry_ne_link _)⟩)
  obtain ⟨hfirst, hnext⟩ := (obtain_protocol {} "config").1 _ _ hvacant "a\u2028b"
  have hsecond := hnext rfl after rfl (pure "c")
  rw [if_neg (show ¬Config.ReadsBack "a\u2028b" by decide)] at hsecond
  obtain ⟨-, hoccupied', herror⟩ := obtain_protocol after "config"
  refine ⟨hvacant, ?_, by rw [hsecond], (hoccupied' hoccupied "c").2,
    herror "c" (.parse "config") (by rw [hsecond])⟩
  rw [hfirst, if_neg hshort]
  rfl

end Destination

end BuildGraph.Deploy
