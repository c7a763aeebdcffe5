import BuildGraph.Deploy.Config
import BuildGraph.Proofs.Json5Grammar
import BuildGraph.Proofs.Places

/-!
# The schema of configs

A config is an object that is written with one member, the string `dstDir` (`Config.IsConfig`).
The reader looks at the names of all members and at the value of the last one
(`Config.destinationOf_eq_ok_iff`), so it takes one more kind of text: an object that has the
member several times, and a string the last time (`Config.Repeats`).  What the earlier members hold
does not matter.

Where a text repeats the member in this way, the destination is the last one.  All other texts are
read strictly (`Config.reads_strictly_iff`): exactly the configs give a destination, and an object
with more than one member is refused for its form.
-/

namespace BuildGraph.Deploy.Config

open Json5 (IsDocument)

variable {fs : Files} {path text dst : String}

/-! ## Destinations of documents -/

/-- A document has a destination if its members all have the one name and the last is a string. -/
theorem destinationOf_eq_ok_iff {doc : Json} :
    destinationOf doc = .ok dst
      ↔ ∃ earlier, doc = .object (earlier ++ [(field, .string dst)])
        ∧ ∀ m ∈ earlier, m.1 = field := by
  constructor
  · intro h
    rw [destinationOf.eq_def] at h
    split at h
    · next members =>
        split at h
        · next hall =>
            split at h
            · cases h
            · next name dst' hlast =>
                cases h
                obtain ⟨earlier, rfl⟩ := List.getLast?_eq_some_iff.1 hlast
                have hnames := List.all_eq_true.1 hall
                obtain rfl : name = field := by simpa using hnames (name, .string dst) (by simp)
                refine ⟨earlier, rfl, fun m hm => ?_⟩
                simpa using hnames m (List.mem_append_left _ hm)
            · cases h
        · cases h
    · cases h
  · rintro ⟨earlier, rfl, hearlier⟩
    have hall : (earlier ++ [(field, Json.string dst)]).all (·.1 == field) = true := by
      simpa using hearlier
    rw [destinationOf, if_pos hall, List.getLast?_concat]

theorem destinationOf_of_ne {members : List (String × Json)} (h : ∃ m ∈ members, m.1 ≠ field) :
    destinationOf (.object members) = .error .wrongFields := by
  obtain ⟨m, hm, hname⟩ := h
  rw [destinationOf, if_neg]
  intro hall
  exact hname (by simpa using List.all_eq_true.1 hall m hm)

/-! ## Texts -/

/-- A text is an object that is written with one member, the destination. -/
def IsConfig (text dst : String) : Prop := IsDocument text (.object [(field, .string dst)])

/-- A text is an object that has the destination as its last member, and earlier members of the
same name. -/
def Repeats (text dst : String) : Prop :=
  ∃ earlier, earlier ≠ [] ∧ (∀ m ∈ earlier, m.1 = field)
    ∧ IsDocument text (.object (earlier ++ [(field, .string dst)]))

/-- The tokens of a config: braces around a name, a colon and a string, with or without a comma. -/
theorem isConfig_iff :
    IsConfig text dst
      ↔ ∃ key, Json5.name? key = some field
        ∧ (Json5.Token.IsText text.toList
            [.mark '\x7b', key, .mark ':', .string dst, .mark '\x7d']
          ∨ Json5.Token.IsText text.toList
            [.mark '\x7b', key, .mark ':', .string dst, .mark ',', .mark '\x7d']) := by
  constructor
  · rintro ⟨ts, hts, hdoc⟩
    obtain ⟨key, value, hname, hvalue, rfl | rfl⟩ := Json5.isValue_object_singleton_iff.1 hdoc
    · obtain rfl := Json5.isValue_string_iff.1 hvalue
      exact ⟨key, hname, .inl hts⟩
    · obtain rfl := Json5.isValue_string_iff.1 hvalue
      exact ⟨key, hname, .inr hts⟩
  · rintro ⟨key, hname, hts | hts⟩
    · exact ⟨_, hts, .object (.last hname (.string dst))⟩
    · exact ⟨_, hts, .object (.comma hname (.string dst) .close)⟩

/-- A text that is written with one member repeats none. -/
theorem IsConfig.not_repeats (h : IsConfig text dst) (dst' : String) : ¬Repeats text dst' := by
  rintro ⟨earlier, hne, -, hdoc⟩
  have hmembers := Json.object.inj (hdoc.unique h)
  cases earlier with
  | nil => exact hne rfl
  | cons m earlier => simp at hmembers

/-! ## Reading -/

theorem read_of_isDocument {doc : Json} (hread : fs.readText path = .ok text)
    (hdoc : IsDocument text doc) :
    read fs path = (destinationOf doc).mapError (.invalidSchema path) := by
  rw [read, hread]
  dsimp only
  rw [parse, Json5.parse?_eq_some_iff.2 hdoc]

/-- The texts that give a destination. -/
theorem read_eq_ok_iff (hread : fs.readText path = .ok text) :
    read fs path = .ok dst ↔ IsConfig text dst ∨ Repeats text dst := by
  constructor
  · intro h
    cases hparse : Json5.parse? text with
    | none =>
        rw [read, hread] at h
        dsimp only at h
        rw [parse, hparse] at h
        cases h
    | some doc =>
        have hdoc := Json5.parse?_eq_some_iff.1 hparse
        rw [read_of_isDocument hread hdoc] at h
        cases hdst : destinationOf doc with
        | error fault =>
            rw [hdst] at h
            cases h
        | ok found =>
            rw [hdst] at h
            cases h
            obtain ⟨earlier, rfl, hearlier⟩ := destinationOf_eq_ok_iff.1 hdst
            by_cases hne : earlier = []
            · exact .inl (by rwa [hne] at hdoc)
            · exact .inr ⟨earlier, hne, hearlier, hdoc⟩
  · rintro (hdoc | ⟨earlier, -, hearlier, hdoc⟩)
    · have hdst : destinationOf (.object [(field, .string dst)]) = .ok dst :=
        destinationOf_eq_ok_iff.2 ⟨[], rfl, List.forall_mem_nil _⟩
      rw [read_of_isDocument hread hdoc, hdst]
      rfl
    · rw [read_of_isDocument hread hdoc, destinationOf_eq_ok_iff.2 ⟨earlier, rfl, hearlier⟩]
      rfl

/-- A text is read strictly at a path: it gives a destination exactly if it is written with the one
member, and it is refused for its form if it has more. -/
structure ReadsStrictly (fs : Files) (path text : String) : Prop where
  ok_iff : ∀ dst, read fs path = .ok dst ↔ IsConfig text dst
  refused : ∀ members, IsDocument text (.object members) → 2 ≤ members.length →
    ∃ fault, read fs path = .error (.invalidSchema path fault)

/-- An object that repeats the member is taken, though it should be refused. -/
theorem Repeats.not_readsStrictly (hread : fs.readText path = .ok text) (h : Repeats text dst) :
    ¬ReadsStrictly fs path text := by
  intro hstrict
  have hconfig := (hstrict.ok_iff dst).1 ((read_eq_ok_iff hread).2 (.inr h))
  exact hconfig.not_repeats dst h

/-- **Configs are read strictly, but for repeated members.**  A text is read strictly unless it is
an object that has the destination several times, and a string the last time.  A destination is
given by the texts that are written with one member and by these, and by no others.  Of the first
the tokens are known.  An object with a member of another name is refused. -/
theorem reads_strictly_iff (hread : fs.readText path = .ok text) :
    (ReadsStrictly fs path text ↔ ∀ dst, ¬Repeats text dst)
      ∧ (∀ dst, read fs path = .ok dst ↔ IsConfig text dst ∨ Repeats text dst)
      ∧ (∀ dst, IsConfig text dst ↔ ∃ key, Json5.name? key = some field
        ∧ (Json5.Token.IsText text.toList
            [.mark '\x7b', key, .mark ':', .string dst, .mark '\x7d']
          ∨ Json5.Token.IsText text.toList
            [.mark '\x7b', key, .mark ':', .string dst, .mark ',', .mark '\x7d']))
      ∧ ∀ members, IsDocument text (.object members) → (∃ m ∈ members, m.1 ≠ field) →
        read fs path = .error (.invalidSchema path .wrongFields) := by
  refine ⟨⟨fun hstrict dst h => h.not_readsStrictly hread hstrict, fun hno => ?_⟩,
    fun dst => read_eq_ok_iff hread, fun dst => isConfig_iff, fun members hdoc hother => ?_⟩
  · refine ⟨fun dst => (read_eq_ok_iff hread).trans (or_iff_left (hno dst)), ?_⟩
    intro members hdoc hmany
    rw [read_of_isDocument hread hdoc]
    cases hdst : destinationOf (.object members) with
    | error fault => exact ⟨fault, rfl⟩
    | ok dst =>
        obtain ⟨earlier, hmembers, hearlier⟩ := destinationOf_eq_ok_iff.1 hdst
        obtain rfl := Json.object.inj hmembers
        refine absurd ⟨earlier, ?_, hearlier, hdoc⟩ (hno dst)
        rintro rfl
        simp at hmany
  · rw [read_of_isDocument hread hdoc, destinationOf_of_ne hother]
    rfl

/-- The text of a single file is read. -/
theorem readText_config (text : String) :
    (({} : Files).insert ["config"] (.file text.toUTF8 false)).readText "config" = .ok text := by
  have hpieces : Path.pieces "config" = [] ++ ["config"] := by decide +kernel
  have hvacant : ({} : Files).Vacant "config" ["config"] false :=
    Files.vacant_of_pieces rfl hpieces (List.forall_mem_nil _) (by decide) (by decide +kernel)
      rfl rfl
  exact Files.readText_of_stat (hvacant.stat_insert fun _ => Entry.noConfusion)

/-- A text with a comment, single quotes and a comma after the member is read strictly. -/
theorem reads_strictly_iff_of_comment :
    let text := "\x7b // production mirror\n  dstDir: '/srv/www',\n\x7d\n"
    let fs := ({} : Files).insert ["config"] (.file text.toUTF8 false)
    fs.readText "config" = .ok text ∧ ReadsStrictly fs "config" text
      ∧ read fs "config" = .ok "/srv/www" := by
  intro text fs
  have hread : fs.readText "config" = .ok text := readText_config text
  have htokens : Json5.Token.ofText? text = some [.mark '\x7b', .word "dstDir" true, .mark ':',
      .string "/srv/www", .mark ',', .mark '\x7d'] := by decide +kernel
  obtain ⟨hstrict, hok, hconfig, -⟩ := reads_strictly_iff hread
  have h : IsConfig text "/srv/www" :=
    (hconfig _).2 ⟨_, rfl, .inr (Json5.Token.ofText?_eq_some_iff.1 htokens)⟩
  exact ⟨hread, hstrict.2 h.not_repeats, (hok _).2 (.inl h)⟩

/-- A text that has the member twice gives the second destination and is not refused. -/
theorem not_readsStrictly_of_two_members :
    let text := "\x7b dstDir: \"/a\", dstDir: \"/b\" \x7d"
    let fs := ({} : Files).insert ["config"] (.file text.toUTF8 false)
    fs.readText "config" = .ok text ∧ read fs "config" = .ok "/b"
      ∧ ¬ReadsStrictly fs "config" text := by
  intro text fs
  have hread : fs.readText "config" = .ok text := readText_config text
  have htokens : Json5.Token.ofText? text = some [.mark '\x7b', .word "dstDir" true, .mark ':',
      .string "/a", .mark ',', .word "dstDir" true, .mark ':', .string "/b", .mark '\x7d'] := by
    decide +kernel
  have hmembers : Json5.IsMembers [.word "dstDir" true, .mark ':', .string "/a", .mark ',',
      .word "dstDir" true, .mark ':', .string "/b", .mark '\x7d']
      ([(field, .string "/a")] ++ [(field, .string "/b")]) :=
    .comma rfl (.string "/a") (.last rfl (.string "/b"))
  have h : Repeats text "/b" := by
    refine ⟨[(field, .string "/a")], List.cons_ne_nil _ _, by simp, _, ?_, .object hmembers⟩
    exact Json5.Token.ofText?_eq_some_iff.1 htokens
  exact ⟨hread, (read_eq_ok_iff hread).2 (.inr h), h.not_readsStrictly hread⟩

end BuildGraph.Deploy.Config
