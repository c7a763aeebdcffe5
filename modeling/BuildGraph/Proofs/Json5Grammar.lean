import BuildGraph.Proofs.Json5Tokens

/-!
# The grammar of JSON5

Tokens are a value if the grammar derives them (`IsValue`), with items and members that end in a
bracket or a brace, and a comma allowed before it (`IsItems`, `IsMembers`).  The reader of values
works on a budget of descents.  A value is read if there is a step for each of its tokens
(`value?_of_isValue`), by recursion on its derivation; and what is read is derived, by induction on
the budget (`sound`).

So the document of a text is the one that the grammar derives from its tokens
(`parse?_eq_some_iff`), and there is at most one (`IsDocument.unique`).
-/

namespace BuildGraph.Json5

/-! ## Grammar -/

mutual

/-- Some tokens are a value. -/
inductive IsValue : List Token → Json → Prop
  | null : IsValue [.word "null" true] .null
  | true : IsValue [.word "true" true] (.bool true)
  | false : IsValue [.word "false" true] (.bool false)
  | infinity : IsValue [.word "Infinity" true] .null
  | notANumber : IsValue [.word "NaN" true] .null
  | string (s : String) : IsValue [.string s] (.string s)
  | number (n : Numeral) (text : String) :
      IsValue [.number n text] (if n.isSpecial then .null else .number text)
  | array {ts : List Token} {items : List Json} (h : IsItems ts items) :
      IsValue (.mark '[' :: ts) (.array items)
  | object {ts : List Token} {members : List (String × Json)} (h : IsMembers ts members) :
      IsValue (.mark '\x7b' :: ts) (.object members)

/-- Some tokens are items, each but the last with a comma after it, and the closing bracket. -/
inductive IsItems : List Token → List Json → Prop
  | close : IsItems [.mark ']'] []
  | last {ts : List Token} {item : Json} (h : IsValue ts item) :
      IsItems (ts ++ [.mark ']']) [item]
  | comma {ts ts' : List Token} {item : Json} {items : List Json} (h : IsValue ts item)
      (hitems : IsItems ts' items) : IsItems (ts ++ .mark ',' :: ts') (item :: items)

/-- Some tokens are members and the closing brace. -/
inductive IsMembers : List Token → List (String × Json) → Prop
  | close : IsMembers [.mark '\x7d'] []
  | last {key : Token} {name : String} {ts : List Token} {item : Json}
      (hname : name? key = some name) (h : IsValue ts item) :
      IsMembers (key :: .mark ':' :: (ts ++ [.mark '\x7d'])) [(name, item)]
  | comma {key : Token} {name : String} {ts ts' : List Token} {item : Json}
      {members : List (String × Json)} (hname : name? key = some name) (h : IsValue ts item)
      (hmembers : IsMembers ts' members) :
      IsMembers (key :: .mark ':' :: (ts ++ .mark ',' :: ts')) ((name, item) :: members)

end

/-- A value has a first token, and this is no closing bracket. -/
theorem IsValue.exists_cons {ts : List Token} {doc : Json} (h : IsValue ts doc) :
    ∃ t rest, ts = t :: rest ∧ t ≠ .mark ']' := by
  cases h with
  | array h => exact ⟨_, _, rfl, by decide⟩
  | object h => exact ⟨_, _, rfl, by decide⟩
  | _ => exact ⟨_, _, rfl, Token.noConfusion⟩

theorem IsValue.length_pos {ts : List Token} {doc : Json} (h : IsValue ts doc) :
    0 < ts.length := by
  obtain ⟨t, rest, rfl, -⟩ := h.exists_cons
  exact Nat.succ_pos _

theorem IsItems.length_pos {ts : List Token} {items : List Json} (h : IsItems ts items) :
    0 < ts.length := by
  cases h with
  | close => exact Nat.succ_pos _
  | last h => simp
  | comma h hitems => exact Nat.lt_of_lt_of_le h.length_pos (by simp)

theorem IsMembers.length_pos {ts : List Token} {members : List (String × Json)}
    (h : IsMembers ts members) : 0 < ts.length := by
  cases h <;> exact Nat.succ_pos _

theorem ne_mark_of_name? {key : Token} {name : String} (h : name? key = some name) (c : Char) :
    key ≠ .mark c := by
  rintro rfl
  cases h

/-! ## One step of the reader -/

section

variable {fuel : Nat} {key : Token} {name : String} {ts rest : List Token} {item : Json}

theorem items?_last (h : IsValue ts item)
    (hvalue : value? fuel (ts ++ .mark ']' :: rest) = some (item, .mark ']' :: rest)) :
    items? (fuel + 1) (ts ++ .mark ']' :: rest) = some ([item], rest) := by
  obtain ⟨t, ts, rfl, ht⟩ := h.exists_cons
  rw [items?, hvalue]
  · rfl
  · intro rest' hmark
    exact ht (List.cons.inj hmark).1

theorem items?_comma (h : IsValue ts item)
    (hvalue : value? fuel (ts ++ .mark ',' :: rest) = some (item, .mark ',' :: rest)) :
    items? (fuel + 1) (ts ++ .mark ',' :: rest)
      = (items? fuel rest).map fun r => (item :: r.1, r.2) := by
  obtain ⟨t, ts, rfl, ht⟩ := h.exists_cons
  rw [items?, hvalue]
  · rfl
  · intro rest' hmark
    exact ht (List.cons.inj hmark).1

theorem members?_last (hname : name? key = some name)
    (hvalue : value? fuel (ts ++ .mark '\x7d' :: rest) = some (item, .mark '\x7d' :: rest)) :
    members? (fuel + 1) (key :: .mark ':' :: (ts ++ .mark '\x7d' :: rest))
      = some ([(name, item)], rest) := by
  rw [members?, hname, hvalue]
  · rfl
  · exact ne_mark_of_name? hname _

theorem members?_comma (hname : name? key = some name)
    (hvalue : value? fuel (ts ++ .mark ',' :: rest) = some (item, .mark ',' :: rest)) :
    members? (fuel + 1) (key :: .mark ':' :: (ts ++ .mark ',' :: rest))
      = (members? fuel rest).map fun r => ((name, item) :: r.1, r.2) := by
  rw [members?, hname, hvalue]
  · rfl
  · exact ne_mark_of_name? hname _

end

/-! ## The reader gives what the grammar derives

The recursion is on the derivation.  The budget is the number of tokens, and each step down takes
one of them off. -/

mutual

/-- A value is read if there is a step for each of its tokens. -/
theorem value?_of_isValue {used : List Token} {doc : Json} (h : IsValue used doc) {fuel : Nat}
    (hfuel : used.length ≤ fuel) (rest : List Token) :
    value? fuel (used ++ rest) = some (doc, rest) := by
  obtain ⟨fuel, rfl⟩ := Nat.exists_eq_add_one.2 (Nat.lt_of_lt_of_le h.length_pos hfuel)
  cases h with
  | array h => exact congrArg (Option.map _) (items?_of_isItems h (by simpa using hfuel) rest)
  | object h => exact congrArg (Option.map _) (members?_of_isMembers h (by simpa using hfuel) rest)
  | _ => rfl

theorem items?_of_isItems {used : List Token} {items : List Json} (h : IsItems used items)
    {fuel : Nat} (hfuel : used.length ≤ fuel) (rest : List Token) :
    items? fuel (used ++ rest) = some (items, rest) := by
  obtain ⟨fuel, rfl⟩ := Nat.exists_eq_add_one.2 (Nat.lt_of_lt_of_le h.length_pos hfuel)
  cases h with
  | close => rfl
  | last h =>
      rw [List.length_append, List.length_singleton] at hfuel
      rw [List.append_assoc]
      exact items?_last h (value?_of_isValue h (by omega) _)
  | comma h hitems =>
      rw [List.length_append, List.length_cons] at hfuel
      rw [List.append_assoc, List.cons_append,
        items?_comma h (value?_of_isValue h (by omega) _),
        items?_of_isItems hitems (by omega) rest, Option.map_some]

theorem members?_of_isMembers {used : List Token} {members : List (String × Json)}
    (h : IsMembers used members) {fuel : Nat} (hfuel : used.length ≤ fuel) (rest : List Token) :
    members? fuel (used ++ rest) = some (members, rest) := by
  obtain ⟨fuel, rfl⟩ := Nat.exists_eq_add_one.2 (Nat.lt_of_lt_of_le h.length_pos hfuel)
  cases h with
  | close => rfl
  | last hname h =>
      rw [List.length_cons, List.length_cons, List.length_append] at hfuel
      rw [List.cons_append, List.cons_append, List.append_assoc]
      exact members?_last hname (value?_of_isValue h (by omega) _)
  | comma hname h hmembers =>
      rw [List.length_cons, List.length_cons, List.length_append, List.length_cons] at hfuel
      rw [List.cons_append, List.cons_append, List.append_assoc, List.cons_append,
        members?_comma hname (value?_of_isValue h (by omega) _),
        members?_of_isMembers hmembers (by omega) rest, Option.map_some]

end

/-! ## The grammar derives what the reader gives -/

/-- What the reader takes on a budget is derived by the grammar. -/
structure Sound (fuel : Nat) : Prop where
  value {ts rest : List Token} {doc : Json} (h : value? fuel ts = some (doc, rest)) :
    ∃ used, ts = used ++ rest ∧ IsValue used doc
  items {ts rest : List Token} {items : List Json} (h : items? fuel ts = some (items, rest)) :
    ∃ used, ts = used ++ rest ∧ IsItems used items
  members {ts rest : List Token} {members : List (String × Json)}
    (h : members? fuel ts = some (members, rest)) :
    ∃ used, ts = used ++ rest ∧ IsMembers used members

variable {fuel : Nat} {ts rest : List Token}

theorem Sound.value_succ (ih : Sound fuel) {doc : Json}
    (h : value? (fuel + 1) ts = some (doc, rest)) :
    ∃ used, ts = used ++ rest ∧ IsValue used doc := by
  rw [value?.eq_def] at h
  dsimp only at h
  split at h
  · cases h
    exact ⟨[_], rfl, .null⟩
  · cases h
    exact ⟨[_], rfl, .true⟩
  · cases h
    exact ⟨[_], rfl, .false⟩
  · cases h
    exact ⟨[_], rfl, .infinity⟩
  · cases h
    exact ⟨[_], rfl, .notANumber⟩
  · cases h
    exact ⟨[_], rfl, .string _⟩
  · cases h
    exact ⟨[_], rfl, .number _ _⟩
  · obtain ⟨⟨items, left⟩, hitems, hr⟩ := Option.map_eq_some_iff.1 h
    cases hr
    obtain ⟨used, rfl, hused⟩ := ih.items hitems
    exact ⟨_ :: used, rfl, .array hused⟩
  · obtain ⟨⟨members, left⟩, hmembers, hr⟩ := Option.map_eq_some_iff.1 h
    cases hr
    obtain ⟨used, rfl, hused⟩ := ih.members hmembers
    exact ⟨_ :: used, rfl, .object hused⟩
  · cases h

theorem Sound.items_succ (ih : Sound fuel) {items : List Json}
    (h : items? (fuel + 1) ts = some (items, rest)) :
    ∃ used, ts = used ++ rest ∧ IsItems used items := by
  rw [items?.eq_def] at h
  dsimp only at h
  split at h
  · cases h
    exact ⟨[_], rfl, .close⟩
  · split at h
    · next hvalue =>
        cases h
        obtain ⟨used, rfl, hused⟩ := ih.value hvalue
        exact ⟨used ++ [.mark ']'], by simp, .last hused⟩
    · next hvalue =>
        obtain ⟨⟨items, left⟩, hitems, hr⟩ := Option.map_eq_some_iff.1 h
        cases hr
        obtain ⟨used, rfl, hused⟩ := ih.value hvalue
        obtain ⟨used', rfl, hused'⟩ := ih.items hitems
        exact ⟨used ++ .mark ',' :: used', by simp, .comma hused hused'⟩
    · cases h

theorem Sound.members_succ (ih : Sound fuel) {members : List (String × Json)}
    (h : members? (fuel + 1) ts = some (members, rest)) :
    ∃ used, ts = used ++ rest ∧ IsMembers used members := by
  rw [members?.eq_def] at h
  dsimp only at h
  split at h
  · cases h
    exact ⟨[_], rfl, .close⟩
  · split at h
    · next hname hvalue =>
        cases h
        obtain ⟨used, rfl, hused⟩ := ih.value hvalue
        exact ⟨_ :: .mark ':' :: (used ++ [.mark '\x7d']), by simp, .last hname hused⟩
    · next hname hvalue =>
        obtain ⟨⟨members, left⟩, hmembers, hr⟩ := Option.map_eq_some_iff.1 h
        cases hr
        obtain ⟨used, rfl, hused⟩ := ih.value hvalue
        obtain ⟨used', rfl, hused'⟩ := ih.members hmembers
        exact ⟨_ :: .mark ':' :: (used ++ .mark ',' :: used'), by simp,
          .comma hname hused hused'⟩
    · cases h
  · cases h

theorem sound (fuel : Nat) : Sound fuel := by
  induction fuel with
  | zero => exact ⟨nofun, nofun, nofun⟩
  | succ fuel ih => exact ⟨ih.value_succ, ih.items_succ, ih.members_succ⟩

/-! ## Documents -/

/-- A text holds a document. -/
def IsDocument (text : String) (doc : Json) : Prop :=
  ∃ ts, Token.IsText text.toList ts ∧ IsValue ts doc

variable {text : String} {doc doc' : Json}

/-- The document of a text is the one that the grammar derives. -/
theorem parse?_eq_some_iff : parse? text = some doc ↔ IsDocument text doc := by
  constructor
  · intro h
    rw [parse?] at h
    split at h
    · cases h
    · next ts hts =>
        split at h
        · next hvalue =>
            cases h
            obtain ⟨used, hused, hdoc⟩ := (sound _).value hvalue
            rw [List.append_nil] at hused
            exact ⟨ts, Token.ofText?_eq_some_iff.1 hts, hused ▸ hdoc⟩
        · cases h
  · rintro ⟨ts, hts, hdoc⟩
    have hvalue := value?_of_isValue hdoc (show ts.length ≤ 2 * ts.length + 2 by omega) []
    rw [List.append_nil] at hvalue
    rw [parse?, Token.ofText?_eq_some_iff.2 hts]
    dsimp only
    rw [hvalue]

theorem IsDocument.unique (h : IsDocument text doc) (h' : IsDocument text doc') : doc = doc' := by
  rw [← parse?_eq_some_iff] at h h'
  exact Option.some.inj (h.symm.trans h')

/-! ## Objects with one member -/

theorem isValue_string_iff {ts : List Token} {s : String} :
    IsValue ts (.string s) ↔ ts = [.string s] := by
  constructor
  · intro h
    generalize hdoc : Json.string s = doc at h
    cases h with
    | string s' =>
        cases hdoc
        rfl
    | number n text =>
        split at hdoc <;> cases hdoc
    | _ => cases hdoc
  · rintro rfl
    exact .string s

theorem isMembers_nil_iff {ts : List Token} : IsMembers ts [] ↔ ts = [.mark '\x7d'] := by
  constructor
  · rintro ⟨⟩
    rfl
  · rintro rfl
    exact .close

/-- A single member stands between the braces, with or without a comma after it. -/
theorem isValue_object_singleton_iff {ts : List Token} {name : String} :
    IsValue ts (.object [(name, doc)])
      ↔ ∃ key value, name? key = some name ∧ IsValue value doc
        ∧ (ts = .mark '\x7b' :: key :: .mark ':' :: (value ++ [.mark '\x7d'])
          ∨ ts = .mark '\x7b' :: key :: .mark ':' :: (value ++ [.mark ',', .mark '\x7d'])) := by
  constructor
  · intro h
    generalize hobject : Json.object [(name, doc)] = object at h
    cases h with
    | number n text => split at hobject <;> cases hobject
    | object h =>
        cases hobject
        cases h with
        | last hname h => exact ⟨_, _, hname, h, .inl rfl⟩
        | comma hname h hmembers =>
            obtain rfl := isMembers_nil_iff.1 hmembers
            exact ⟨_, _, hname, h, .inr rfl⟩
    | _ => cases hobject
  · rintro ⟨key, value, hname, h, rfl | rfl⟩
    · exact .object (.last hname h)
    · exact .object (.comma hname h .close)

end BuildGraph.Json5
