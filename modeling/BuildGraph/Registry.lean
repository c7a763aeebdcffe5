import BuildGraph.Graph

/-!
# Rule registry

Rules in order of their first registration.  The first rule of a name stays; registering it again
is harmless, and registering another body under its name is a conflict that changes nothing.

Rules are found by a table of positions.  The table says of every rule, in order, at which position
the rule of this name is; that it does is part of the type, so a position that is found is always
one of the list (`Registry.lt_of_position?`), and the rule there is the first of the name
(`Registry.get?_eq_find?`).
-/

namespace BuildGraph

/-- What registering a rule did. -/
inductive Registration where
  | added
  /-- The name holds the same body already. -/
  | present
  /-- The name holds another body. -/
  | conflict
  deriving DecidableEq, Repr, Inhabited

/-- Rules by name, in order of registration. -/
structure Registry where
  rules : List Rule := []
  /-- Where the rule of a name is. -/
  positions : List (String × Nat) := []
  /-- Every rule's name is bound to the rule's position. -/
  inStep : positions = (rules.map (·.name)).zipIdx := by rfl
  deriving DecidableEq, Repr

namespace Registry

/-- No rules. -/
def empty : Registry := {}

instance : Inhabited Registry := ⟨empty⟩

/-- The position of the rule registered under a name. -/
def position? (r : Registry) (name : String) : Option Nat := r.positions.lookup name

/-- The first pair of a name in a list of numbered names. -/
theorem lookup_zipIdx_names (rules : List Rule) (name : String) (start : Nat) :
    ((rules.map (·.name)).zipIdx start).lookup name
      = (rules.findIdx? (·.name == name)).map (· + start) := by
  induction rules generalizing start with
  | nil => rfl
  | cons rule rules ih =>
      rw [List.map_cons, List.zipIdx_cons, List.findIdx?_cons]
      by_cases h : rule.name = name
      · simp [h]
      · have hname : (name == rule.name) = false := beq_false_of_ne (Ne.symm h)
        rw [List.lookup_cons, hname, ih]
        simp [h, Function.comp_def, Nat.add_comm start, Nat.add_assoc]

/-- The position of a name is that of the first rule that has it. -/
theorem position?_eq_findIdx? (r : Registry) (name : String) :
    r.position? name = r.rules.findIdx? (·.name == name) := by
  rw [position?, r.inStep, lookup_zipIdx_names]
  simp

theorem lt_of_position? {r : Registry} {name : String} {i : Nat} (h : r.position? name = some i) :
    i < r.rules.length := by
  rw [position?_eq_findIdx?] at h
  exact (List.findIdx?_eq_some_iff_findIdx_eq.1 h).1

/-- The rule registered under a name. -/
def get? (r : Registry) (name : String) : Option Rule :=
  match h : r.position? name with
  | none => none
  | some i => some (r.rules.get ⟨i, lt_of_position? h⟩)

/-- The rule of a name is the first that has it. -/
theorem get?_eq_find? (r : Registry) (name : String) :
    r.get? name = r.rules.find? (·.name == name) := by
  unfold get?
  split
  · next h =>
      rw [position?_eq_findIdx?, List.findIdx?_eq_none_iff] at h
      exact (List.find?_eq_none.2 fun rule hrule => by simp [h rule hrule]).symm
  · next i h =>
      rw [position?_eq_findIdx?] at h
      obtain ⟨hlt, hname, hfirst⟩ := List.findIdx?_eq_some_iff_getElem.1 h
      symm
      refine List.find?_eq_some_iff_getElem.2 ⟨by simpa using hname, i, hlt, rfl, fun j hj => ?_⟩
      simpa using hfirst j hj

/-- Whether a name is taken. -/
def contains (r : Registry) (name : String) : Bool := (r.position? name).isSome

theorem contains_eq_isSome_get? (r : Registry) (name : String) :
    r.contains name = (r.get? name).isSome := by
  rw [Bool.eq_iff_iff, contains, position?_eq_findIdx?, get?_eq_find?, List.findIdx?_isSome,
    List.any_eq_true, List.find?_isSome]

/-- Number of rules. -/
def size (r : Registry) : Nat := r.rules.length

/-- Whether there are no rules. -/
def isEmpty (r : Registry) : Bool := r.rules.isEmpty

/-- The registry with a rule at the end, and its name bound to that position. -/
def push (r : Registry) (rule : Rule) : Registry where
  rules := r.rules ++ [rule]
  positions := r.positions ++ [(rule.name, r.rules.length)]
  inStep := by simp [r.inStep, List.zipIdx_append]

@[simp] theorem rules_push (r : Registry) (rule : Rule) :
    (r.push rule).rules = r.rules ++ [rule] := rfl

/-- Adds a rule unless its name is taken, and says which of the three cases arose. -/
def register (r : Registry) (rule : Rule) : Registration × Registry :=
  match r.get? rule.name with
  | none => (.added, r.push rule)
  | some held => (if held.agrees rule then .present else .conflict, r)

theorem register_of_get?_eq_none {r : Registry} {rule : Rule} (h : r.get? rule.name = none) :
    r.register rule = (.added, r.push rule) := by
  simp [register, h]

theorem register_of_get?_eq_some {r : Registry} {rule held : Rule}
    (h : r.get? rule.name = some held) :
    r.register rule = (if held.agrees rule then .present else .conflict, r) := by
  simp [register, h]

end Registry

end BuildGraph
