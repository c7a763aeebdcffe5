import BuildGraph.Script.Convert

/-!
# Concatenation

Two texts, or numbers, concatenate to a text.  If one side is a marker or was concatenated with
one, the result is a composition: the texts and markers of both sides in order, however deeply
they are nested, so that it does not matter how a chain is grouped.
-/

namespace BuildGraph.Script.Value

mutual

/-- The texts and markers of a value. -/
def parts : Value → Except Error (List Value)
  | .table tag items fields => do
    match ← fragment? (.table tag items fields) with
    | some _ => pure [.table tag items fields]
    | none => partsOf items
  | .text bytes => pure [.text bytes]
  | .integer n => pure [.integer n]
  | .number d => pure [.number d]
  | .nil => .error (.concatFault (.notConcatenable .nil))
  | .bool _ => .error (.concatFault (.notConcatenable .boolean))
  | .function _ => .error (.concatFault (.notConcatenable .function))

/-- The texts and markers of values, one after the other. -/
def partsOf : List Value → Except Error (List Value)
  | [] => pure []
  | v :: vs => do
    let first ← parts v
    let rest ← partsOf vs
    pure (first ++ rest)

end

/-- Whether concatenation with a value gives a composition. -/
def composes : Value → Bool
  | .table tag _ _ => tag.role = .marker ∨ tag.role = .composed
  | _ => false

/-- The concatenation of two values. -/
def concat (a b : Value) : Except Error Value :=
  match a.bytes?, b.bytes? with
  | some x, some y => .ok (.text (x ++ y))
  | _, _ =>
    if a.composes || b.composes then do
      let left ← parts a
      let right ← parts b
      pure (.table { role := .composed } (left ++ right) [])
    else .error .badOperation

end BuildGraph.Script.Value
