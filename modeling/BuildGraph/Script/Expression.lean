import BuildGraph.Script.Room
import BuildGraph.Script.Token

/-!
# Reading descriptions

A description is read from its tokens in one pass, from left to right, and the first thing that is
wrong decides what is wrong with it.

The reader descends on a budget of steps.  Every second step at least takes a token, so a small
multiple of the number of tokens is enough.
-/

namespace BuildGraph.Script

/-- Where a description is read: what is left of it, and the constants so far. -/
structure Reader where
  tokens : List Token
  constants : Constants := {}
  deriving Inhabited

/-- A step of reading. -/
abbrev Reading := StateT Reader (Except Flaw)

namespace Reader

/-- The tokens that are left. -/
def rest : Reading (List Token) := do pure (← get).tokens

/-- Goes on with some tokens. -/
def goOn (ts : List Token) : Reading Unit := modify ({ · with tokens := ts })

/-- Takes a mark that must come next. -/
def expect (mark : String) : Reading Unit := do
  match ← rest with
  | .mark s :: ts => if s = mark then goOn ts else throw .form
  | _ => throw .form

/-- One level deeper, unless what comes next is no token. -/
def enter (room : Room) : Reading Room := do
  match ← rest with
  | .bad :: _ => throw .form
  | _ => room.enter

/-- What expressions need, with the constants so far. -/
def places (p : Room.Placing Nat) : Reading Nat :=
  modifyGet fun r =>
    let (count, constants) := p.run r.constants
    (count, { r with constants })

/-- The room with as many more places in use as are needed. -/
def hold (room : Room) (p : Room.Placing Nat) : Reading Room := do room.hold (← places p)

/-- The room with one more place in use, which holds the value of an expression. -/
def put (room : Room) (e : Expr) : Reading Room := do
  let _ ← places (room.placesOf e)
  room.hold 1

/-- Number of values that a table holds once the last one read is collected as well; a full batch
is stored. -/
def collect (room : Room) (held : Nat) (last : Option Expr) : Reading Nat :=
  match last with
  | none => pure held
  | some e => do
    let _ ← put (← room.hold held) e
    pure (if held + 1 = batch then 0 else held + 1)

/-- Checks the last value of a table, which needs no place if it may be several. -/
def settle (room : Room) (held : Nat) (last : Option Expr) : Reading Unit :=
  match last with
  | none => pure ()
  | some e => do
    if !Room.isOpen e then
      let _ ← put (← room.hold held) e

end Reader

namespace Expr

open Reader

mutual

/-- Reads an expression. -/
def read : Nat → Room → Reading Expr
  | 0, _ => throw .form
  | fuel + 1, room => do
    let room ← enter room
    let left ← operand fuel room
    match ← rest with
    | .mark ".." :: ts => do
      goOn ts
      let inner ← put room left
      let right ← read fuel inner
      let _ ← put inner right
      pure (.concat left right)
    | _ => pure left

/-- Reads an operand. -/
def operand : Nat → Room → Reading Expr
  | 0, _ => throw .form
  | fuel + 1, room => do
    match ← rest with
    | .name "nil" :: ts => do goOn ts; pure (.constant .nil)
    | .name "true" :: ts => do goOn ts; pure (.constant (.bool true))
    | .name "false" :: ts => do goOn ts; pure (.constant (.bool false))
    | .number v :: ts => do goOn ts; pure (.constant v)
    | .text bytes :: ts => do goOn ts; pure (ofBytes bytes)
    | .mark "\x7b" :: ts => do
      goOn ts
      let fields ← braces fuel room
      pure (.table fields)
    | .mark "(" :: ts => do
      goOn ts
      let e ← read fuel room
      expect ")"
      suffixes fuel room (.single e)
    | .name s :: ts =>
      if s ∈ reserved then throw .form
      else do
        goOn ts
        let _ ← hold room (room.namePlaces s)
        suffixes fuel room (.name s)
    | _ => throw .form

/-- Reads the indices and arguments that follow an expression. -/
def suffixes : Nat → Room → Expr → Reading Expr
  | 0, _, _ => throw .form
  | fuel + 1, room, e => do
    match ← rest with
    | .mark "." :: .name s :: ts =>
      if s ∈ reserved then throw .form
      else do
        goOn ts
        let inner ← hold room (room.tablePlaces e)
        let _ ← hold inner (inner.indexPlaces e (ofText s))
        suffixes fuel room (.index e (ofText s))
    | .mark "." :: _ => throw .form
    | .mark "[" :: ts => do
      goOn ts
      let inner ← hold room (room.tablePlaces e)
      let key ← read fuel inner
      expect "]"
      let _ ← hold inner (inner.indexPlaces e key)
      suffixes fuel room (.index e key)
    | .mark "(" :: .mark ")" :: ts => do
      goOn ts
      let _ ← put room e
      suffixes fuel room (.call e (.constant .nil))
    | .mark "(" :: ts => do
      goOn ts
      let inner ← put room e
      let argument ← read fuel inner
      expect ")"
      if !Room.isOpen argument then
        let _ ← put inner argument
      suffixes fuel room (.call e argument)
    | .text bytes :: ts => do
      goOn ts
      let inner ← put room e
      let _ ← put inner (ofBytes bytes)
      suffixes fuel room (.call e (ofBytes bytes))
    | .mark "\x7b" :: ts => do
      goOn ts
      let inner ← put room e
      let fields ← braces fuel inner
      suffixes fuel room (.call e (.table fields))
    | _ => pure e

/-- Reads the fields after an opening brace, through the closing one; the table itself has a
place. -/
def braces : Nat → Room → Reading Fields
  | 0, _ => throw .form
  | fuel + 1, room => do readFields fuel (← room.hold 1) 0 none

/-- Reads the fields after an opening brace or a separator, through the closing brace.  Values
without a key are collected, each in a place; `held` of them are, and `last` is about to be. -/
def readFields : Nat → Room → (held : Nat) → (last : Option Expr) → Reading Fields
  | 0, _, _, _ => throw .form
  | fuel + 1, room, held, last => do
    match ← rest with
    | .mark "\x7d" :: ts => do
      goOn ts
      settle room held last
      pure .done
    | _ => do
      let held ← collect room held last
      let inner ← room.hold held
      match ← rest with
      | .name s :: .mark "=" :: ts =>
        if s ∈ reserved then throw .form
        else do
          goOn ts
          let value ← hold inner (inner.keyPlaces (ofText s))
          let v ← read fuel value
          let _ ← hold value (value.storedPlaces v)
          let fields ← separated fuel room held none
          pure (.keyed (ofText s) v fields)
      | .mark "[" :: ts => do
        goOn ts
        let key ← read fuel inner
        expect "]"
        expect "="
        let value ← hold inner (inner.keyPlaces key)
        let v ← read fuel value
        let _ ← hold value (value.storedPlaces v)
        let fields ← separated fuel room held none
        pure (.keyed key v fields)
      | _ => do
        let v ← read fuel inner
        let fields ← separated fuel room held (some v)
        pure (.positional v fields)

/-- Reads the fields after another one, through the closing brace. -/
def separated : Nat → Room → (held : Nat) → (last : Option Expr) → Reading Fields
  | 0, _, _, _ => throw .form
  | fuel + 1, room, held, last => do
    match ← rest with
    | .mark "\x7d" :: ts => do
      goOn ts
      settle room held last
      pure .done
    | .mark "," :: ts => do goOn ts; readFields fuel room held last
    | .mark ";" :: ts => do goOn ts; readFields fuel room held last
    | _ => throw .form

end

/-- A budget of steps for reading so many tokens. -/
def budget (ts : List Token) : Nat := 5 * ts.length + 8

end Expr

namespace Chunk

open Reader

/-- Reads the result after `return`, at the end of a description. -/
def readResult (room : Room) : Reading (Option Expr) := do
  match ← rest with
  | [] => pure none
  | [.mark ";"] => pure none
  | ts => do
    let e ← Expr.read (Expr.budget ts) room
    if !Room.isOpen e then
      let _ ← hold room (room.placesOf e)
    match ← rest with
    | [] => pure (some e)
    | [.mark ";"] => pure (some e)
    | _ => throw .form

/-- The description that starts with a statement. -/
def startingWith (s : Statement) (c : Chunk) : Chunk := { c with statements := s :: c.statements }

/-- Whether a statement that is no definition may start with a token. -/
def startsCall : Token → Bool
  | .name s => s ∉ Expr.reserved
  | .mark s => s = "("
  | _ => false

/-- Reads a call. -/
def readCall (room : Room) : Reading Expr := do
  let e ← Expr.operand (Expr.budget (← rest)) room
  if Room.isOpen e then pure e else throw .form

/-- Reads a description; `fuel` bounds the number of statements. -/
def readStatements : Nat → Room → Reading Chunk
  | fuel, room => do
    match fuel, ← rest with
    | _, [] => pure ⟨[], none⟩
    | 0, _ => throw .form
    | fuel + 1, ts => do
      let inner ← enter room
      match ts with
      | .mark ";" :: ts => do goOn ts; readStatements fuel room
      | .name "return" :: ts => do
        goOn ts
        let result ← readResult inner
        pure ⟨[], result⟩
      | .name "local" :: .name s :: .mark "=" :: ts =>
        if s ∈ Expr.reserved then throw .form
        else do
          goOn ts
          let named ← room.addName s
          let e ← Expr.read (Expr.budget ts) inner
          let c ← readStatements fuel (← put named e)
          pure (startingWith (.define s e) c)
      | t :: _ =>
        if startsCall t then do
          let e ← readCall inner
          let c ← readStatements fuel room
          pure (startingWith (.run e) c)
        else throw .form
      | [] => throw .form

/-- The description that a list of tokens is, read at some depth. -/
def read (depth : Nat) (ts : List Token) : Except Flaw Chunk :=
  (readStatements (ts.length + 1) { depth }).run' { tokens := ts }

/-- The description that a list of tokens is; a lone expression is a description as well. -/
def readLenient (ts : List Token) : Except Flaw Chunk :=
  match read 0 (.name "return" :: ts) with
  | .ok c => .ok c
  | .error _ => read 0 ts

end Chunk

end BuildGraph.Script
