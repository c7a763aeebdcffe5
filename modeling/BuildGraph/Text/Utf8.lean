/-!
# Faults in UTF-8

Where a sequence of bytes stops being text in UTF-8, and how many bytes are at fault.  A character
is a lead byte and up to three continuation bytes; the first of these has a range of its own after
some leads, so that no character has two forms and none is a surrogate.
-/

namespace BuildGraph.Text

/-- What is wrong at a position. -/
inductive Utf8Fault where
  /-- This many bytes begin a character that they cannot be part of. -/
  | wrong (length : Nat)
  /-- The bytes end inside a character. -/
  | incomplete
  deriving DecidableEq, Repr, Inhabited

/-- The number of continuation bytes after a lead byte, and the range of the first of them. -/
def continuation? (lead : UInt8) : Option (Nat × UInt8 × UInt8) :=
  if lead < 0x80 then some (0, 0x80, 0xBF)
  else if lead < 0xC2 then none
  else if lead < 0xE0 then some (1, 0x80, 0xBF)
  else if lead = 0xE0 then some (2, 0xA0, 0xBF)
  else if lead = 0xED then some (2, 0x80, 0x9F)
  else if lead < 0xF0 then some (2, 0x80, 0xBF)
  else if lead = 0xF0 then some (3, 0x90, 0xBF)
  else if lead < 0xF4 then some (3, 0x80, 0xBF)
  else if lead = 0xF4 then some (3, 0x80, 0x8F)
  else none

/-- The fault in the next `count` continuation bytes, of which the first has a range; `read` bytes
of the character were read. -/
def continuationFault? (read : Nat) (low high : UInt8) : Nat → List UInt8 → Option Utf8Fault
  | 0, _ => none
  | _ + 1, [] => some .incomplete
  | count + 1, b :: rest =>
    if low ≤ b ∧ b ≤ high then continuationFault? (read + 1) 0x80 0xBF count rest
    else some (.wrong read)

/-- The first fault and its index; `skip` continuation bytes at the start are known to be good. -/
def utf8FaultFrom? (index skip : Nat) : List UInt8 → Option (Nat × Utf8Fault)
  | [] => none
  | b :: rest =>
    match skip with
    | skip + 1 => utf8FaultFrom? (index + 1) skip rest
    | 0 =>
      match continuation? b with
      | none => some (index, .wrong 1)
      | some (count, low, high) =>
        match continuationFault? 1 low high count rest with
        | some fault => some (index, fault)
        | none => utf8FaultFrom? (index + 1) count rest

/-- The text that is shown for the first fault of some bytes. -/
def utf8Message (bytes : List UInt8) : String :=
  match utf8FaultFrom? 0 0 bytes with
  | some (index, .wrong length) =>
    "invalid utf-8 sequence of " ++ toString length ++ " bytes from index " ++ toString index
  | some (index, .incomplete) => "incomplete utf-8 byte sequence from index " ++ toString index
  | none => ""

example : utf8FaultFrom? 0 0 [0x61, 0xE2, 0x82] = some (1, .incomplete) := by decide

example : utf8FaultFrom? 0 0 [0xC3, 0xA9, 0xED, 0xA0, 0x80] = some (2, .wrong 1) := by decide

end BuildGraph.Text
