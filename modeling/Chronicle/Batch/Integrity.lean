import Chronicle.Event.Basic
import Chronicle.Data.Table

namespace Chronicle

/-!
# Integrity of numbered batches

* `Batch.checkIntegrity` — in a batch, positions are consecutive in batch order, and the sequence
  numbers of each root are consecutive from the lowest one on.
* `BatchError` — the first defect of a batch.
-/

/-- What is wrong with the numbering of a batch. -/
inductive BatchError where
  /-- An event has no readable metadata under a key. -/
  | missingMetadata (batch : Uuid) (index : Nat) (key : String)
  /-- A position does not follow the one before it. -/
  | nonSequentialPosition (batch : Uuid) (expected actual : Int) (positions : List Int)
  /-- A sequence number does not follow the one before it in its root. -/
  | nonSequentialSequence (batch : Uuid) (root : String) (expected actual : Int)
deriving DecidableEq

/-- The error as a sentence. -/
def BatchError.message : BatchError → String
  | missingMetadata batch index key =>
    s!"Batch {batch} contains event #{index} without a valid '{key}'"
  | nonSequentialPosition batch expected actual positions =>
    let all := "[" ++ ", ".intercalate (positions.map toString) ++ "]"
    s!"Batch {batch} has non-sequential global sequence numbers: expected {expected}, "
      ++ s!"found {actual} (batch: {all})"
  | nonSequentialSequence batch root expected actual =>
    s!"Batch {batch} has non-sequential sequence numbers for aggregate root {root}: "
      ++ s!"expected {expected}, found {actual}"

namespace Batch

/-- The numbers of an event that a batch is checked by. -/
structure Numbers where
  /-- The root that emitted the event. -/
  root : String
  /-- The number in the root's history. -/
  sequence : Int
  /-- The number in the log. -/
  position : Int
deriving DecidableEq

/-- The numbers of an event, or the first key that cannot be read. -/
def numbersOf (e : Event) : Except String Numbers :=
  match e.root, e.sequence, e.position with
  | .ok root, .ok sequence, .ok position => .ok ⟨root, sequence, position⟩
  | .error _, _, _ => .error Metadata.Key.root
  | .ok _, .error _, _ => .error Metadata.Key.sequence
  | .ok _, .ok _, .error _ => .error Metadata.Key.position

/-- The numbers of all events, counted from `index`. -/
def numbersFrom (batch : Uuid) : Nat → List Event → Except BatchError (List Numbers)
  | _, [] => .ok []
  | index, e :: rest =>
    match numbersOf e with
    | .error key => .error (.missingMetadata batch index key)
    | .ok n =>
      match numbersFrom batch (index + 1) rest with
      | .ok ns => .ok (n :: ns)
      | .error err => .error err

/-- The lowest sequence number of every root. -/
def lowest : Table String Int → List Numbers → Table String Int
  | t, [] => t
  | t, n :: rest =>
    let least := match t.get? n.root with
      | some m => min m n.sequence
      | none => n.sequence
    lowest (t.insert n.root least) rest

/-- Check the events one after the other, given the position and the sequence numbers that come
next. These are words that are counted up, so `Word64.wrap` applies. -/
def checkFrom (batch : Uuid) (positions : List Int) :
    Int → Table String Int → List Numbers → Except BatchError Unit
  | _, _, [] => .ok ()
  | position, next, n :: rest =>
    if n.position ≠ position then
      .error (.nonSequentialPosition batch position n.position positions)
    else
      -- Every root has an entry from the start, its lowest number.
      let expected := (next.get? n.root).getD n.sequence
      if n.sequence ≠ expected then
        .error (.nonSequentialSequence batch n.root expected n.sequence)
      else checkFrom batch positions (Word64.wrap (position + 1))
        (next.insert n.root (Word64.wrap (expected + 1))) rest

/-- Check the numbering of a batch. -/
def checkIntegrity (batch : Uuid) (events : List Event) : Except BatchError Unit :=
  match numbersFrom batch 0 events with
  | .error err => .error err
  | .ok [] => .ok ()
  | .ok (first :: rest) =>
    let ns := first :: rest
    checkFrom batch (ns.map Numbers.position) first.position (lowest Table.empty ns) ns

end Batch

end Chronicle
