import Chronicle.Batch.Integrity

namespace Chronicle

/-!
# The contract of an event store

* `EventStore σ` — what a store with state `σ` can do: commit a batch, read one root's history, read
  the log, tell the next position.
* `SaveOutcome`, `Conflict` — what becomes of a batch. A conflict is no error: the batch may be
  numbered anew and saved again.
* `StoreError` — why a store failed.

A store is the one place where writers meet: whatever other writers do between two calls is part of
the state `σ`.
-/

/-- Why a store failed. -/
inductive StoreError where
  /-- The storage cannot be reached. -/
  | connection (text : String)
  /-- The batch is not numbered as it should. -/
  | integrity (cause : BatchError)
  /-- The metadata of an event cannot be read. -/
  | invalidEvent (cause : EventError)
  /-- The storage failed. -/
  | storage (text : String)
deriving DecidableEq

/-- The error as a sentence. -/
def StoreError.message : StoreError → String
  | connection text => s!"Connection error: {text}"
  | integrity cause => cause.message
  | invalidEvent cause => s!"Invalid event data: {cause.message}"
  | storage text => s!"Storage error: {text}"

/-- The number that a rejected batch wanted to take. -/
inductive ConflictKind where
  /-- A number in the history of a root. -/
  | sequence (root : String) (number : Int)
  /-- A position in the log. -/
  | position (number : Int)
deriving DecidableEq

/-- The number as a clause. -/
def ConflictKind.message : ConflictKind → String
  | sequence root number => s!"aggregate root {root} already has sequence number {number}"
  | position number => s!"global sequence number {number} is taken"

/-- A batch was rejected because a number it wanted is taken. -/
structure Conflict where
  /-- The rejected batch. -/
  batch : Uuid
  /-- The taken number. -/
  kind : ConflictKind
deriving DecidableEq

namespace Conflict

/-- The conflict as a sentence. -/
def message (c : Conflict) : String :=
  s!"Concurrency conflict saving batch {c.batch}: {c.kind.message}"

/-! ### JSON -/

/-- The kind of a conflict under its name. -/
def kindJson : ConflictKind → Json
  | .sequence root number => Json.record [("AggregateSequence",
      Json.record [("aggregate_root_id", .str root), ("sequence_number", .int number)])]
  | .position number => Json.record [("GlobalSequence",
      Json.record [("global_sequence_number", .int number)])]

/-- The conflict as an object. -/
def json (c : Conflict) : Json :=
  Json.record [("batch_id", .str c.batch.text), ("kind", kindJson c.kind)]

/-- Reads a taken sequence number. -/
def sequenceDecoder : Decoder ConflictKind := Decoder.struct {
  fields := [
    Decoder.field "aggregate_root_id" Decoder.string fun a d => (some a, d.2),
    Decoder.field "sequence_number" Decoder.word64 fun a d => (d.1, some a)]
  start := ((none : Option String), (none : Option Int))
  complete := fun d => do return .sequence (← d.1) (← d.2) }

/-- Reads a taken position. -/
def positionDecoder : Decoder ConflictKind := Decoder.struct {
  fields := [Decoder.field "global_sequence_number" Decoder.word64 fun a _ => some a]
  start := (none : Option Int)
  complete := fun d => d.map .position }

/-- Reads the kind of a conflict. -/
def kindDecoder : Decoder ConflictKind := Decoder.variant [
  ("AggregateSequence", sequenceDecoder), ("GlobalSequence", positionDecoder)]

/-- Reads a conflict. -/
def decoder : Decoder Conflict := Decoder.struct {
  fields := [
    Decoder.field "batch_id" (Decoder.string.filterMap Uuid.read?) fun a d => (some a, d.2),
    Decoder.field "kind" kindDecoder fun a d => (d.1, some a)]
  start := ((none : Option Uuid), (none : Option ConflictKind))
  complete := fun d => do return ⟨← d.1, ← d.2⟩ }

end Conflict

/-- What becomes of a batch that is saved. -/
inductive SaveOutcome where
  /-- All events are stored; they are given as stored. -/
  | committed (events : List Event)
  /-- Nothing is stored. -/
  | conflict (c : Conflict)

/-- The batch was rejected. -/
def SaveOutcome.isConflict : SaveOutcome → Bool
  | committed _ => false
  | conflict _ => true

/-- Stored events in order; reading may fail at any of them. -/
abbrev EventStream := List (Except StoreError Event)

/-- The operations of a store with state `σ`. Each answers and gives the state afterwards. -/
structure EventStore (σ : Type) where
  /-- Commit a batch: all of it or nothing. -/
  save : Uuid → List Event → σ → Except StoreError SaveOutcome × σ
  /-- The events of a root from a sequence number on, in their order. -/
  load : String → Int → σ → Except StoreError EventStream × σ
  /-- All events from a position on, in their order. -/
  stream : Int → σ → Except StoreError EventStream × σ
  /-- The position of the event that is committed next. -/
  nextPosition : σ → Except StoreError Int × σ

/-- All events of a stream, or the first error. -/
def EventStream.collect : EventStream → Except StoreError (List Event)
  | [] => .ok []
  | .error err :: _ => .error err
  | .ok e :: rest =>
    match collect rest with
    | .ok es => .ok (e :: es)
    | .error err => .error err

@[simp] theorem EventStream.collect_map_ok (events : List Event) :
    EventStream.collect (events.map .ok) = .ok events := by
  induction events with
  | nil => rfl
  | cons e rest ih => simp [collect, ih]

end Chronicle
