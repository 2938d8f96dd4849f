import Chronicle.Store.Basic

namespace Chronicle

/-!
# The event log in memory

* `Log` — the committed events by position, and for every root the positions of its events by
  sequence number.
* `Log.save` — numbers a batch, checks it against the log and appends it: all of it or nothing.
* `Log.HasRoom` — what the log can hold: a list in memory has no more items than `Word64.greatest`.
* `Log.load`, `Log.stream` — read the history of a root and the log.
* `Log.store` — the log as an `EventStore`.
-/

/-- The committed events. -/
structure Log where
  /-- The events; the index is the position. -/
  events : List Event := []
  /-- For every root the positions of its events; the index is the sequence number. -/
  index : Table String (List Nat) := Table.empty

namespace Log

/-- The log without events. -/
def empty : Log := {}

instance : Inhabited Log := ⟨empty⟩

/-- Number of committed events. -/
def size (log : Log) : Nat := log.events.length

/-- Whether nothing has been committed. -/
def isEmpty (log : Log) : Bool := log.size = 0

/-- Number of committed events of a root. -/
def stored (log : Log) (root : String) : Nat := ((log.index.get? root).getD []).length

/-! ### Saving -/

/-- Events stamped with consecutive positions and the batch they belong to. -/
def stamp (batch : Uuid) : Nat → List Event → List Event
  | _, [] => []
  | position, e :: rest =>
    (e.withMetadata Metadata.Key.position (toString (position : Int))).withMetadata
      Metadata.Key.batch batch.text :: stamp batch (position + 1) rest

/-- What the uniqueness check finds. -/
inductive Verdict where
  /-- Every event continues the history of its root. -/
  | fits
  /-- A sequence number is taken. -/
  | taken (root : String) (sequence : Int)
deriving DecidableEq

/-- Check that every event continues the history of its root; `next` holds the sequence number that
comes next for the roots met so far. -/
def checkFrom (log : Log) (batch : Uuid) :
    Table String Int → List Event → Except StoreError Verdict
  | _, [] => .ok .fits
  | next, e :: rest =>
    match e.root, e.sequence with
    | .error err, _ => .error (.invalidEvent err)
    | .ok _, .error err => .error (.invalidEvent err)
    | .ok root, .ok sequence =>
      let stored : Int := log.stored root
      let expected := (next.get? root).getD stored
      -- Somebody else was faster: the batch may be numbered anew.
      if sequence < stored then .ok (.taken root sequence)
      else if sequence ≠ expected then
        .error (.storage (s!"batch {batch} would leave a gap in aggregate root {root}: "
          ++ s!"expected sequence number {expected}, got {sequence}"))
      else checkFrom log batch (next.insert root (expected + 1)) rest

/-- Append one event to the log and to the history of its root. -/
def append (log : Log) (root : String) (e : Event) : Log where
  events := log.events ++ [e]
  index := log.index.insert root ((log.index.get? root).getD [] ++ [log.size])

/-- Append events one after the other; the events already appended stay if one has no root. -/
def appendAll : Log → List Event → Except StoreError Unit × Log
  | log, [] => (.ok (), log)
  | log, e :: rest =>
    match e.root with
    | .error err => (.error (.invalidEvent err), log)
    | .ok root => appendAll (log.append root e) rest

/-- The log can hold the events besides those it has: its size stays a word, as that of any list in
memory does. -/
def HasRoom (log : Log) (events : List Event) : Prop :=
  (log.size + events.length : Int) ≤ Word64.greatest

instance (log : Log) (events : List Event) : Decidable (log.HasRoom events) :=
  inferInstanceAs (Decidable (_ ≤ _))

/-- Commit a batch. -/
def save (batch : Uuid) (events : List Event) (log : Log) :
    Except StoreError SaveOutcome × Log :=
  if events.isEmpty then (.ok (.committed []), log)
  else if ¬ log.HasRoom events then (.error (.storage "capacity overflow"), log)
  else
    -- The log alone decides on positions, whatever the events say.
    let events := stamp batch log.size events
    match Batch.checkIntegrity batch events with
    | .error err => (.error (.integrity err), log)
    | .ok _ =>
      match log.checkFrom batch Table.empty events with
      | .error err => (.error err, log)
      | .ok (.taken root sequence) => (.ok (.conflict ⟨batch, .sequence root sequence⟩), log)
      | .ok .fits =>
        match log.appendAll events with
        | (.error err, log) => (.error err, log)
        | (.ok _, log) => (.ok (.committed events), log)

/-! ### Reading -/

/-- The events of a root from a sequence number on. -/
def load (root : String) (first : Int) (log : Log) : List Event :=
  (((log.index.get? root).getD []).drop first.toNat).filterMap fun i => log.events[i]?

/-- The events from a position on. -/
def stream (first : Int) (log : Log) : List Event := log.events.drop first.toNat

/-- So many equal events that continue the history of a root. -/
def continuation (log : Log) (root tag : String) (payload : Json) (count : Nat) : List Event :=
  (List.range count).map fun i =>
    ((Event.new tag payload).withMetadata Metadata.Key.root root).withMetadata
      Metadata.Key.sequence (toString (log.stored root + i))

/-- The log as a store. -/
def store : EventStore Log where
  save := save
  load root first log := (.ok ((log.load root first).map .ok), log)
  stream first log := (.ok ((log.stream first).map .ok), log)
  nextPosition log := (.ok (log.size : Int), log)

@[simp] theorem size_empty : empty.size = 0 := rfl

theorem save_nil (batch : Uuid) (log : Log) : save batch [] log = (.ok (.committed []), log) := rfl

@[simp] theorem length_stamp (batch : Uuid) (position : Nat) (events : List Event) :
    (stamp batch position events).length = events.length := by
  induction events generalizing position with
  | nil => rfl
  | cons e rest ih => simp [stamp, ih]

end Log

end Chronicle
