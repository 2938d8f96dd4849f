import Chronicle.UnitOfWork

namespace Chronicle

/-!
# Numbering a batch

* `Batch.number` — turns the events emitted on roots into a batch: sequence numbers go on from each
  root's history, positions from the next one of the store, and every event is stamped with the
  batch and the time.

Positions are provisional, since the store assigns the final ones. Metadata of the command fill in
what the events do not have.
-/

namespace Batch

/-- What all events of a batch have in common. -/
structure Stamp where
  /-- The batch. -/
  batch : Uuid
  /-- The time of numbering. -/
  time : Instant
  /-- The metadata of the command. -/
  metadata : Metadata

/-- An event with its numbers and the stamp of its batch. -/
def Stamp.mark (s : Stamp) (sequence position : Int) (e : Event) : Event :=
  -- What the library sets replaces what the emitter set; what the command sets does not.
  { e with metadata :=
      ((((e.metadata.insert Metadata.Key.sequence (toString sequence)).insert
        Metadata.Key.position (toString position)).insert
        Metadata.Key.batch s.batch.text).insert
        Metadata.Key.time s.time.rfc3339).merge s.metadata }

/-- Number the events of one root from a sequence number and a position on. The numbers that are
given out are words: behind the greatest comes the least. -/
def Stamp.markFrom (s : Stamp) : Int → Int → List Event → List Event
  | _, _, [] => []
  | sequence, position, e :: rest =>
    s.mark (Word64.wrap sequence) (Word64.wrap position) e
      :: s.markFrom (sequence + 1) (position + 1) rest

/-- Number the events of all roots from a position on, root by root. -/
def number (s : Stamp) : Int → List Pending → List Event
  | _, [] => []
  | position, p :: rest =>
    s.markFrom (p.sequence + 1) position p.events
      ++ number s (position + p.events.length) rest

@[simp] theorem Stamp.tag_mark (s : Stamp) (sequence position : Int) (e : Event) :
    (s.mark sequence position e).tag = e.tag := rfl

@[simp] theorem Stamp.payload_mark (s : Stamp) (sequence position : Int) (e : Event) :
    (s.mark sequence position e).payload = e.payload := rfl

@[simp] theorem Stamp.length_markFrom (s : Stamp) (sequence position : Int) (events : List Event) :
    (s.markFrom sequence position events).length = events.length := by
  induction events generalizing sequence position with
  | nil => rfl
  | cons e rest ih => simp [markFrom, ih]

end Batch

end Chronicle
