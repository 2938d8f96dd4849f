import Chronicle.Event.Basic

namespace Chronicle

/-!
# Events that hold a batch

* `Event.batch` — one event that holds a list of events and carries the metadata of the last one.
* `Event.batched?` — the events that such an event holds.
* `Event.batched?_batch` — what was put in comes out.
-/

namespace Event

/-- One event that holds a list of events. It carries the metadata of the last of them, so it stands
where the batch ends. -/
def batch (events : List Event) : Event where
  tag := batchTag
  payload := .arr (events.map json)
  metadata := match events.getLast? with
    | some e => e.metadata
    | none => Dict.empty

/-- Read every item of a list. -/
def readAll (items : List Json) : Option (List Event) := items.mapM decoder.ofValue

/-- The events that an event holds; `none` unless it holds a batch. -/
def batched? (e : Event) : Option (Except EventError (List Event)) :=
  if e.tag = batchTag then
    some (match e.payload.items?.bind readAll with
      | some events => .ok events
      | none => .error (.payload .mismatch))
  else none

theorem readAll_map_json (events : List Event) : readAll (events.map json) = some events := by
  induction events with
  | nil => rfl
  | cons e rest ih =>
    rw [readAll] at ih
    simp [readAll, ih]

/-- What was put into a batch comes out of it. -/
theorem batched?_batch (events : List Event) : (batch events).batched? = some (.ok events) := by
  simp [batched?, batch, Json.items?, readAll_map_json]

end Event

end Chronicle
