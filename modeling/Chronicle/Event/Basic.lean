import Chronicle.Metadata
import Chronicle.Text.Numeral
import Chronicle.Time.Instant

namespace Chronicle

/-!
# Events

* `Event` — an immutable fact: a type tag, a payload and metadata.
* `Event.root`, `Event.sequence`, `Event.position`, `Event.batchId`, `Event.time` — what the
  metadata say about where an event comes from and where it stands.
* `EventError` — why a piece of metadata or a payload could not be read.
* `Event.decoder` — reads an event from JSON; `Event.ofValue_json` says that it reads what
  `Event.json` writes.
-/

/-- A fact that has happened. -/
structure Event where
  /-- The type tag. -/
  tag : String
  /-- What the event says. -/
  payload : Json
  /-- Where the event comes from and where it stands. -/
  metadata : Metadata

/-- Why something could not be read from an event. -/
inductive EventError where
  /-- The event has no metadata under a key. -/
  | missing (tag key : String)
  /-- The metadata under a key do not have the form they need. -/
  | invalid (tag key value : String)
  /-- The payload does not have the shape that was asked for. -/
  | payload (fault : Json.Fault)
deriving DecidableEq

/-- The error as a sentence. -/
def EventError.message : EventError → String
  | missing tag key => s!"Event {tag} has no '{key}' metadata"
  | invalid tag key value => s!"Event {tag} has invalid '{key}' metadata: {value}"
  | payload _ => "Payload serialization error"

namespace Event

/-- The tag that stands for every event. -/
def universalTag : String := "DomainEvent"

/-- The tag of an event that holds a batch of events. -/
def batchTag : String := "DomainEventBatch"

/-- An event without metadata. -/
def new (tag : String) (payload : Json) : Event := ⟨tag, payload, Dict.empty⟩

instance : Inhabited Event := ⟨new "" .null⟩

/-- The event with one piece of metadata set. -/
def withMetadata (e : Event) (key value : String) : Event :=
  { e with metadata := e.metadata.insert key value }

@[simp] theorem tag_withMetadata (e : Event) (key value : String) :
    (e.withMetadata key value).tag = e.tag := rfl

@[simp] theorem payload_withMetadata (e : Event) (key value : String) :
    (e.withMetadata key value).payload = e.payload := rfl

@[simp] theorem metadata_withMetadata (e : Event) (key value : String) :
    (e.withMetadata key value).metadata = e.metadata.insert key value := rfl

/-! ### Reading the metadata -/

/-- The metadata under a key. -/
def require (e : Event) (key : String) : Except EventError String :=
  match e.metadata.get? key with
  | some value => .ok value
  | none => .error (.missing e.tag key)

/-- The metadata under a key, in the form that `form` reads. -/
def readAs {α : Type} (form : String → Option α) (e : Event) (key : String) :
    Except EventError α :=
  match e.metadata.get? key with
  | none => .error (.missing e.tag key)
  | some value =>
    match form value with
    | some a => .ok a
    | none => .error (.invalid e.tag key value)

/-- The id of the root that emitted the event. -/
def root (e : Event) : Except EventError String := e.require Metadata.Key.root

/-- The number of the event in its root's history. -/
def sequence (e : Event) : Except EventError Int := e.readAs Numeral.read? Metadata.Key.sequence

/-- The number of the event in the log. -/
def position (e : Event) : Except EventError Int := e.readAs Numeral.read? Metadata.Key.position

/-- The id of the batch the event was committed in. -/
def batchId (e : Event) : Except EventError Uuid := e.readAs Uuid.read? Metadata.Key.batch

/-- The time the event was numbered. -/
def time (e : Event) : Except EventError Instant := e.readAs Instant.read? Metadata.Key.time

/-- The tag and the position of the event, the way messages name it. -/
def display (e : Event) : String :=
  e.tag ++ "(" ++ (e.metadata.get? Metadata.Key.position).getD "?" ++ ")"

/-! ### JSON -/

/-- The event as an object. -/
def json (e : Event) : Json :=
  .obj [("event_type", .str e.tag), ("meta", e.metadata.json), ("payload", e.payload)]

/-- The fields of an event that have been read. -/
structure Draft where
  /-- The type tag. -/
  tag : Option String := none
  /-- The payload. -/
  payload : Option Json := none
  /-- The metadata. -/
  metadata : Option Metadata := none

/-- The fields of an event in order; all of them are needed. -/
def shape : Decoder.Shape Draft Event where
  fields := [
    Decoder.field "event_type" Decoder.string fun a d => { d with tag := some a },
    Decoder.field "payload" Decoder.any fun a d => { d with payload := some a },
    Decoder.field "meta" Metadata.decoder fun a d => { d with metadata := some a }]
  start := {}
  complete d := do return ⟨← d.tag, ← d.payload, ← d.metadata⟩

/-- Reads an event. -/
def decoder : Decoder Event := Decoder.struct shape

/-- An event written as an object reads back. -/
@[simp] theorem ofValue_json (e : Event) : decoder.ofValue e.json = some e := by
  simp [decoder, Decoder.struct, json, shape, Decoder.ofMembers, Table.find, Decoder.field,
    Decoder.string, Decoder.any, Json.str?]

end Event

end Chronicle
