import Chronicle.Event.Basic

namespace Chronicle

/-!
# Typed payloads

* `PayloadType P` — how events of one tag carry a `P`.
* `Event.ofPayload`, `Event.decode?` — write and read a typed payload.
-/

/-- Events of one tag carry a `P`. -/
structure PayloadType (P : Type) where
  /-- The tag of the events. -/
  tag : String
  /-- The payload of a value. -/
  encode : P → Json
  /-- Reads a payload. -/
  decoder : Decoder P

namespace Event

/-- An event that carries a typed payload. -/
def ofPayload {P : Type} (t : PayloadType P) (p : P) : Event := new t.tag (t.encode p)

/-- The payload of an event read as a `P`, whatever the tag. -/
def readPayload {P : Type} (t : PayloadType P) (e : Event) : Except EventError P :=
  match t.decoder.ofValue e.payload with
  | some p => .ok p
  | none => .error (.payload .mismatch)

/-- The payload of an event read as a `P`; `none` if the event has another tag. -/
def decode? {P : Type} (t : PayloadType P) (e : Event) : Option (Except EventError P) :=
  if e.tag = t.tag then some (e.readPayload t) else none

end Event

end Chronicle
