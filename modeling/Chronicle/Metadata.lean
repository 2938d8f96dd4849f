import Chronicle.Json.Decoder
import Chronicle.Uuid

namespace Chronicle

/-!
# Event metadata

* `Metadata` — the keys and texts that travel with an event, in key order.
* `Metadata.Key` — the keys this library sets itself.
* `Metadata.display`, `Metadata.json` — metadata as a line of text and as an object.
-/

/-- Keys and texts attached to an event. -/
abbrev Metadata := Dict String

namespace Metadata

/-! ### Keys -/

namespace Key

/-- The id of the aggregate root that emitted the event. -/
def root : String := "aggregate_root_id"

/-- The number of the event in its root's history. -/
def sequence : String := "seq"

/-- The number of the event in the whole log. -/
def position : String := "global_seq"

/-- The id of the batch the event was committed in. -/
def batch : String := "batch_id"

/-- The time the event was numbered. -/
def time : String := "time_utc"

/-- The aggregate type of the root that emitted the event. -/
def rootType : String := "root_type"

/-- The keys that only this library sets. -/
def reserved : List String := [root, sequence, position, batch, time, rootType]

end Key

/-! ### Texts -/

/-- The entries as one line, in key order. -/
def display (m : Metadata) : String :=
  ", ".intercalate (m.entries.map fun e => "\"" ++ e.1 ++ "\": \"" ++ e.2 ++ "\"")

/-- The metadata as an object. -/
def json (m : Metadata) : Json := .obj (m.entries.map fun e => (e.1, .str e.2))

/-- Reads metadata from an object of texts. -/
def decoder : Decoder Metadata := Decoder.strings

theorem stringMembers?_map (l : List (String × String)) :
    Decoder.stringMembers? (l.map fun e => (e.1, Json.str e.2)) = some l := by
  induction l with
  | nil => rfl
  | cons e rest ih => simp [Decoder.stringMembers?, ih, Json.str?]

/-- Metadata written as an object reads back. -/
@[simp] theorem ofValue_json (m : Metadata) : decoder.ofValue m.json = some m := by
  simp [decoder, Decoder.strings, json, Json.members?, stringMembers?_map]

end Metadata

end Chronicle
