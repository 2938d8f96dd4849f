import Chronicle.Command.Program
import Chronicle.Sample.Aggregates

namespace Chronicle.Sample

/-!
# Commands of the sample application

* `Request.command` — emits events on one root.
* `Deed`, `deedsCommand` — acquires roots one after the other and emits events on each.
-/

/-- The step at the end of a command: it fails if there is a reason to. -/
def ending (reason : Option String) : Program Kind State :=
  match reason with
  | some text => .fail (.app (.text text))
  | none => .done

/-- The end of a script: it fails if there is a reason to. -/
def scriptEnding (reason : Option String) : Script State :=
  match reason with
  | some text => .fail (.text text)
  | none => .done

/-- A request to emit events on one root. -/
structure Request where
  /-- The kind of the root. -/
  kind : Kind
  /-- The id of the root. -/
  id : String
  /-- The text that names the request. -/
  label : String
  /-- The events. -/
  events : List Event
  /-- The reason to give up after the events, if there is one. -/
  reason : Option String := none
  /-- Metadata for the events. -/
  metadata : Metadata := Dict.empty

/-- The command that a request asks for. -/
def Request.command (r : Request) : Command Kind State where
  label := r.label
  program := Program.single r.kind r.id fun _ => Script.emitAll (scriptEnding r.reason) r.events
  metadata := r.metadata

/-- One root that a command acquires, and the events it emits on it. -/
structure Deed where
  /-- How the root is acquired. -/
  mode : Acquisition
  /-- The kind of the root. -/
  kind : Kind
  /-- The id of the root. -/
  id : String
  /-- The events. -/
  events : List Event

/-- Do deeds in order. Nothing is emitted on a root that does not exist. -/
def deedsProgram (last : Program Kind State) : List Deed → Program Kind State
  | [] => last
  | d :: rest => Program.acquiring d.mode d.kind d.id fun
    | some _ => Program.emitAll d.id (deedsProgram last rest) d.events
    | none => deedsProgram last rest

/-- The command that does deeds in order. -/
def deedsCommand (label : String) (deeds : List Deed) (reason : Option String)
    (metadata : Metadata) : Command Kind State where
  label := label
  program := deedsProgram (ending reason) deeds
  metadata := metadata

end Chronicle.Sample
