import Chronicle.Store.Log

namespace Chronicle

/-!
# A store that misbehaves as it is told

* `Faults` — what goes wrong: errors, conflicts, other writers, broken streams.
* `ScriptedStore` — a log with faults, which remembers the batches it was asked to save.
* `ScriptedStore.store` — its operations as an `EventStore`.

It stands in for a store that is shared with other writers and may fail, so that the way the rest of
the library copes can be tried out.
-/

/-- A batch that another writer saves. -/
structure Race where
  /-- The id of the batch. -/
  batch : Uuid
  /-- Its events. -/
  events : List Event

/-- A stream ends early with an error. -/
structure BrokenItem where
  /-- How many items come before the error. -/
  place : Nat
  /-- The error. -/
  error : StoreError

/-- What goes wrong. -/
structure Faults where
  /-- Every save fails. -/
  save : Option StoreError := none
  /-- How many saves meet a conflict. -/
  conflicts : Nat := 0
  /-- What other writers do before the next saves, one entry for each. -/
  races : List (Option Race) := []
  /-- Every read of a history fails. -/
  load : Option StoreError := none
  /-- What histories consist of, instead of the events of the log. -/
  history : Option (List Event) := none
  /-- Histories break off. -/
  loadItem : Option BrokenItem := none
  /-- Every read of the log fails. -/
  stream : Option StoreError := none
  /-- Reads of the log break off. -/
  streamItem : Option BrokenItem := none
  /-- The next position cannot be told. -/
  next : Option StoreError := none
  /-- How far off the next position is told. -/
  nextOffset : Int := 0

/-- The error that a text asks for. -/
def StoreError.ofText (text : String) : StoreError :=
  match text.dropPrefix? "connection: " with
  | some rest => .connection rest.toString
  | none => .storage text

/-- A log that misbehaves as it is told. -/
structure ScriptedStore where
  /-- The log. -/
  log : Log := Log.empty
  /-- What goes wrong. -/
  faults : Faults := {}
  /-- The batches it was asked to save, in order. -/
  asked : List Uuid := []

namespace ScriptedStore

/-- The stream after some items of which an error comes, if there is such an error. -/
def breakOff (events : List Event) : Option BrokenItem → EventStream
  | none => events.map .ok
  | some broken => (events.take broken.place).map .ok ++ [.error broken.error]

/-- Whether an event belongs to a history from a sequence number on; one without a number does. -/
def isFrom (first : Int) (e : Event) : Bool :=
  match e.sequence with
  | .ok sequence => decide (first ≤ sequence)
  | .error _ => true

/-- Let the next of the other writers do its work. -/
def race (s : ScriptedStore) : Option StoreError × ScriptedStore :=
  match s.faults.races with
  | [] => (none, s)
  | none :: rest => (none, { s with faults := { s.faults with races := rest } })
  | some r :: rest =>
    -- A conflict of the other writer is its own affair.
    let (outcome, log) := s.log.save r.batch r.events
    let s := { s with log, faults := { s.faults with races := rest } }
    match outcome with
    | .ok _ => (none, s)
    | .error err => (some err, s)

/-- Save a batch: an error or a conflict if the script says so; else the log saves it, after another
writer. -/
def save (batch : Uuid) (events : List Event) (s : ScriptedStore) :
    Except StoreError SaveOutcome × ScriptedStore :=
  let s := { s with asked := s.asked ++ [batch] }
  match s.faults.save, s.faults.conflicts with
  | some err, _ => (.error err, s)
  | none, conflicts + 1 =>
    (.ok (.conflict ⟨batch, .position s.log.size⟩),
      { s with faults := { s.faults with conflicts } })
  | none, 0 =>
    match s.race with
    | (some err, s) => (.error err, s)
    | (none, s) =>
      let (outcome, log) := s.log.save batch events
      (outcome, { s with log })

/-- The history of a root from a sequence number on. -/
def load (root : String) (first : Int) (s : ScriptedStore) : Except StoreError EventStream :=
  match s.faults.load with
  | some err => .error err
  | none =>
    let events := match s.faults.history with
      | some events => events.filter (isFrom first)
      | none => s.log.load root first
    .ok (breakOff events s.faults.loadItem)

/-- The log from a position on. -/
def stream (first : Int) (s : ScriptedStore) : Except StoreError EventStream :=
  match s.faults.stream with
  | some err => .error err
  | none => .ok (breakOff (s.log.stream first) s.faults.streamItem)

/-- The next position. -/
def nextPosition (s : ScriptedStore) : Except StoreError Int :=
  match s.faults.next with
  | some err => .error err
  | none => .ok (s.log.size + s.faults.nextOffset)

/-- The operations of the store. -/
def store : EventStore ScriptedStore where
  save := save
  load root first s := (s.load root first, s)
  stream first s := (s.stream first, s)
  nextPosition s := (s.nextPosition, s)

/-- Save a batch in the log, past all faults. -/
def saveDirectly (batch : Uuid) (events : List Event) (s : ScriptedStore) :
    Except StoreError SaveOutcome × ScriptedStore :=
  let (outcome, log) := s.log.save batch events
  (outcome, { s with log })

/-- The store, described. -/
def describe (_ : ScriptedStore) : String := "ScriptedStore"

@[simp] theorem breakOff_none (events : List Event) : breakOff events none = events.map .ok := rfl

end ScriptedStore

end Chronicle
