import Chronicle.Event.Batch
import Chronicle.Event.Payload

namespace Chronicle

/-!
# Aggregates and their roots

* `AggregateType S` — how states of type `S` follow from events, how they are kept in snapshots, and
  what happens when a root is created.
* `Root S` — one aggregate: its id, its state, how far its history goes, and the events emitted on
  it that are not committed yet.
* `Root.emit` — applies an event to the state and keeps it for the next commit.
* `Root.replay` — applies a committed event.
* `Script S` — what application code does with a root: it emits events, one after the other, and
  sees after each what became of it.

A state is never stored: it is what the events of the root make of the initial state.
-/

/-- Why application code refuses an event or a request. -/
inductive AppError where
  /-- A reason in words. -/
  | text (message : String)
  /-- Something could not be read from an event. -/
  | event (cause : EventError)
deriving DecidableEq

/-- The error as a sentence. -/
def AppError.message : AppError → String
  | text message => message
  | event cause => cause.message

/-! ### Roots -/

/-- One aggregate with a state of type `S`. -/
structure Root (S : Type) where
  /-- The id of the root. -/
  id : String
  /-- The sequence number of the last committed event; -1 without history. -/
  sequence : Int := -1
  /-- The position of the last committed event; -1 without history. -/
  cutoff : Int := -1
  /-- The events emitted and not committed yet. -/
  uncommitted : List Event := []
  /-- The state. -/
  state : S

/-- The sequence number and the position before the first event. -/
def Root.noNumber : Int := -1

/-- A committed event has been applied. -/
def Root.hasHistory {S : Type} (r : Root S) : Bool := Root.noNumber < r.sequence

/-- What application code does with a root it holds. -/
inductive Script (S : Type) where
  /-- It is done. -/
  | done
  /-- It gives up. -/
  | fail (err : AppError)
  /-- It emits an event and goes on with the root as it is then and the error of the event, if the
  event was refused. -/
  | emit (e : Event) (next : Root S → Option AppError → Script S)

/-- How states of type `S` follow from events. -/
structure AggregateType (S : Type) where
  /-- The name of the type. -/
  name : String
  /-- The state without any event. -/
  initial : S
  /-- Apply an event: the state afterwards, and the error if the event is refused. A refused event
  may leave another state behind. -/
  apply : S → Event → S × Option AppError
  /-- The form of a state in a snapshot, if it has one. -/
  encode : S → Option Json
  /-- The state that a snapshot holds, if it can be read. -/
  decode : Json → Option S
  /-- What happens when a root without history is created. -/
  created : Root S → Script S := fun _ => .done

namespace Root

variable {S : Type}

/-- A root without history. -/
def new (T : AggregateType S) (id : String) : Root S := { id, state := T.initial }

@[simp] theorem sequence_new (T : AggregateType S) (id : String) : (new T id).sequence = -1 := rfl

@[simp] theorem cutoff_new (T : AggregateType S) (id : String) : (new T id).cutoff = -1 := rfl

@[simp] theorem hasHistory_new (T : AggregateType S) (id : String) :
    (new T id).hasHistory = false := rfl

@[simp] theorem state_new (T : AggregateType S) (id : String) :
    (new T id).state = T.initial := rfl

/-! ### Emitting and replaying -/

/-- An event marked with the root that emits it. -/
def mark (T : AggregateType S) (r : Root S) (e : Event) : Event :=
  (e.withMetadata Metadata.Key.root r.id).withMetadata Metadata.Key.rootType T.name

/-- Apply an event that carries the root's mark, and keep it unless it is refused. -/
def buffer (T : AggregateType S) (r : Root S) (e : Event) : Root S × Option AppError :=
  match T.apply r.state e with
  | (state, none) => ({ r with state, uncommitted := r.uncommitted ++ [e] }, none)
  | (state, some err) => ({ r with state }, some err)

/-- Emit an event: mark it, apply it to the state, and keep it unless it is refused. -/
def emit (T : AggregateType S) (r : Root S) (e : Event) : Root S × Option AppError :=
  r.buffer T (r.mark T e)

/-- Apply a committed event with its sequence number and its position. -/
def replay (T : AggregateType S) (r : Root S) (e : Event) (sequence position : Int) :
    Except AppError (Root S) :=
  match T.apply r.state e with
  | (state, none) => .ok { r with state, sequence, cutoff := position }
  | (_, some err) => .error err

/-- The root without its uncommitted events. -/
def drained (r : Root S) : Root S := { r with uncommitted := [] }

@[simp] theorem id_emit (T : AggregateType S) (r : Root S) (e : Event) :
    (r.emit T e).1.id = r.id := by
  unfold emit buffer
  split <;> rfl

@[simp] theorem sequence_emit (T : AggregateType S) (r : Root S) (e : Event) :
    (r.emit T e).1.sequence = r.sequence := by
  unfold emit buffer
  split <;> rfl

@[simp] theorem cutoff_emit (T : AggregateType S) (r : Root S) (e : Event) :
    (r.emit T e).1.cutoff = r.cutoff := by
  unfold emit buffer
  split <;> rfl

/-- An event that is refused is not kept. -/
theorem uncommitted_emit (T : AggregateType S) (r : Root S) (e : Event) :
    (r.emit T e).1.uncommitted
      = if (r.emit T e).2.isNone then r.uncommitted ++ [r.mark T e] else r.uncommitted := by
  unfold emit buffer
  split <;> rfl

end Root

/-! ### Scripts -/

namespace Script

variable {S : Type}

/-- Run a script on a root: the root afterwards, and the error if the script gives up. -/
def run (T : AggregateType S) : Script S → Root S → Root S × Option AppError
  | done, r => (r, none)
  | fail err, r => (r, some err)
  | emit e next, r =>
    let (r, err) := r.emit T e
    run T (next r err) r

@[simp] theorem id_run (T : AggregateType S) (script : Script S) (r : Root S) :
    (script.run T r).1.id = r.id := by
  induction script generalizing r with
  | done => rfl
  | fail err => rfl
  | emit e next ih => exact (ih _ _ _).trans (Root.id_emit T r e)

@[simp] theorem sequence_run (T : AggregateType S) (script : Script S) (r : Root S) :
    (script.run T r).1.sequence = r.sequence := by
  induction script generalizing r with
  | done => rfl
  | fail err => rfl
  | emit e next ih => exact (ih _ _ _).trans (Root.sequence_emit T r e)

@[simp] theorem cutoff_run (T : AggregateType S) (script : Script S) (r : Root S) :
    (script.run T r).1.cutoff = r.cutoff := by
  induction script generalizing r with
  | done => rfl
  | fail err => rfl
  | emit e next ih => exact (ih _ _ _).trans (Root.cutoff_emit T r e)

/-- Emit events in order up to the first one that is refused, and fail with its error; if none is
refused, go on. -/
def emitAll (last : Script S) : List Event → Script S
  | [] => last
  | e :: rest => emit e fun _ err =>
    match err with
    | none => emitAll last rest
    | some err => fail err

end Script

end Chronicle
