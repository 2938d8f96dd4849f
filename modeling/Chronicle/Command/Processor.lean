import Chronicle.Batch.Numbering
import Chronicle.Command.Failure
import Chronicle.Data.Word

namespace Chronicle

/-!
# Processing commands

* `Processor.attempt` — executes a command once in a fresh unit of work, numbers the emitted events
  and saves them as one batch.
* `Processor.processFrom` — repeats attempts that meet a conflict, up to a number of retries, and hands
  the committed events to every dispatcher; `Processor.process` starts with the first attempt.
* `Dispatcher σ δ` — receives committed events; it keeps a state of its own in `δ` and may read the
  store.
-/

/-- Receives committed events. -/
abbrev Dispatcher (σ δ : Type) := List Event → σ × δ → σ × δ

/-- What a command did. -/
structure CommandResult where
  /-- The committed batch; none if the command emitted nothing. -/
  batch : Option Uuid
  /-- The position of the last committed event. -/
  position : Option Int
  /-- Number of attempts, as it was counted: an unsigned 32-bit number. -/
  attempts : Nat
  /-- The events as stored. -/
  events : List Event

/-- Number of committed events. -/
def CommandResult.committed (r : CommandResult) : Nat := r.events.length

/-- How an attempt ends if it does not fail. -/
inductive Attempt where
  /-- The events are stored; there is no batch if there are no events. -/
  | committed (batch : Option Uuid) (events : List Event)
  /-- A number was taken. -/
  | conflict (c : Conflict)

/-- Executes commands and commits their events. -/
structure Processor (σ δ κ S : Type) where
  /-- Loads roots. -/
  repository : Repository σ
  /-- The aggregate types. -/
  types : κ → AggregateType S
  /-- How often a command is tried again after a conflict, an unsigned 32-bit number. -/
  maxRetries : Nat
  /-- The ids of new batches, by the number of batches numbered before. -/
  batchId : Nat → Uuid
  /-- Who receives committed events, in order. -/
  dispatchers : List (Dispatcher σ δ)

/-- What processing reads and changes. -/
structure Processing (σ δ : Type) where
  /-- What loading reads and changes. -/
  backing : Backing σ
  /-- The state of the dispatchers. -/
  audience : δ
  /-- Number of batches numbered so far. -/
  numbered : Nat := 0

namespace Processor

variable {σ δ κ S : Type}

/-- Save the emitted events as one batch. -/
def commit (p : Processor σ δ κ S) (metadata : Metadata) (pending : List Pending)
    (batch : Uuid) (b : Backing σ) : Except CommandFailure Attempt × Backing σ :=
  match p.repository.store.nextPosition b.store with
  | (.error err, store) => (.error (.store err), { b with store })
  | (.ok position, store) =>
    let events := Batch.number ⟨batch, b.now, metadata⟩ position pending
    match Batch.checkIntegrity batch events with
    | .error err => (.error (.integrity err), { b with store })
    | .ok _ =>
      match p.repository.store.save batch events store with
      | (.error err, store) => (.error (.store err), { b with store })
      | (.ok (.conflict c), store) => (.ok (.conflict c), { b with store })
      | (.ok (.committed events), store) => (.ok (.committed (some batch) events), { b with store })

/-- Execute a command once. -/
def attempt [DecidableEq κ] (p : Processor σ δ κ S) (c : Command κ S) (w : Processing σ δ) :
    Except CommandFailure Attempt × Processing σ δ :=
  match c.program.run p.types p.repository UnitOfWork.empty w.backing with
  | (some err, _, backing) => (.error (.ofExecution err), { w with backing })
  | (none, work, backing) =>
    let pending := work.takePending.1
    if pending.isEmpty then (.ok (.committed none []), { w with backing })
    else
      let (outcome, backing) := p.commit c.metadata pending (p.batchId w.numbered) backing
      (outcome, { w with backing, numbered := w.numbered + 1 })

/-- Hand committed events to every dispatcher. -/
def announce (p : Processor σ δ κ S) (events : List Event) (w : Processing σ δ) :
    Processing σ δ :=
  let (store, audience) :=
    p.dispatchers.foldl (fun s dispatch => dispatch events s) (w.backing.store, w.audience)
  { w with backing := { w.backing with store }, audience }

/-- The position of the last event, if it can be read. -/
def lastPosition (events : List Event) : Option Int :=
  events.getLast?.bind fun e => e.position.toOption

/-- How often a command is tried again at most: as often as there are retries. If the number of retries
is the greatest word, no counter is greater, and there is no end to it; then the bound is one that no run
reaches. -/
def mostRetries (p : Processor σ δ κ S) : Nat :=
  if p.maxRetries + 1 < Word32.count then p.maxRetries else p.maxRetries + Word64.count

/-- Attempt a command until an attempt meets no conflict, or the counter is greater than the number of
retries; `attempts` counts this attempt, and `bound` is how many more are made at most. The counter is a
word, so `Word32.next` applies. -/
def processFrom [DecidableEq κ] (p : Processor σ δ κ S) (c : Command κ S) :
    Nat → Nat → Processing σ δ → Except CommandError CommandResult × Processing σ δ
  | bound, attempts, w =>
    match p.attempt c w with
    | (.error cause, w) => (.error ⟨c.label, attempts, cause⟩, w)
    | (.ok (.committed batch events), w) =>
      (.ok ⟨batch, lastPosition events, attempts, events⟩, p.announce events w)
    | (.ok (.conflict conflict), w) =>
      if p.maxRetries < attempts then (.error ⟨c.label, attempts, .conflict conflict⟩, w)
      else
        -- Nothing of the attempt is left: the next one starts in a fresh unit of work.
        match bound with
        | 0 => (.error ⟨c.label, attempts, .conflict conflict⟩, w)
        | bound + 1 => processFrom p c bound (Word32.next attempts) w

/-- Process a command. -/
def process [DecidableEq κ] (p : Processor σ δ κ S) (c : Command κ S) (w : Processing σ δ) :
    Except CommandError CommandResult × Processing σ δ :=
  p.processFrom c p.mostRetries (Word32.next 0) w

end Processor

end Chronicle
