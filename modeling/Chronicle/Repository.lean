import Chronicle.Snapshot.Cache
import Chronicle.Store.Basic

namespace Chronicle

/-!
# Loading aggregate roots

* `Root.replayFrom` — applies the stored events of a root up to a position.
* `Repository.hydrate` — a root as it was at a position: the newest snapshot that fits, and the
  events after it.
* `Repository.get`, `Repository.tryGet`, `Repository.loadOrCreate` — the ways to treat a root
  without history.
* `Backing σ` — what loading reads and changes: the store, the snapshot cache, the time.

Roots that took a long replay are put into the snapshot cache.
-/

/-- Why a root could not be loaded. -/
inductive RepositoryError where
  /-- The root has no history. -/
  | notFound (type id : String)
  /-- The store failed. -/
  | store (cause : StoreError)
  /-- A stored event lacks its numbers. -/
  | invalidEvent (cause : EventError)
  /-- The history leaves out or repeats a sequence number. -/
  | inconsistentHistory (id : String) (expected actual : Int)
  /-- The aggregate refuses a stored event. -/
  | apply (id : String) (position : Int) (source : AppError)
  /-- The creation of the root fails. -/
  | creationHook (id : String) (source : AppError)
deriving DecidableEq

namespace RepositoryError

/-- The error as a sentence. -/
def message : RepositoryError → String
  | notFound type id => s!"Aggregate root not found: {type} with id {id}"
  | store cause => s!"Event store error: {cause.message}"
  | invalidEvent cause => s!"Invalid stored event: {cause.message}"
  | inconsistentHistory id expected actual =>
    s!"Inconsistent history for aggregate root {id}: "
      ++ s!"expected sequence number {expected}, found {actual}"
  | apply id position _ => s!"Aggregate root {id} could not apply event {position}"
  | creationHook id _ => s!"Creation hook failed for aggregate root {id}"

/-- The root does not exist. -/
def isNotFound : RepositoryError → Bool
  | notFound _ _ => true
  | _ => false

end RepositoryError

/-! ### Replay -/

/-- Apply stored events in order, up to the first one beyond a position; `n` events have been
applied before. Sequence numbers have to be consecutive. -/
def Root.replayFrom {S : Type} (T : AggregateType S) (bound : Int) :
    Nat → Root S → EventStream → Except RepositoryError (Root S × Nat)
  | n, r, [] => .ok (r, n)
  | _, _, .error err :: _ => .error (.store err)
  | n, r, .ok e :: rest =>
    match e.position with
    | .error err => .error (.invalidEvent err)
    | .ok position =>
      -- Nothing is asked of events beyond the bound, not even a sequence number.
      if bound < position then .ok (r, n)
      else match e.sequence with
        | .error err => .error (.invalidEvent err)
        | .ok sequence =>
          if sequence ≠ r.sequence + 1 then
            .error (.inconsistentHistory r.id (r.sequence + 1) sequence)
          else match r.replay T e sequence position with
            | .error err => .error (.apply r.id position err)
            | .ok r => replayFrom T bound (n + 1) r rest

/-! ### Repositories -/

/-- What loading reads and changes. -/
structure Backing (σ : Type) where
  /-- The state of the store. -/
  store : σ
  /-- The snapshots. -/
  cache : SnapshotCache
  /-- The time. -/
  now : Instant

/-- Loads roots from a store with state `σ`. -/
structure Repository (σ : Type) where
  /-- The store. -/
  store : EventStore σ
  /-- A root is put into the snapshot cache if more events than this were replayed. -/
  threshold : Nat

namespace Repository

variable {σ S : Type}

/-- The position that bounds nothing. -/
def latest : Int := Word64.greatest

/-- The root to start a replay from: a snapshot cut at or before a position, or a root without
history. -/
def startingPoint (T : AggregateType S) (id : String) (bound : Int) (b : Backing σ) :
    Root S × Backing σ :=
  match b.cache.lookup T id bound b.now with
  | (some root, cache) => (root, { b with cache })
  | (none, cache) => (Root.new T id, { b with cache })

/-- Keep a root in the snapshot cache if its replay was long. -/
def keep (repo : Repository σ) (T : AggregateType S) (root : Root S) (replayed : Nat)
    (b : Backing σ) : Backing σ :=
  if repo.threshold < replayed then { b with cache := b.cache.put T root b.now } else b

/-- A root as it was after the events up to a position; `none` without history. -/
def hydrate (repo : Repository σ) (T : AggregateType S) (id : String) (bound : Int)
    (b : Backing σ) : Except RepositoryError (Option (Root S)) × Backing σ :=
  let (start, b) := startingPoint T id bound b
  match repo.store.load id (start.sequence + 1) b.store with
  | (.error err, store) => (.error (.store err), { b with store })
  | (.ok events, store) =>
    let b := { b with store }
    match start.replayFrom T bound 0 events with
    | .error err => (.error err, b)
    | .ok (root, replayed) =>
      -- A snapshot has history, so only an empty replay from the initial state has none.
      if root.hasHistory then (.ok (some root), repo.keep T root replayed b)
      else (.ok none, b)

/-- A root at a position; `none` without history. -/
def tryGetAt (repo : Repository σ) (T : AggregateType S) (id : String) (bound : Int)
    (b : Backing σ) : Except RepositoryError (Option (Root S)) × Backing σ :=
  repo.hydrate T id bound b

/-- A root with its whole history; `none` without history. -/
def tryGet (repo : Repository σ) (T : AggregateType S) (id : String) (b : Backing σ) :
    Except RepositoryError (Option (Root S)) × Backing σ :=
  repo.hydrate T id latest b

/-- A root at a position, which has to have history. -/
def getAt (repo : Repository σ) (T : AggregateType S) (id : String) (bound : Int)
    (b : Backing σ) : Except RepositoryError (Root S) × Backing σ :=
  match repo.hydrate T id bound b with
  | (.error err, b) => (.error err, b)
  | (.ok none, b) => (.error (.notFound T.name id), b)
  | (.ok (some root), b) => (.ok root, b)

/-- A root with its whole history, which has to have history. -/
def get (repo : Repository σ) (T : AggregateType S) (id : String) (b : Backing σ) :
    Except RepositoryError (Root S) × Backing σ :=
  repo.getAt T id latest b

/-- A root that is created: the aggregate's own script runs on it. -/
def create (T : AggregateType S) (id : String) : Except RepositoryError (Root S) :=
  let root := Root.new T id
  match (T.created root).run T root with
  | (root, none) => .ok root
  | (_, some err) => .error (.creationHook id err)

/-- A root, created if it has no history. -/
def loadOrCreate (repo : Repository σ) (T : AggregateType S) (id : String) (b : Backing σ) :
    Except RepositoryError (Root S) × Backing σ :=
  match repo.hydrate T id latest b with
  | (.error err, b) => (.error err, b)
  | (.ok (some root), b) => (.ok root, b)
  | (.ok none, b) => (create T id, b)

/-- Whether a root has any event. -/
def hasEvents (repo : Repository σ) (id : String) (b : Backing σ) :
    Except RepositoryError Bool × Backing σ :=
  match repo.store.load id 0 b.store with
  | (.error err, store) => (.error (.store err), { b with store })
  | (.ok [], store) => (.ok false, { b with store })
  | (.ok (.ok _ :: _), store) => (.ok true, { b with store })
  | (.ok (.error err :: _), store) => (.error (.store err), { b with store })

end Repository

end Chronicle
