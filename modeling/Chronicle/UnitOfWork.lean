import Chronicle.Repository

namespace Chronicle

/-!
# Units of work

* `UnitOfWork κ S` — the roots that one execution of a command works on, in the order in which they
  were acquired. Each is of a kind in `κ`.
* `UnitOfWork.acquire` — the root with an id: the one at hand, or else from the repository.
* `UnitOfWork.emit` — emits an event on a root at hand.
* `UnitOfWork.takePending` — takes the emitted events out, root by root.
-/

/-- Why a unit of work could not acquire a root. -/
inductive UnitOfWorkError where
  /-- The repository failed. -/
  | repository (cause : RepositoryError)
  /-- The root is at hand as another type. -/
  | typeMismatch (id expected actual : String)
deriving DecidableEq

/-- The error as a sentence. -/
def UnitOfWorkError.message : UnitOfWorkError → String
  | repository cause => cause.message
  | typeMismatch id expected actual => s!"Aggregate root {id} is a {actual}, not a {expected}"

/-- What becomes of a root without history. -/
inductive Acquisition where
  /-- It is created. -/
  | load
  /-- It is an error. -/
  | get
  /-- There is no root. -/
  | tryGet
deriving DecidableEq

/-- The events emitted on a root, and the sequence number they follow. -/
structure Pending where
  /-- The sequence number of the root's last committed event. -/
  sequence : Int
  /-- The emitted events in order. -/
  events : List Event

/-- The roots that a command works on. -/
structure UnitOfWork (κ S : Type) where
  /-- The roots by id, in the order of acquisition. -/
  roots : Table String (κ × Root S) := Table.empty

namespace UnitOfWork

variable {σ κ S : Type}

/-- The unit of work without roots. -/
def empty : UnitOfWork κ S := {}

/-- Number of roots. -/
def size (u : UnitOfWork κ S) : Nat := u.roots.size

/-- Whether there are no roots. -/
def isEmpty (u : UnitOfWork κ S) : Bool := u.roots.isEmpty

/-- The root with an id, from the repository. -/
def fetch (repo : Repository σ) (T : AggregateType S) (mode : Acquisition) (id : String)
    (b : Backing σ) : Except RepositoryError (Option (Root S)) × Backing σ :=
  match mode with
  | .tryGet => repo.tryGet T id b
  | .get => let (r, b) := repo.get T id b; (r.map some, b)
  | .load => let (r, b) := repo.loadOrCreate T id b; (r.map some, b)

/-- The root with an id: the one at hand if it is of the wanted kind, else from the repository. A
root that does not exist is not kept. -/
def acquire [DecidableEq κ] (types : κ → AggregateType S) (repo : Repository σ)
    (mode : Acquisition) (kind : κ) (id : String) (u : UnitOfWork κ S) (b : Backing σ) :
    Except UnitOfWorkError (Option (Root S)) × UnitOfWork κ S × Backing σ :=
  match u.roots.get? id with
  | some (held, root) =>
    if held = kind then (.ok (some root), u, b)
    else (.error (.typeMismatch id (types kind).name (types held).name), u, b)
  | none =>
    match fetch repo (types kind) mode id b with
    | (.error err, b) => (.error (.repository err), u, b)
    | (.ok none, b) => (.ok none, u, b)
    | (.ok (some root), b) => (.ok (some root), ⟨u.roots.insert id (kind, root)⟩, b)

/-- Emit an event on a root at hand: the root afterwards, and the error if the event is refused. -/
def emit (types : κ → AggregateType S) (id : String) (e : Event) (u : UnitOfWork κ S) :
    Option (Root S × Option AppError) × UnitOfWork κ S :=
  match u.roots.get? id with
  | none => (none, u)
  | some (kind, root) =>
    let (root, err) := root.emit (types kind) e
    (some (root, err), ⟨u.roots.insert id (kind, root)⟩)

/-- The events emitted on a root. -/
def pendingOf (root : Root S) : Pending := ⟨root.sequence, root.uncommitted⟩

@[simp] theorem sequence_pendingOf (root : Root S) : (pendingOf root).sequence = root.sequence := rfl

/-- Take the emitted events out: one entry for every root with events, in the order of
acquisition. -/
def takePending (u : UnitOfWork κ S) : List Pending × UnitOfWork κ S :=
  ((u.roots.values.map fun r => pendingOf r.2).filter fun p => !p.events.isEmpty,
    ⟨u.roots.mapValues fun _ r => (r.1, r.2.drained)⟩)

/-- The unit of work, described. -/
def describe (u : UnitOfWork κ S) : String :=
  Quoted.fields "UnitOfWork" [("roots", Quoted.list (u.roots.keys.map Quoted.quote))]

end UnitOfWork

end Chronicle
