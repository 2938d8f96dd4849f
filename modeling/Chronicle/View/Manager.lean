import Chronicle.Store.Basic
import Chronicle.View.Feed
import Chronicle.View.Locator

namespace Chronicle

/-!
# View managers

* `ViewManager V` — the instances of one kind of view with states of type `V`, and the position up
  to which the log has been applied to them.
* `ViewManager.dispatch` — applies a batch of events: every event to the views its locator names.
  Either all of it takes effect, or nothing does and the manager is stopped.
* `ViewManager.purge` — forgets all views, so that they can be built anew from the log.

A view instance carries the position of the last event applied to it and passes over events that are
not beyond it, so a batch that comes again changes nothing.
-/

/-- Why events could not be applied to views. -/
inductive ViewDispatchError where
  /-- The view manager is stopped. -/
  | stopped (manager : String)
  /-- The metadata of an event cannot be read. -/
  | invalidEvent (manager : String) (cause : EventError)
  /-- The locator fails. -/
  | locator (manager event : String) (source : AppError)
  /-- A view refuses an event. -/
  | handler (manager view event : String) (source : AppError)
  /-- There is no such view manager. -/
  | unknownManager (id : String)
  /-- The log could not be read. -/
  | store (cause : StoreError)
deriving DecidableEq

/-- The error as a sentence. -/
def ViewDispatchError.message : ViewDispatchError → String
  | stopped manager => s!"View manager {manager} is stopped"
  | invalidEvent manager cause =>
    s!"View manager {manager} received an invalid event: {cause.message}"
  | locator manager event _ => s!"View manager {manager} could not locate views for {event}"
  | handler manager view event _ =>
    s!"View manager {manager} failed to apply {event} to view {view}"
  | unknownManager id => s!"Unknown view manager: {id}"
  | store cause => s!"Event store error during catch-up: {cause.message}"

/-- What a view makes of an event. -/
abbrev ViewHandler (V : Type) := V → Event → Except AppError V

namespace ViewHandler

/-- A handler that reads the payload as a `P` first, whatever the tag of the event. -/
def typed {V P : Type} (t : PayloadType P) (handle : V → P → Event → Except AppError V) :
    ViewHandler V := fun view e =>
  match e.readPayload t with
  | .ok p => handle view p e
  | .error err => .error (.event err)

end ViewHandler

/-- A view. -/
structure ViewInstance (V : Type) where
  /-- The id of the view. -/
  id : String
  /-- The position of the last event applied to it. -/
  last : Int
  /-- What the events have made of it. -/
  state : V

/-- The views of one kind. -/
structure ViewManager (V : Type) where
  /-- The id of the manager. -/
  id : String
  /-- Which views an event affects. -/
  locator : Locator
  /-- The state of a view without any event. -/
  initial : V
  /-- What views make of events, by event type. -/
  handlers : DispatchTable (ViewHandler V)
  /-- Whether a batch is applied as one event that holds it. -/
  batchMode : Bool := false
  /-- The views that some event was applied to. -/
  views : Table String (ViewInstance V) := Table.empty
  /-- The position up to which the log has been applied. -/
  position : Int := -1
  /-- An error has been met; nothing is applied any more. -/
  stopped : Bool := false

namespace ViewManager

variable {V : Type}

/-- The position before the first event. -/
def noPosition : Int := -1

/-- A manager without views. -/
def new (id : String) (locator : Locator) (initial : V) (hierarchy : Hierarchy)
    (subscriptions : List (String × ViewHandler V)) (batchMode : Bool) : ViewManager V :=
  { id, locator, initial, handlers := DispatchTable.build hierarchy subscriptions, batchMode }

/-- The view with an id. -/
def view? (m : ViewManager V) (id : String) : Option (ViewInstance V) := m.views.get? id

/-- The ids of all views, sorted. -/
def viewIds (m : ViewManager V) : List String := m.views.keys.mergeSort

/-- The view with an id, or a fresh one. -/
def viewOrNew (m : ViewManager V) (id : String) : ViewInstance V :=
  (m.view? id).getD ⟨id, noPosition, m.initial⟩

/-! ### Applying events to copies -/

/-- A copy of a view that a batch works on. -/
structure Touched (V : Type) where
  /-- The view. -/
  view : ViewInstance V
  /-- Some event of the batch was applied to it. -/
  changed : Bool

/-- The copies that a batch works on, in the order in which its events first touched them. -/
abbrev Working (V : Type) := Table String (Touched V)

/-- The copy of a view; a view that is not touched yet is taken from the manager. -/
def touch (m : ViewManager V) (w : Working V) (id : String) : Touched V :=
  (w.get? id).getD ⟨m.viewOrNew id, false⟩

/-- Apply an event to the views with the given ids: the copies afterwards, and whether the event was
new to any of them. -/
def applyTo (m : ViewManager V) (handle : ViewHandler V) (e : Event) (position : Int) :
    Working V → Bool → List String → Except ViewDispatchError (Working V × Bool)
  | w, applied, [] => .ok (w, applied)
  | w, applied, id :: ids =>
    let t := m.touch w id
    -- A view that the event has reached before is touched but stays as it is.
    if position ≤ t.view.last then applyTo m handle e position (w.insert id t) applied ids
    else match handle t.view.state e with
      | .error err => .error (.handler m.id t.view.id e.display err)
      | .ok state =>
        applyTo m handle e position
          (w.insert id ⟨{ t.view with last := position, state }, true⟩) true ids

/-- How far a batch has come. -/
structure Progress (V : Type) where
  /-- The handlers, with the answers remembered so far. -/
  handlers : DispatchTable (ViewHandler V)
  /-- The copies. -/
  working : Working V := Table.empty
  /-- The events that were new to some view. -/
  applied : List Event := []

/-- Apply one event: the copies afterwards, and whether it was new to any view. -/
def applyEvent (m : ViewManager V) (context : ViewContext) (handle : ViewHandler V)
    (w : Working V) (e : Event) : Except ViewDispatchError (Working V × Bool) :=
  match e.position with
  | .error err => .error (.invalidEvent m.id err)
  | .ok position =>
    match m.locator context e with
    | .error err => .error (.locator m.id e.display err)
    | .ok ids => m.applyTo handle e position w false ids

/-- Apply events in order, up to the first error. -/
def applyAll (m : ViewManager V) (context : ViewContext) :
    Progress V → List Event → Progress V × Option ViewDispatchError
  | p, [] => (p, none)
  | p, e :: rest =>
    match p.handlers.resolve e.tag with
    -- Without a handler neither the metadata nor the locator are asked.
    | (none, handlers) => applyAll m context { p with handlers } rest
    | (some handle, handlers) =>
      match m.applyEvent context handle p.working e with
      | .error err => ({ p with handlers }, some err)
      | .ok (working, isNew) =>
        applyAll m context
          ⟨handlers, working, if isNew then p.applied ++ [e] else p.applied⟩ rest

/-! ### Dispatch -/

/-- What comes of a dispatch. -/
structure Dispatched (V : Type) where
  /-- The manager afterwards. -/
  manager : ViewManager V
  /-- Why the events could not be applied, if so. -/
  error : Option ViewDispatchError := none
  /-- What subscribers are told. -/
  notice : Option ViewsUpdated := none
  /-- The events that were new to some view, which is what a profiler counts. -/
  applied : List Event := []

/-- The events that handlers see for a batch. -/
def presented (m : ViewManager V) (batch : List Event) : List Event :=
  if m.batchMode then [Event.batch batch] else batch

/-- The copies that differ from their views. -/
def changes (w : Working V) : List (String × ViewInstance V) :=
  (w.entries.filter fun e => e.2.changed).map fun e => (e.1, e.2.view)

/-- The notice about changed views; none if nothing changed. -/
def noticeOf (m : ViewManager V) (position : Int) (changed : List (String × ViewInstance V)) :
    Option ViewsUpdated :=
  if changed.isEmpty then none else some ⟨m.id, position, changed.map Prod.fst⟩

/-- The manager, stopped by an error. -/
def failed (m : ViewManager V) (p : Progress V) (err : ViewDispatchError) : Dispatched V where
  manager := { m with handlers := p.handlers, stopped := true }
  error := some err
  applied := p.applied

/-- The manager with the changes of a batch that ends at a position. -/
def completed (m : ViewManager V) (p : Progress V) (last : Int) : Dispatched V where
  manager := { m with
    handlers := p.handlers
    views := m.views.insertAll (changes p.working)
    position := max m.position last }
  notice := m.noticeOf (max m.position last) (changes p.working)
  applied := p.applied

/-- Apply a batch of events. -/
def dispatch (context : ViewContext) (batch : List Event) (m : ViewManager V) : Dispatched V :=
  if m.stopped then { manager := m, error := some (.stopped m.id) }
  else match batch.getLast? with
    | none => { manager := m }
    | some last =>
      match last.position with
      | .error err => m.failed { handlers := m.handlers } (.invalidEvent m.id err)
      | .ok position =>
        match m.applyAll context { handlers := m.handlers } (m.presented batch) with
        | (p, some err) => m.failed p err
        | (p, none) => m.completed p position

/-! ### Administration -/

/-- Forget all views and start again before the first event. -/
def purge (m : ViewManager V) : ViewManager V :=
  { m with views := Table.empty, position := noPosition, stopped := false }

/-- Forget one view; the answer says whether it was there. -/
def delete (m : ViewManager V) (id : String) : Bool × ViewManager V :=
  (m.views.contains id, { m with views := m.views.erase id })

/-- The manager, described. -/
def describe (m : ViewManager V) : String :=
  Quoted.fields "InMemoryViewManager" [
    ("id", Quoted.quote m.id), ("position", toString m.position),
    ("stopped", toString m.stopped), ("batch_mode", toString m.batchMode),
    ("handlers", m.handlers.describe)]

@[simp] theorem dispatch_of_stopped {m : ViewManager V} (h : m.stopped = true)
    (context : ViewContext) (batch : List Event) :
    dispatch context batch m = { manager := m, error := some (.stopped m.id) } := by
  simp [dispatch, h]

@[simp] theorem stopped_purge (m : ViewManager V) : m.purge.stopped = false := rfl

@[simp] theorem position_purge (m : ViewManager V) : m.purge.position = -1 := rfl

end ViewManager

end Chronicle
