import Chronicle.Config.Basic
import Chronicle.View.Manager
import Chronicle.View.Profiler

namespace Chronicle

/-!
# Feeding a view manager

* `ViewSource σ` — the store that view managers are fed from, and how.
* `Registration V` — a view manager that committed events are delivered to.
* `Feeding.catchUp` — reads the log from the manager's position on and applies it chunk by chunk, up
  to its end.
* `Feeding.deliver` — applies committed events: directly if they continue the manager's position,
  and by catching up if there is a gap.
-/

/-- Where view managers get their events from. -/
structure ViewSource (σ : Type) where
  /-- The store. -/
  store : EventStore σ
  /-- The context that locators see. -/
  context : ViewContext
  /-- How much is read at a time, and when. -/
  config : ViewConfig

/-- When a view manager gets committed events. -/
inductive Consistency where
  /-- Before the command that committed them returns. -/
  | immediate
  /-- Later, in the background. -/
  | eventual
deriving DecidableEq

/-- The name of a mode. -/
def Consistency.name : Consistency → String
  | immediate => "Immediate"
  | eventual => "Eventual"

/-- A view manager that committed events are delivered to. -/
structure Registration (V : Type) where
  /-- The view manager. -/
  manager : ViewManager V
  /-- When it gets events. -/
  mode : Consistency
  /-- The notices for its subscriber. -/
  feed : Feed := Feed.empty
  /-- A commit has been signalled, and the background task has not taken notice of it yet. -/
  signalled : Bool := false
  /-- When the background task wakes up without a signal; none if there is no task. -/
  wake : Option Nat := none

/-- A registration, with what feeding its manager reads and changes besides. -/
structure Feeding (σ V : Type) where
  /-- The state of the store. -/
  store : σ
  /-- Counts the events that are applied. -/
  profiler : Profiler
  /-- The registration. -/
  target : Registration V

namespace Feeding

variable {σ V : Type}

/-- Count applied events. No time passes while they are applied. -/
def count (manager : String) (events : List Event) (p : Profiler) : Profiler :=
  events.foldl (fun p e => p.register manager e.tag Duration.zero) p

/-- Take over what has come of a dispatch. -/
def absorb (f : Feeding σ V) (d : ViewManager.Dispatched V) :
    Option ViewDispatchError × Feeding σ V :=
  (d.error, { f with
    profiler := count f.target.manager.id d.applied f.profiler
    target := { f.target with
      manager := d.manager
      feed := match d.notice with
        | some notice => f.target.feed.push notice
        | none => f.target.feed } })

/-- Have the manager apply events. -/
def dispatch (context : ViewContext) (events : List Event) (f : Feeding σ V) :
    Option ViewDispatchError × Feeding σ V :=
  f.absorb (f.target.manager.dispatch context events)

/-- The next events of the log after the manager's position, at most one chunk. -/
def nextChunk (src : ViewSource σ) (f : Feeding σ V) :
    Except StoreError (List Event) × Feeding σ V :=
  match src.store.stream (Word64.next f.target.manager.position) f.store with
  | (.error err, store) => (.error err, { f with store })
  | (.ok stream, store) =>
    ((EventStream.collect (stream.take src.config.maxItemsPerBatch)), { f with store })

/-- Apply one chunk. There is an answer if nothing is left to be done; behind a full chunk there may be
more. -/
def round (src : ViewSource σ) (f : Feeding σ V) :
    Option (Option ViewDispatchError) × Feeding σ V :=
  if f.target.manager.stopped then (some (some (.stopped f.target.manager.id)), f)
  else match f.nextChunk src with
    | (.error err, f) => (some (some (.store err)), f)
    | (.ok [], f) => (some none, f)
    | (.ok (e :: rest), f) =>
      match f.dispatch src.context (e :: rest) with
      | (some err, f) => (some (some err), f)
      | (none, f) => (if (e :: rest).length = src.config.maxItemsPerBatch then none else some none, f)

/-- Do rounds until there is an answer. The first argument bounds their number. -/
def catchUpFrom (src : ViewSource σ) :
    Nat → Feeding σ V → Option ViewDispatchError × Feeding σ V
  | 0, f => (none, f)
  | rounds + 1, f =>
    match f.round src with
    | (some answer, f) => (answer, f)
    | (none, f) => f.catchUpFrom src rounds

/-- A log of `Word64.count` events is read in so many rounds, and no log is that long. -/
def mostRounds (config : ViewConfig) : Nat := Word64.count / config.maxItemsPerBatch + 1

/-- Apply the rest of the log. The loop has no bound of its own; here it is given up after more rounds
than any log takes. -/
def catchUp (src : ViewSource σ) (f : Feeding σ V) : Option ViewDispatchError × Feeding σ V :=
  f.catchUpFrom src (mostRounds src.config)

/-- Deliver events from the position `first` to the position `last`. -/
def deliverRange (src : ViewSource σ) (events : List Event) (first last : Int)
    (f : Feeding σ V) : Option ViewDispatchError × Feeding σ V :=
  -- All of it is known.
  if last ≤ f.target.manager.position then (none, f)
  -- It comes next.
  else if f.target.manager.position + 1 = first then f.dispatch src.context events
  -- Something is missing before it, or part of it is known.
  else f.catchUp src

/-- Deliver committed events. -/
def deliver (src : ViewSource σ) (events : List Event) (f : Feeding σ V) :
    Option ViewDispatchError × Feeding σ V :=
  match events.head?, events.getLast? with
  | some first, some last =>
    match first.position, last.position with
    | .error err, _ => (some (.invalidEvent f.target.manager.id err), f)
    | .ok _, .error err => (some (.invalidEvent f.target.manager.id err), f)
    | .ok first, .ok last => f.deliverRange src events first last
  | _, _ => (none, f)

/-- Change the manager. -/
def onManager (f : Feeding σ V) (g : ViewManager V → ViewManager V) : Feeding σ V :=
  { f with target := { f.target with manager := g f.target.manager } }

/-- Forget the views and build them anew from the log. -/
def replay (src : ViewSource σ) (f : Feeding σ V) : Option ViewDispatchError × Feeding σ V :=
  (f.onManager ViewManager.purge).catchUp src

@[simp] theorem deliver_nil (src : ViewSource σ) (f : Feeding σ V) :
    f.deliver src [] = (none, f) := rfl

end Feeding

end Chronicle
