import Chronicle.View.Background

namespace Chronicle

/-!
# The engine: store, commands and views together

* `Engine σ κ S` — a checked configuration with a store, the aggregate types and the context of
  views.
* `Engine.State σ V` — what changes while it runs: the store, the snapshots, the time, the views.
* `Engine.process` — processes a command and hands its events to the views.
* `Engine.onViews`, `Engine.onBacking` — work with the views and with the repository.
-/

/-- What an engine is made of. -/
structure Engine (σ κ S : Type) where
  /-- The settings. -/
  config : Config
  /-- The settings are in range. -/
  checked : config.check = .ok ()
  /-- The store. -/
  store : EventStore σ
  /-- The aggregate types. -/
  types : κ → AggregateType S
  /-- The ids of new batches. -/
  batchId : Nat → Uuid
  /-- The context that locators see. -/
  context : ViewContext
  /-- Whether committed batches are recorded before the views get them. -/
  recording : Bool

/-- Who receives committed events. -/
structure Audience (V : Type) where
  /-- The recorded batches, in order. -/
  recorded : List (List Event) := []
  /-- The views. -/
  views : ViewDispatcher V

namespace Engine

variable {σ κ S V β : Type}

/-- What changes while an engine runs. -/
abbrev State (σ V : Type) := Processing σ (Audience V)

/-- An engine, if the settings are in range. -/
def build (config : Config) (store : EventStore σ) (types : κ → AggregateType S)
    (batchId : Nat → Uuid) (context : ViewContext) (recording : Bool) :
    Except ConfigError (Engine σ κ S) :=
  match h : config.check with
  | .error err => .error err
  | .ok () => .ok { config, checked := h, store, types, batchId, context, recording }

/-- An engine at rest, before anything has happened. -/
def initial (engine : Engine σ κ S) (store : σ) (now : Instant)
    (registrations : List (Registration V)) : State σ V where
  backing := { store, cache := SnapshotCache.new engine.config.snapshots.maxEntries, now }
  audience := { views := { registrations } }

/-! ### Parts -/

/-- Loads roots. -/
def repository (engine : Engine σ κ S) : Repository σ where
  store := engine.store
  threshold := engine.config.snapshots.replayThreshold

/-- Where the views get events from. -/
def source (engine : Engine σ κ S) : ViewSource σ where
  store := engine.store
  context := engine.context
  config := engine.config.views

/-- Records committed batches. -/
def recorder : Dispatcher σ (Audience V) := fun events s =>
  (s.1, { s.2 with recorded := s.2.recorded ++ [events] })

/-- Hands committed events to the views. -/
def viewsDispatcher (engine : Engine σ κ S) : Dispatcher σ (Audience V) := fun events s =>
  let (store, views) := ViewDispatcher.dispatch engine.source events (s.1, s.2.views)
  (store, { s.2 with views })

/-- Who receives committed events, in order. -/
def dispatchers (engine : Engine σ κ S) : List (Dispatcher σ (Audience V)) :=
  if engine.recording then [recorder, engine.viewsDispatcher] else [engine.viewsDispatcher]

/-- Processes commands. -/
def processor (engine : Engine σ κ S) : Processor σ (Audience V) κ S where
  repository := engine.repository
  types := engine.types
  maxRetries := engine.config.commands.maxRetries
  batchId := engine.batchId
  dispatchers := engine.dispatchers

/-! ### Running -/

/-- Process a command. -/
def process [DecidableEq κ] (engine : Engine σ κ S) (c : Command κ S) (s : State σ V) :
    Except CommandError CommandResult × State σ V :=
  engine.processor.process c s

/-- Work with the store, the snapshots and the time. -/
def onBacking (act : Backing σ → β × Backing σ) (s : State σ V) : β × State σ V :=
  let (answer, backing) := act s.backing
  (answer, { s with backing })

/-- Work with the store. -/
def onStore (act : σ → β × σ) (s : State σ V) : β × State σ V :=
  onBacking (fun b => let (answer, store) := act b.store; (answer, { b with store })) s

/-- Work with the views, and with the store as they need it. -/
def onViews (act : σ × ViewDispatcher V → β × σ × ViewDispatcher V) (s : State σ V) :
    β × State σ V :=
  let (answer, store, views) := act (s.backing.store, s.audience.views)
  (answer, { s with
    backing := { s.backing with store }
    audience := { s.audience with views } })

/-- Hand events to the views. -/
def dispatch (engine : Engine σ κ S) (events : List Event) (s : State σ V) : State σ V :=
  (onViews (fun v => ((), ViewDispatcher.dispatch engine.source events v)) s).2

/-- Let the background tasks come to rest. -/
def settle (engine : Engine σ κ S) (s : State σ V) : State σ V :=
  (onViews (fun v => ((), ViewDispatcher.settle engine.source v)) s).2

/-- Let time pass for the background tasks. -/
def sleep (engine : Engine σ κ S) (ms : Nat) (s : State σ V) : State σ V :=
  (onViews (fun v => ((), ViewDispatcher.sleep engine.source ms v)) s).2

/-! ### Describing -/

/-- The repository, described, given the description of its store. -/
def describeRepository (engine : Engine σ κ S) (store : String) (s : State σ V) : String :=
  Quoted.fields "AggregateRepository" [
    ("event_store", store), ("snapshot_cache", s.backing.cache.describe),
    ("replay_threshold", toString engine.config.snapshots.replayThreshold)]

/-- The processor, described. -/
def describeProcessor (engine : Engine σ κ S) (store : String) (s : State σ V) : String :=
  Quoted.fields "CommandProcessor" [
    ("repository", engine.describeRepository store s),
    ("max_retries", toString engine.config.commands.maxRetries),
    ("dispatchers", Quoted.list
      ((if engine.recording then ["Recorder"] else []) ++ [s.audience.views.describe]))]

/-- The engine, described. -/
def describe (engine : Engine σ κ S) (store : String) (s : State σ V) : String :=
  Quoted.fields "EventSourcingRuntime" [
    ("config", engine.config.describe), ("event_store", store),
    ("snapshot_cache", s.backing.cache.describe),
    ("repository", engine.describeRepository store s),
    ("processor", engine.describeProcessor store s),
    ("views", s.audience.views.describe)]

theorem build_isOk_iff (config : Config) (store : EventStore σ) (types : κ → AggregateType S)
    (batchId : Nat → Uuid) (context : ViewContext) (recording : Bool) :
    (build config store types batchId context recording).isOk ↔ config.check = .ok () := by
  unfold build
  split <;> simp_all [Except.isOk, Except.toBool]

end Engine

end Chronicle
