import Chronicle.Engine
import Chronicle.Proofs.Command.Attempts
import Chronicle.Proofs.View.Reaching
import Chronicle.Proofs.View.Runs
import Chronicle.Sample.Tally

namespace Chronicle

/-!
# Views show what a command has written

* `ManagerSetup` — what a view manager of an engine is registered with.
* `ManagerSetup.Attends` — the invariant of a registration: its position is in the log, and unless it
  applies batches as one event, its views are the fold of the log up to that position.
* `EngineStep` — what may happen to an engine: commands, commits of other writers, starts, replays,
  work in the background.
* `Engine.attended_process` — a command keeps the invariant, and brings immediate managers to its
  last event.
* `Engine.read_your_writes` — so does any command after any run.
-/

/-! ### Setups -/

/-- What a view manager of an engine is registered with. -/
structure ManagerSetup (V : Type) extends ViewSetup V where
  /-- Whether a batch is applied as one event that holds it. -/
  batchMode : Bool

namespace ManagerSetup

variable {V : Type}

/-- The registration of a fresh manager. -/
def register (setup : ManagerSetup V) : Registration V where
  manager := ViewManager.new setup.id setup.locator setup.initial setup.hierarchy
    setup.subscriptions setup.batchMode
  mode := setup.mode

/-- A registration goes by its setup, and its manager is where the log has come to. -/
structure Attends (context : ViewContext) (setup : ManagerSetup V) (s : SharedLog)
    (r : Registration V) : Prop where
  /-- Nothing fails. -/
  reliable : s.Reliable
  /-- The mode is that of the setup. -/
  mode : r.mode = setup.mode
  /-- The position is in the log. -/
  placed : r.manager.Placed s.log
  /-- The views are those that the events up to the position make, one by one. -/
  follows : setup.batchMode = false → setup.toViewSetup.Followed context s r

/-- A registration attends, and if it is immediate it has come to a position, if there is one. -/
def Served (context : ViewContext) (position : Option Int) (setup : ManagerSetup V) (s : SharedLog)
    (r : Registration V) : Prop :=
  setup.Attends context s r ∧
    ∀ p, position = some p → r.mode = .immediate → r.manager.Reaches p

variable {setup : ManagerSetup V} {context : ViewContext} {s s' : SharedLog} {r : Registration V}

/-- A fresh manager attends to every log. -/
theorem attends_register (setup : ManagerSetup V) (context : ViewContext) (hs : s.Reliable) :
    setup.Attends context s setup.register where
  reliable := hs
  mode := rfl
  placed := ⟨Int.le_refl _, by show (-1 : Int) < _; omega⟩
  follows hsingle := by
    have hregister : setup.register = setup.registration := by
      unfold register
      rw [hsingle]
      rfl
    rw [hregister]
    exact setup.follows_registration context s.log

theorem Attends.later (h : setup.Attends context s r) (hs : s.Later s') :
    setup.Attends context s' r :=
  ⟨hs.reliable h.reliable, h.mode, h.placed.mono hs.grown.size_le, fun hsingle =>
    ViewManager.Follows.mono (h.follows hsingle) hs.grown.kept⟩

theorem lasting_served (context : ViewContext) (position : Option Int) :
    Registration.Lasting (Served (V := V) context position) :=
  fun _ _ _ _ hs h => ⟨h.1.later hs, h.2⟩

/-- Whatever a dispatcher does by itself, the managers attend to the log. -/
theorem invariant_attends (src : ViewSource SharedLog) (hstore : src.store = SharedLog.store)
    (hchunk : 0 < src.config.maxItemsPerBatch) :
    Registration.Invariant src (Attends (V := V) src.context) where
  lasting _ _ _ _ hs h := h.later hs
  congr {a s r r'} hmanager hmode h :=
    ⟨h.reliable, hmode.trans h.mode, hmanager ▸ h.placed, fun hsingle =>
      (ViewSetup.invariant_followed hstore).congr hmanager hmode (h.follows hsingle)⟩
  purge h := ⟨h.reliable, h.mode, h.placed.purge, fun hsingle =>
    (ViewSetup.invariant_followed hstore).purge (h.follows hsingle)⟩
  catchUp {a f} hlog h := by
    have hkeeps := Feeding.keeps_catchUp hstore f
    exact ⟨(hkeeps.passed.later hlog).reliable h.reliable, hkeeps.mode.trans h.mode,
      (Feeding.catchUp_reaches hstore hchunk hlog h.reliable h.placed).1, fun hsingle =>
      (ViewSetup.invariant_followed hstore).catchUp hlog (h.follows hsingle)⟩

/-- Committed events bring the immediate managers that get them to the last one. -/
theorem takes_notify (src : ViewSource SharedLog) (hstore : src.store = SharedLog.store)
    (hchunk : 0 < src.config.maxItemsPerBatch) (hlog : s.log.Consistent) {events : List Event}
    (hevents : events <:+: s.log.events) :
    ViewDispatcher.Takes (Attends (V := V) src.context)
      (Served src.context (Processor.lastPosition events)) s
      (ViewDispatcher.notify src events) where
  passed f := (Feeding.keeps_notify hstore events f).passed
  holds {a f} hpassed hlog' h := by
    have hkeeps := Feeding.keeps_notify hstore events f
    obtain ⟨hplaced, hreaches⟩ := Feeding.notify_reaches hstore hchunk hlog' h.reliable h.placed
      (hevents.trans (hpassed.grown hlog).kept.isInfix)
    refine ⟨⟨(hkeeps.passed.later hlog').reliable h.reliable, hkeeps.mode.trans h.mode, hplaced,
      fun hsingle => ?_⟩, fun p hp himmediate => hreaches p hp (hkeeps.mode ▸ himmediate)⟩
    exact (ViewSetup.takes_notify hstore hlog hevents).holds hpassed hlog' (h.follows hsingle)

end ManagerSetup

/-! ### Engines -/

/-- What may happen to an engine. -/
inductive EngineStep (κ S : Type) where
  /-- A command is processed. -/
  | process (c : Command κ S)
  /-- Another writer saves a batch, which is not handed to the views. -/
  | save (batch : Save)
  /-- It is settled what other writers save during the next operations of the store, one list for
  each. -/
  | expect (rivals : List (List Save))
  /-- All managers are brought up to date, after a purge if it is wanted. -/
  | start (purge : Bool)
  /-- The views of one manager are built anew. -/
  | replay (id : String)
  /-- All tasks run that have something to do. -/
  | settle
  /-- Time passes for the tasks. -/
  | sleep (ms : Nat)
  /-- The tasks end. -/
  | shutdown
  /-- The clock is set. -/
  | clock (now : Instant)

namespace Engine

variable {κ S V : Type} {engine : Engine SharedLog κ S} {setups : List (ManagerSetup V)}
  {s : State SharedLog V}

/-- The log is consistent, and every manager attends to it. -/
def Attended (engine : Engine SharedLog κ S) (setups : List (ManagerSetup V))
    (s : State SharedLog V) : Prop :=
  ViewDispatcher.Holds (ManagerSetup.Attends engine.context) setups
    (s.backing.store, s.audience.views)

/-- A checked configuration lets at least one event be read at a time. -/
theorem maxItemsPerBatch_pos {σ : Type} (engine : Engine σ κ S) :
    0 < engine.source.config.maxItemsPerBatch := ((Config.check_eq_ok_iff _).1 engine.checked).1

theorem invariant_attends (hstore : engine.store = SharedLog.store) :
    Registration.Invariant engine.source (ManagerSetup.Attends (V := V) engine.context) :=
  ManagerSetup.invariant_attends engine.source hstore engine.maxItemsPerBatch_pos

/-- The views are the last ones who get committed events, and nobody else changes them or the
store. -/
theorem foldl_dispatchers (engine : Engine SharedLog κ S) (events : List Event) (store : SharedLog)
    (audience : Audience V) :
    (engine.dispatchers.foldl (fun s dispatch => dispatch events s) (store, audience)).1
        = (ViewDispatcher.dispatch engine.source events (store, audience.views)).1 ∧
      (engine.dispatchers.foldl (fun s dispatch => dispatch events s) (store, audience)).2.views
        = (ViewDispatcher.dispatch engine.source events (store, audience.views)).2 := by
  unfold dispatchers
  split <;> exact ⟨rfl, rfl⟩

section Running

variable [DecidableEq κ]

/-- A command keeps the invariant. If it has committed events, every immediate manager has come to the
last of them, unless it is stopped. -/
theorem attended_process (hstore : engine.store = SharedLog.store) (h : engine.Attended setups s)
    (c : Command κ S) :
    engine.Attended setups (engine.process c s).2 ∧
      ∀ result, (engine.process c s).1 = .ok result →
        ViewDispatcher.Holds (ManagerSetup.Served engine.context result.position) setups
          ((engine.process c s).2.backing.store, (engine.process c s).2.audience.views) := by
  have heffect := engine.processor.effect hstore c h.log
  have hattends := (engine.invariant_attends (V := V) hstore).lasting
  unfold Attended process
  cases hresult : (engine.processor.process c s).1 with
  | error err =>
    obtain ⟨hpassed, haudience⟩ := heffect.failed err hresult
    rw [haudience]
    exact ⟨h.later hattends (hpassed.later h.log), nofun⟩
  | ok result =>
    -- The events are handed to the views as the last attempt has left the log.
    obtain ⟨hlater, hevents⟩ := heffect.later h.log hresult
    obtain ⟨_, hserved⟩ := (h.later hattends hlater).visitAll hattends
      (ManagerSetup.lasting_served _ _)
      (ManagerSetup.takes_notify engine.source hstore engine.maxItemsPerBatch_pos hlater.grown.log
        hevents)
    obtain ⟨hfirst, hsecond⟩ := engine.foldl_dispatchers result.events
      (engine.processor.lastEnd c s).backing.store s.audience
    have hdispatched := heffect.dispatched result hresult
    have hafter : ((engine.processor.process c s).2.backing.store,
        (engine.processor.process c s).2.audience.views)
        = ViewDispatcher.dispatch engine.source result.events
          ((engine.processor.lastEnd c s).backing.store, s.audience.views) :=
      Prod.ext ((congrArg Prod.fst hdispatched).trans hfirst)
        ((congrArg (fun t => t.2.views) hdispatched).trans hsecond)
    rw [hafter]
    refine ⟨⟨hserved.log, hserved.each.imp fun _ _ hr => hr.1⟩, ?_⟩
    intro result' hok
    obtain rfl : result = result' := Except.ok.inj hok
    rw [Processor.position_of_process hresult]
    exact hserved

end Running

end Engine

namespace EngineStep

variable {κ S V : Type} {engine : Engine SharedLog κ S} {setups : List (ManagerSetup V)}
  {s : Engine.State SharedLog V}

/-- What others do to the store by themselves keeps the invariant. -/
theorem attended_onStore {act : SharedLog → SharedLog} (h : engine.Attended setups s)
    (hstore : engine.store = SharedLog.store) (hact : s.backing.store.Later (act s.backing.store)) :
    engine.Attended setups (Engine.onStore (fun store => ((), act store)) s).2 :=
  ViewDispatcher.Holds.later h (engine.invariant_attends hstore).lasting hact

variable [DecidableEq κ]

/-- The state after a step. -/
def run (engine : Engine SharedLog κ S) (s : Engine.State SharedLog V) :
    EngineStep κ S → Engine.State SharedLog V
  | process c => (engine.process c s).2
  | save batch =>
    (Engine.onStore (fun store => ((), { store with
      log := (store.log.save batch.batch batch.events).2 })) s).2
  | expect rivals =>
    (Engine.onStore (fun store => ((), { store with
      ahead := rivals.map fun rivals => { rivals } })) s).2
  | start purge => (Engine.onViews (ViewDispatcher.start engine.source purge) s).2
  | replay id => (Engine.onViews (ViewDispatcher.replay engine.source id) s).2
  | settle => engine.settle s
  | sleep ms => engine.sleep ms s
  | shutdown => (Engine.onViews (fun v => ((), v.1, v.2.shutdown)) s).2
  | clock now => { s with backing := { s.backing with now } }

/-- The state after steps. -/
def runAll (engine : Engine SharedLog κ S) (steps : List (EngineStep κ S))
    (s : Engine.State SharedLog V) : Engine.State SharedLog V := steps.foldl (run engine) s

/-- Every step keeps the invariant. -/
theorem attended_run (hstore : engine.store = SharedLog.store) (h : engine.Attended setups s)
    (step : EngineStep κ S) : engine.Attended setups (step.run engine s) := by
  have hinvariant := engine.invariant_attends (V := V) hstore
  cases step with
  | process c => exact (Engine.attended_process hstore h c).1
  | save batch =>
    have hlog : s.backing.store.log.Consistent := h.log
    obtain ⟨hevents, _⟩ := hlog.save_spec batch
    exact attended_onStore h hstore ⟨⟨hlog.save _ _, ⟨_, hevents.symm⟩⟩, id⟩
  | expect rivals =>
    refine attended_onStore h hstore ⟨⟨h.log, .refl _⟩, fun _ happening hmem => ?_⟩
    obtain ⟨_, _, rfl⟩ := List.mem_map.1 hmem
    rfl
  | start purge => exact (h.start hinvariant hstore purge).2
  | replay id => exact (h.replay hinvariant hstore id).2
  | settle => exact (h.settle hinvariant hstore).2
  | sleep ms => exact (h.sleep hinvariant hstore ms).2
  | shutdown => exact h.shutdown hinvariant
  | clock now => exact h

/-- Any steps keep the invariant. -/
theorem attended_runAll (hstore : engine.store = SharedLog.store) (steps : List (EngineStep κ S))
    (h : engine.Attended setups s) : engine.Attended setups (runAll engine steps s) := by
  induction steps generalizing s with
  | nil => exact h
  | cons step rest ih => exact ih (attended_run hstore h step)

end EngineStep

namespace Engine

variable {κ S V : Type}

/-- An engine is built from what it is asked for. -/
theorem build_eq_ok {σ : Type} {config : Config} {store : EventStore σ} {types : κ → AggregateType S}
    {batchId : Nat → Uuid} {context : ViewContext} {recording : Bool} {engine : Engine σ κ S}
    (h : build config store types batchId context recording = .ok engine) :
    engine.store = store ∧ engine.context = context := by
  unfold build at h
  split at h
  · cases h
  · cases h
    exact ⟨rfl, rfl⟩

/-- Fresh managers on an empty log have the invariant. -/
theorem attended_initial (engine : Engine SharedLog κ S) (now : Instant)
    (setups : List (ManagerSetup V)) :
    engine.Attended setups
      (engine.initial ⟨Log.empty, []⟩ now (setups.map ManagerSetup.register)) := by
  refine ⟨Log.consistent_empty, ?_⟩
  show List.Forall₂ _ setups (setups.map ManagerSetup.register)
  rw [List.forall₂_map_right_iff, List.forall₂_same]
  exact fun setup _ => setup.attends_register engine.context nofun

/-- **Commands can read what they write.** Take an engine that `build` makes of a configuration that
passes its check, on a log that other writers use too, with fresh view managers. Whatever commands, commits
of others, starts, replays and work in the background have happened (`EngineStep.runAll`): if
`engine.process` succeeds with a position, every `immediate` manager has come to that position when it
returns, or is `stopped`; and unless the manager applies batches as one event (`batchMode`), its views are
what all events up to where it has come make of no views, applied one by one (`Projection.fold`). -/
theorem read_your_writes [DecidableEq κ] {config : Config} {types : κ → AggregateType S}
    {batchId : Nat → Uuid} {context : ViewContext} {recording : Bool} {engine : Engine SharedLog κ S}
    (hbuild : build config SharedLog.store types batchId context recording = .ok engine)
    (now : Instant) (setups : List (ManagerSetup V)) (steps : List (EngineStep κ S))
    (c : Command κ S) {result : CommandResult} {p : Int} :
    let s := EngineStep.runAll engine steps
      (engine.initial ⟨Log.empty, []⟩ now (setups.map ManagerSetup.register))
    let after := (engine.process c s).2
    (engine.process c s).1 = .ok result → result.position = some p →
    List.Forall₂ (fun setup r => setup.mode = .immediate →
      r.manager.stopped = true ∨
        p ≤ r.manager.position ∧ r.manager.position < (after.backing.store.log.size : Int) ∧
        (setup.batchMode = false → ∃ views,
          (setup.projection context).fold
            (after.backing.store.log.events.take (r.manager.position + 1).toNat) = .ok views ∧
          ∀ id, r.manager.view? id = views.get? id))
      setups after.audience.views.registrations := by
  intro s after hresult hp
  obtain ⟨hstore, hcontext⟩ := build_eq_ok hbuild
  have hs := EngineStep.attended_runAll hstore steps (engine.attended_initial now setups)
  have hserved := (attended_process hstore hs c).2 result hresult
  refine hserved.each.imp fun setup r hr himmediate => ?_
  obtain ⟨hattends, hreaches⟩ := hr
  rcases hreaches p hp (hattends.mode.trans himmediate) with hstopped | hle
  · exact .inl hstopped
  · exact .inr ⟨hle, hattends.placed.upper, fun hsingle =>
      hcontext ▸ (hattends.follows hsingle).views⟩

end Engine

namespace Sample

/-- Reads the log one event at a time. -/
def narrow : Engine SharedLog Kind State where
  config := { views := { maxItemsPerBatch := 1 } }
  checked := rfl
  store := SharedLog.store
  types := aggregateType
  batchId := fun _ => .nil
  context := Dict.empty
  recording := false

/-- A tally of deposits. -/
def tally (id : String) (mode : Consistency) (batchMode : Bool) : ManagerSetup Tally where
  id := id
  locator := Locator.global
  initial := {}
  hierarchy := Hierarchy.flat
  subscriptions := [Tally.subscription "Deposited" .sum]
  mode := mode
  batchMode := batchMode

/-- A tally that is immediate, one that is not, and one that takes batches as one event. -/
def tallies : List (ManagerSetup Tally) :=
  [tally "at once" .immediate false, tally "later" .eventual false, tally "batches" .immediate true]

end Sample

set_option maxRecDepth 10000 in
/-- After two deposits of another writer that the views have not got, a deposit of one's own is in
both immediate tallies. -/
theorem Engine.read_your_writes_behind :
    let s := EngineStep.runAll Sample.narrow [.save (Sample.deposits 0 2)]
      (Sample.narrow.initial ⟨Log.empty, []⟩ ⟨0, 0⟩ (Sample.tallies.map ManagerSetup.register))
    let after := (Sample.narrow.process Sample.deposit s).2
    ∃ result, (Sample.narrow.process Sample.deposit s).1 = .ok result ∧ result.position = some 2 ∧
      List.Forall₂ (fun setup r => setup.mode = .immediate →
        r.manager.stopped = true ∨
          2 ≤ r.manager.position ∧ r.manager.position < (after.backing.store.log.size : Int) ∧
          (setup.batchMode = false → ∃ views,
            (setup.projection Dict.empty).fold
              (after.backing.store.log.events.take (r.manager.position + 1).toNat) = .ok views ∧
            ∀ id, r.manager.view? id = views.get? id))
        Sample.tallies after.audience.views.registrations ∧
      after.audience.views.registrations.map
        (fun r => (r.manager.stopped, r.manager.position)) = [(false, 2), (false, -1), (false, 2)] := by
  intro s after
  have hbuild : Engine.build Sample.narrow.config SharedLog.store Sample.aggregateType
      (fun _ => .nil) Dict.empty false = .ok Sample.narrow := rfl
  have hok : ((Sample.narrow.process Sample.deposit s).1.toOption.any fun r =>
      decide (r.position = some 2)) = true := by decide +kernel
  cases hresult : (Sample.narrow.process Sample.deposit s).1 with
  | error err =>
    rw [hresult] at hok
    cases hok
  | ok result =>
    rw [hresult] at hok
    have hposition := of_decide_eq_true hok
    exact ⟨result, rfl, hposition, Engine.read_your_writes hbuild ⟨0, 0⟩ Sample.tallies
      [.save (Sample.deposits 0 2)] Sample.deposit hresult hposition, by decide +kernel⟩

end Chronicle
