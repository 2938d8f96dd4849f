import Chronicle.Proofs.View.Visiting
import Chronicle.Sample.Tally

namespace Chronicle

/-!
# Views are a fold of the log

* `ViewSetup` — what a view manager is registered with; `ViewSetup.projection` is what that says about
  its views.
* `ViewSetup.Followed` — a registration follows the log; `ViewSetup.invariant_followed` says that
  whatever a dispatcher does by itself keeps that.
* `ViewDispatcher.Tracks` — the invariant of a dispatcher: every manager follows the log.
* `ViewStep` — what may happen to a log and a dispatcher: commits, deliveries, purges, replays, work in
  the background, reads that fail. `ViewStep.holds_runAll` says that all of it keeps the invariants of
  the managers.
* `ViewDispatcher.views_eq_fold` — whatever has happened, the views of every manager are the fold of
  the log up to its position.
-/

/-! ### Setups -/

/-- What a view manager is registered with. -/
structure ViewSetup (V : Type) where
  /-- The id of the manager. -/
  id : String
  /-- Which views an event affects. -/
  locator : Locator
  /-- The state of a view without any event. -/
  initial : V
  /-- Which tags an event type matches. -/
  hierarchy : Hierarchy
  /-- What views make of events, by registered tag. -/
  subscriptions : List (String × ViewHandler V)
  /-- When the manager gets events. -/
  mode : Consistency

namespace ViewSetup

variable {V : Type}

/-- The registration of a fresh manager, which takes the events of a batch one by one. -/
def registration (setup : ViewSetup V) : Registration V where
  manager := ViewManager.new setup.id setup.locator setup.initial setup.hierarchy
    setup.subscriptions false
  mode := setup.mode

/-- What the setup says about the views. -/
def projection (setup : ViewSetup V) (context : ViewContext) : Projection V where
  locator := setup.locator
  context := context
  initial := setup.initial
  hierarchy := setup.hierarchy
  handlers := Table.ofList setup.subscriptions

/-- A fresh manager follows every log: nothing has been applied. -/
theorem follows_registration (setup : ViewSetup V) (context : ViewContext) (log : Log) :
    setup.registration.manager.Follows (setup.projection context) log where
  serves := by
    obtain ⟨hsound, hhierarchy, hhandlers⟩ := DispatchTable.foldl_asked
      (DispatchTable.sound_unasked setup.hierarchy (Table.ofList setup.subscriptions))
      (setup.hierarchy.declaredTypes ++ (Table.ofList setup.subscriptions).keys)
    exact ⟨rfl, rfl, rfl, hhierarchy, hhandlers, hsound⟩
  lower := Int.le_refl _
  upper := by
    show (-1 : Int) < log.size
    omega
  views := ⟨Table.empty, rfl, fun _ => rfl⟩

/-- A registration follows the log by the setup. -/
def Followed (context : ViewContext) (setup : ViewSetup V) (s : SharedLog) (r : Registration V) :
    Prop := r.manager.Follows (setup.projection context) s.log

variable {src : ViewSource SharedLog}

/-- Whatever a dispatcher does by itself, the registrations follow the log. -/
theorem invariant_followed (hstore : src.store = SharedLog.store) :
    Registration.Invariant src (Followed (V := V) src.context) :=
  Registration.invariant_managed
    (fun setup => ViewManager.invariant_follows (setup.projection src.context)) hstore

/-- Registrations that are handed committed events follow the log. -/
theorem takes_notify (hstore : src.store = SharedLog.store) {s : SharedLog} (hlog : s.log.Consistent)
    {events : List Event} (hevents : events <:+: s.log.events) :
    ViewDispatcher.Takes (Followed (V := V) src.context) (Followed src.context) s
      (ViewDispatcher.notify src events) :=
  ViewDispatcher.takes_notify
    (fun setup => ViewManager.invariant_follows (setup.projection src.context)) hstore hlog hevents

end ViewSetup

namespace ViewDispatcher

variable {V : Type} {context : ViewContext} {setups : List (ViewSetup V)}

/-- The dispatcher of fresh managers. -/
def fresh (setups : List (ViewSetup V)) : ViewDispatcher V where
  registrations := setups.map ViewSetup.registration

/-- The managers follow a log, each by its own setup. -/
def Follow (context : ViewContext) (setups : List (ViewSetup V)) (log : Log)
    (registrations : List (Registration V)) : Prop :=
  List.Forall₂ (fun setup r => r.manager.Follows (setup.projection context) log) setups
    registrations

theorem follow_fresh (context : ViewContext) (setups : List (ViewSetup V)) (log : Log) :
    Follow context setups log (fresh setups).registrations := by
  unfold Follow fresh
  rw [List.forall₂_map_right_iff, List.forall₂_same]
  exact fun setup _ => setup.follows_registration context log

/-! ### The invariant -/

/-- The log is consistent, and every manager follows it. -/
structure Tracks (context : ViewContext) (setups : List (ViewSetup V))
    (s : SharedLog × ViewDispatcher V) : Prop where
  /-- The log is consistent. -/
  log : s.1.log.Consistent
  /-- The managers follow it. -/
  follow : Follow context setups s.1.log s.2.registrations

theorem tracks_iff {s : SharedLog × ViewDispatcher V} :
    Tracks context setups s ↔ Holds (ViewSetup.Followed context) setups s :=
  ⟨fun h => ⟨h.log, h.follow⟩, fun h => ⟨h.log, h.each⟩⟩

end ViewDispatcher

/-! ### Runs -/

/-- What may happen to a log and a dispatcher. -/
inductive ViewStep where
  /-- A batch is saved, or rejected. -/
  | save (s : Save)
  /-- It is settled what other writers do, and which reads fail, during the next operations. -/
  | expect (ahead : List Happening)
  /-- So many events from a position on, such as a committed batch, are handed to all managers. -/
  | dispatch (first count : Nat)
  /-- The same, for the manager at an index alone. -/
  | notify (index first count : Nat)
  /-- All managers are brought up to date, after a purge if it is wanted. -/
  | start (purge : Bool)
  /-- The views of one manager are built anew. -/
  | replay (id : String)
  /-- The manager at an index catches up in the background. -/
  | catchUp (index : Nat)
  /-- All tasks run that have something to do. -/
  | settle
  /-- Time passes. -/
  | sleep (ms : Nat)
  /-- The tasks end. -/
  | shutdown

namespace ViewStep

variable {V : Type} (src : ViewSource SharedLog)

/-- So many committed events from a position on. -/
def block (log : Log) (first count : Nat) : List Event := (log.events.drop first).take count

/-- The log and the dispatcher after a step. -/
def run (s : SharedLog × ViewDispatcher V) : ViewStep → SharedLog × ViewDispatcher V
  | save batch => ((s.1.save batch.batch batch.events).2, s.2)
  | expect ahead => (⟨s.1.log, ahead⟩, s.2)
  | dispatch first count => ViewDispatcher.dispatch src (block s.1.log first count) s
  | notify index first count =>
    (ViewDispatcher.visitAt index (ViewDispatcher.notify src (block s.1.log first count)) s).2
  | start purge => (ViewDispatcher.start src purge s).2
  | replay id => (ViewDispatcher.replay src id s).2
  | catchUp index => (ViewDispatcher.visitAt index (Feeding.catchUp src) s).2
  | settle => ViewDispatcher.settle src s
  | sleep ms => ViewDispatcher.sleep src ms s
  | shutdown => (s.1, s.2.shutdown)

/-- The log and the dispatcher after steps. -/
def runAll (steps : List ViewStep) (s : SharedLog × ViewDispatcher V) :
    SharedLog × ViewDispatcher V := steps.foldl (run src) s

theorem block_isInfix (log : Log) (first count : Nat) : block log first count <:+: log.events :=
  (List.take_prefix _ _).isInfix.trans (List.drop_suffix _ _).isInfix

section

variable {src} {α : Type} {Q : α → Log → ViewManager V → Prop} {as : List α}
  {s : SharedLog × ViewDispatcher V}

/-- Every step keeps the invariants of the managers. -/
theorem holds_run (hstore : src.store = SharedLog.store)
    (hQ : ∀ a, ViewManager.Invariant src.context (Q a))
    (h : ViewDispatcher.Holds (Registration.Managed Q) as s) (step : ViewStep) :
    ViewDispatcher.Holds (Registration.Managed Q) as (step.run src s) := by
  have hinvariant := Registration.invariant_managed hQ hstore
  have hnotify := fun first count =>
    ViewDispatcher.takes_notify hQ hstore h.log (block_isInfix s.1.log first count)
  cases step with
  | save batch =>
    have hgrown := SharedLog.grown_save h.log batch.batch batch.events
    exact ⟨hgrown.log, h.each.imp fun a _ hr => (hQ a).mono hr hgrown.kept⟩
  | expect ahead => exact ⟨h.log, h.each⟩
  | dispatch first count =>
    exact (h.visitAll hinvariant.lasting hinvariant.lasting (hnotify first count)).2
  | notify index first count => exact (h.visitAt hinvariant.lasting (hnotify first count) index).2
  | start purge => exact (h.start hinvariant hstore purge).2
  | replay id => exact (h.replay hinvariant hstore id).2
  | catchUp index =>
    exact (h.visitAt hinvariant.lasting (ViewDispatcher.takes_catchUp hinvariant hstore _) index).2
  | settle => exact (h.settle hinvariant hstore).2
  | sleep ms => exact (h.sleep hinvariant hstore ms).2
  | shutdown => exact h.shutdown hinvariant

/-- Any steps keep the invariants of the managers. -/
theorem holds_runAll (hstore : src.store = SharedLog.store)
    (hQ : ∀ a, ViewManager.Invariant src.context (Q a)) (steps : List ViewStep)
    (h : ViewDispatcher.Holds (Registration.Managed Q) as s) :
    ViewDispatcher.Holds (Registration.Managed Q) as (runAll src steps s) := by
  induction steps generalizing s with
  | nil => exact h
  | cons step rest ih => exact ih (holds_run hstore hQ h step)

end

variable {src} {setups : List (ViewSetup V)} {s : SharedLog × ViewDispatcher V}

/-- Any steps let the managers follow the log. -/
theorem tracks_runAll (hstore : src.store = SharedLog.store) (steps : List ViewStep)
    (h : ViewDispatcher.Tracks src.context setups s) :
    ViewDispatcher.Tracks src.context setups (runAll src steps s) := by
  rw [ViewDispatcher.tracks_iff] at h ⊢
  exact holds_runAll hstore
    (fun setup => ViewManager.invariant_follows (setup.projection src.context)) steps h

end ViewStep

/-- **Views are a fold of the log.** Take fresh view managers on an empty log, and whatever commits,
deliveries in any order, purges, replays and work in the background have happened since
(`ViewStep.runAll`), with reads that fail and other writers that commit at any time: the `position` of
every manager is in the log, and its views are exactly what the events up to that position make of no
views, applied one by one (`Projection.fold` of `log.events.take (position + 1)`). -/
theorem ViewDispatcher.views_eq_fold {V : Type} (context : ViewContext) (config : ViewConfig)
    (setups : List (ViewSetup V)) (steps : List ViewStep) :
    let src : ViewSource SharedLog := ⟨SharedLog.store, context, config⟩
    let s := ViewStep.runAll src steps (⟨Log.empty, []⟩, ViewDispatcher.fresh setups)
    List.Forall₂ (fun setup r =>
      -1 ≤ r.manager.position ∧ r.manager.position < (s.1.log.size : Int) ∧
      ∃ views, (setup.projection context).fold
          (s.1.log.events.take (r.manager.position + 1).toNat) = .ok views ∧
        ∀ id, r.manager.view? id = views.get? id) setups s.2.registrations := by
  intro src s
  have hempty : ViewDispatcher.Tracks src.context setups
      (⟨Log.empty, []⟩, ViewDispatcher.fresh setups) :=
    ⟨Log.consistent_empty, ViewDispatcher.follow_fresh context setups Log.empty⟩
  have hs : ViewDispatcher.Tracks src.context setups s :=
    ViewStep.tracks_runAll rfl steps hempty
  exact List.Forall₂.imp (fun _ _ hfollows => ⟨hfollows.lower, hfollows.upper, hfollows.views⟩)
    hs.follow

/-- A view of every root that adds up its deposits. -/
def Sample.balances : ViewSetup Sample.Tally where
  id := "balances"
  locator := Sample.Place.root.locate
  initial := {}
  hierarchy := Hierarchy.flat
  subscriptions := [Sample.Tally.subscription "*" .count, Sample.Tally.subscription "Deposited" .sum]
  mode := .immediate

/-- Two accounts get deposits. The second block is handed over first, which makes the manager read the
log, then the first one again; the last deposit is saved only. -/
def Sample.balanceSteps : List ViewStep :=
  let deposits (id : String) := Log.empty.continuation id "Deposited" (Sample.deposited.encode 5)
  [.save ⟨.nil, deposits "a" 2⟩, .save ⟨.nil, deposits "b" 1⟩, .dispatch 2 1, .dispatch 0 2,
   .save ⟨.nil, (deposits "a" 3).drop 2⟩]

set_option maxRecDepth 10000 in
/-- The views of the accounts hold two deposits and one, and the third event is the last one in them. -/
theorem ViewDispatcher.views_eq_fold_balances :
    let src : ViewSource SharedLog := ⟨SharedLog.store, Dict.empty, {}⟩
    let s := ViewStep.runAll src Sample.balanceSteps
      (⟨Log.empty, []⟩, ViewDispatcher.fresh [Sample.balances])
    (s.1.log.size = 4 ∧ s.2.registrations.map (fun r => (r.manager.position,
      ["a", "b"].map fun id => (r.manager.view? id).map fun view => (view.last, view.state.sum)))
        = [(2, [some (1, 10), some (2, 5)])]) ∧
    List.Forall₂ (fun setup r =>
      -1 ≤ r.manager.position ∧ r.manager.position < (s.1.log.size : Int) ∧
      ∃ views, (setup.projection Dict.empty).fold
          (s.1.log.events.take (r.manager.position + 1).toNat) = .ok views ∧
        ∀ id, r.manager.view? id = views.get? id) [Sample.balances] s.2.registrations :=
  ⟨by decide +kernel, ViewDispatcher.views_eq_fold Dict.empty {} [Sample.balances]
    Sample.balanceSteps⟩

end Chronicle
