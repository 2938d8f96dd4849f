import Chronicle.Proofs.View.Blocks
import Chronicle.Sample.Tally

namespace Chronicle

/-!
# Batch mode loses and doubles nothing

* `FoldSetup` — what a view manager in batch mode is registered with that has one view for all events
  and a handler that takes the events of a batch one by one. `FoldSetup.single` is the manager that gets
  these events one by one and has the same step.
* `FoldSetup.viewOf_eq_fold` — however the log was cut into blocks, the view is the fold of their events.
* `FoldSetup.fold_single` — so is the view of the manager that gets them one by one.
* `ViewDispatcher.blocks_fold_log` — whatever has happened to a log and a dispatcher, both are the fold
  of the log up to the position of the manager.
-/

/-- What a view manager in batch mode is registered with that folds the events of every batch into one
view. -/
structure FoldSetup (V : Type) extends ViewSetup V where
  /-- What one event makes of the view. -/
  step : ViewHandler V
  /-- What a batch makes of the view. -/
  handle : ViewHandler V
  /-- There is one view for all events. -/
  locator_eq : locator = Locator.global
  /-- Batches are handled. -/
  search_eq :
    DispatchTable.search hierarchy (Table.ofList subscriptions) Event.batchTag = some handle
  /-- The events of a batch are taken one by one. -/
  handle_eq : ∀ {view : V} {e : Event} {events : List Event}, e.batched? = some (.ok events) →
    handle view e = events.foldlM step view

namespace FoldSetup

variable {V : Type} (setup : FoldSetup V) {context : ViewContext}

/-- The dispatcher of fresh managers in batch mode. -/
def dispatcher (setups : List (FoldSetup V)) : ViewDispatcher V where
  registrations := setups.map fun setup => setup.batched

/-- A manager that gets every event by itself, with the same step. -/
def single : ViewSetup V where
  id := setup.id
  locator := Locator.global
  initial := setup.initial
  hierarchy := Hierarchy.flat
  subscriptions := [(Event.universalTag, setup.step)]
  mode := setup.mode

/-! ### Blocks -/

/-- A batch that was put together is taken apart. -/
theorem handle_batch (view : V) (events : List Event) :
    setup.handle view (Event.batch events) = events.foldlM setup.step view :=
  setup.handle_eq (Event.batched?_batch events)

theorem composes_handle : setup.handle.Composes := by
  intro xs ys s s' s'' _ _ hxs hys
  rw [setup.handle_batch] at hxs hys ⊢
  rw [List.foldlM_append, hxs]
  exact hys

theorem handler?_batchTag (context : ViewContext) :
    (setup.projection context).handler? Event.batchTag = some setup.handle := setup.search_eq

/-- Every block affects the one view, and no other. -/
theorem mem_affected_batch (context : ViewContext) (id : String) (block : List Event) :
    id ∈ (setup.projection context).affected (Event.batch block) ↔ id = Locator.globalId := by
  have htag : (Event.batch block).tag = Event.batchTag := rfl
  unfold Projection.affected
  rw [htag, setup.handler?_batchTag]
  show id ∈ (setup.locator context (Event.batch block)).toOption.getD [] ↔ _
  rw [setup.locator_eq]
  simp [Locator.global, Except.toOption]

/-- However the log was cut into blocks, the view is what their events make of it, one by one. -/
theorem viewOf_eq_fold {blocks : List (List Event)} (hblocks : blocks ≠ [])
    (hnonempty : ∀ block ∈ blocks, block ≠ []) {view : Option (ViewInstance V)}
    (h : (setup.projection context).viewOf Locator.globalId blocks = .ok view) :
    ∃ state, blocks.flatten.foldlM setup.step setup.initial = .ok state ∧
      view = some ⟨Locator.globalId, (blocks.flatten.length : Int) - 1, state⟩ := by
  obtain ⟨state, hstate, hview⟩ := Projection.viewOf_whole (setup.handler?_batchTag context)
    setup.composes_handle hblocks hnonempty (fun block _ => (setup.mem_affected_batch context _ block).2 rfl) h
  rw [setup.handle_batch] at hstate
  exact ⟨state, hstate, hview⟩

/-! ### Single events -/

/-- Whoever subscribes to all events gets every event. -/
theorem handler?_single (context : ViewContext) (tag : String) :
    (setup.single.projection context).handler? tag = some setup.step := by
  have huniversal : (Table.ofList [(Event.universalTag, setup.step)]).get? Event.universalTag
      = some setup.step := Table.get?_insert_self _ _ _
  show (Hierarchy.flat.candidates tag).findSome?
    (Table.ofList [(Event.universalTag, setup.step)]).get? = some setup.step
  rw [Hierarchy.candidates_flat]
  by_cases htag : tag = Event.universalTag
  · rw [if_pos htag, htag]
    simp [huniversal]
  · have hother : (Table.ofList [(Event.universalTag, setup.step)]).get? tag = none := by
      show (Table.insert Table.empty Event.universalTag setup.step).get? tag = none
      rw [Table.get?_insert, if_neg htag]
      rfl
    rw [if_neg htag]
    simp [huniversal, hother]

/-- An event by itself changes the one view by a step. -/
theorem apply_single (context : ViewContext) (position : Int) (views : Views V) (e : Event) :
    (setup.single.projection context).apply position views e
      = (setup.single.projection context).update setup.step e position views Locator.globalId := by
  have hlocated : (setup.single.projection context).locator
      (setup.single.projection context).context e = .ok [Locator.globalId] := rfl
  have hdup : [Locator.globalId].eraseDups = [Locator.globalId] := rfl
  unfold Projection.apply
  rw [setup.handler?_single]
  simp only [hlocated, hdup]
  rw [List.foldlM_cons]
  rcases (setup.single.projection context).update setup.step e position views Locator.globalId <;> rfl

/-- There is at most the one view, and it has a state. -/
structure OneView (context : ViewContext) (state : V) (views : Views V) : Prop where
  /-- The one view has its id. -/
  id : ((setup.single.projection context).viewOrNew views Locator.globalId).id = Locator.globalId
  /-- The one view has the state. -/
  state : ((setup.single.projection context).viewOrNew views Locator.globalId).state = state
  /-- There is no other view. -/
  others : ∀ id, id ≠ Locator.globalId → views.get? id = none

variable {setup}

theorem oneView_empty (setup : FoldSetup V) (context : ViewContext) :
    setup.OneView context setup.initial Table.empty :=
  ⟨rfl, rfl, fun _ _ => rfl⟩

/-- An event that the step accepts moves the one view on. -/
theorem OneView.apply {state state' : V} {views : Views V}
    (h : setup.OneView context state views) {e : Event} (position : Int)
    (hstep : setup.step state e = .ok state') :
    (setup.single.projection context).apply position views e
        = .ok (views.insert Locator.globalId ⟨Locator.globalId, position, state'⟩) ∧
      setup.OneView context state'
        (views.insert Locator.globalId ⟨Locator.globalId, position, state'⟩) := by
  constructor
  · rw [setup.apply_single]
    unfold Projection.update
    rw [h.state, hstep]
    show Except.ok (views.insert Locator.globalId
      { id := (Projection.viewOrNew _ views Locator.globalId).id, last := position, state := state' })
      = _
    rw [h.id]
  · refine ⟨?_, ?_, fun id hid => ?_⟩
    · simp [Projection.viewOrNew]
    · simp [Projection.viewOrNew]
    · rw [Table.get?_insert, if_neg hid]
      exact h.others id hid

/-- Events that the steps accept, one by one, are folded into the one view. -/
theorem OneView.foldFrom {n : Nat} {state state' : V} {views : Views V}
    (h : setup.OneView context state views) {events : List Event}
    (hsteps : events.foldlM setup.step state = .ok state') :
    ∃ views', (setup.single.projection context).foldFrom n views events = .ok views' ∧
      (∀ id, id ≠ Locator.globalId → views'.get? id = none) ∧
      views'.get? Locator.globalId = if events = [] then views.get? Locator.globalId
        else some ⟨Locator.globalId, ((n + events.length : Nat) : Int) - 1, state'⟩ := by
  induction events generalizing n state views with
  | nil => exact ⟨views, rfl, h.others, rfl⟩
  | cons e rest ih =>
    rw [List.foldlM_cons] at hsteps
    rcases hstep : setup.step state e with err | state₁
    · rw [hstep] at hsteps
      simp [bind, Except.bind] at hsteps
    · rw [hstep] at hsteps
      obtain ⟨happly, hone⟩ := h.apply (n : Int) hstep
      obtain ⟨views', hfold, hothers, hview⟩ := ih (n := n + 1) hone hsteps
      refine ⟨views', Projection.foldFrom_cons_eq_ok.2 ⟨_, happly, hfold⟩, hothers, ?_⟩
      rw [hview, if_neg (List.cons_ne_nil e rest), List.length_cons]
      by_cases hrest : rest = []
      · subst hrest
        obtain rfl : state₁ = state' := Except.ok.inj hsteps
        simp
      · rw [if_neg hrest]
        congr 3
        omega

/-- The view of a manager that gets the events of the log one by one is their fold. -/
theorem fold_single (context : ViewContext) {state : V} {events : List Event} (hevents : events ≠ [])
    (hsteps : events.foldlM setup.step setup.initial = .ok state) :
    ∃ views, (setup.single.projection context).fold events = .ok views ∧
      ∀ id, views.get? id = if id = Locator.globalId then
        some ⟨Locator.globalId, (events.length : Int) - 1, state⟩ else none := by
  obtain ⟨views, hfold, hothers, hview⟩ :=
    (oneView_empty setup context).foldFrom (n := 0) hsteps
  refine ⟨views, hfold, fun id => ?_⟩
  by_cases hid : id = Locator.globalId
  · rw [if_pos hid, hid, hview, if_neg hevents, Nat.zero_add]
  · rw [if_neg hid]
    exact hothers id hid

/-! ### Following the log -/

/-- A manager has applied blocks of the log, whatever they are. -/
def Followed (context : ViewContext) (setup : FoldSetup V) (log : Log) (m : ViewManager V) : Prop :=
  ∃ blocks, m.FollowsBlocks (setup.projection context) blocks log

/-- The views of a manager in batch mode are the fold of the events up to its position, which is what
a manager makes of them that gets every event by itself. -/
theorem Followed.fold {log : Log} {m : ViewManager V} (h : setup.Followed context log m) :
    let seen := log.events.take (m.position + 1).toNat
    (m.position = -1 → ∀ id, m.view? id = none) ∧
    (0 ≤ m.position → ∃ state, seen.foldlM setup.step setup.initial = .ok state ∧
      ∀ id, m.view? id = if id = Locator.globalId then
        some ⟨Locator.globalId, m.position, state⟩ else none) ∧
    ∃ views, (setup.single.projection context).fold seen = .ok views ∧
      ∀ id, m.view? id = views.get? id := by
  intro seen
  obtain ⟨blocks, h⟩ := h
  have hlength := h.length_flatten
  have hseen : blocks.flatten = seen := h.covered
  have hothers : ∀ id, id ≠ Locator.globalId → m.view? id = none := fun id hid =>
    Projection.viewFrom_of_not_mem
      (fun block _ hmem => hid ((setup.mem_affected_batch context id block).1 hmem)) (h.views id)
  by_cases hblocks : blocks = []
  · -- Nothing has been applied.
    subst hblocks
    have hnone : ∀ id, m.view? id = none := fun id => (Except.ok.inj (h.views id)).symm
    refine ⟨fun _ => hnone, fun hnonneg => ?_, Table.empty, ?_, hnone⟩
    · rw [List.flatten_nil, List.length_nil] at hlength
      omega
    · rw [← hseen]
      rfl
  · obtain ⟨state, hstate, hview⟩ := viewOf_eq_fold setup hblocks h.nonempty (h.views _)
    have hplace : (blocks.flatten.length : Int) - 1 = m.position := by omega
    rw [hplace] at hview
    have hall : ∀ id, m.view? id = if id = Locator.globalId then
        some ⟨Locator.globalId, m.position, state⟩ else none := by
      intro id
      by_cases hid : id = Locator.globalId
      · rw [if_pos hid, hid, hview]
      · rw [if_neg hid, hothers id hid]
    rw [hseen] at hstate hplace
    have hpos : seen ≠ [] := by
      rwa [← hseen, Ne, Event.flatten_blocks_eq_nil_iff h.nonempty]
    obtain ⟨views, hfold, hviews⟩ := fold_single context hpos hstate
    refine ⟨fun hnone id => ?_, fun _ => ⟨state, hstate, hall⟩, views, hfold, fun id => ?_⟩
    · have := List.length_pos_iff.2 hpos
      omega
    · rw [hall id, hviews id, hplace]

end FoldSetup

/-- **Batch mode loses and doubles nothing.** Take fresh view managers in batch mode on an empty log,
each with one view for all events and a handler that takes the events of a batch one by one (`FoldSetup`),
and whatever commits, deliveries in any order, purges, replays and work in the background have happened
since (`ViewStep.runAll`), with chunks of any size, with reads that fail and other writers that commit at
any time: the `position` of every manager is in the log, and its view is `seen.foldlM setup.step` of the
events up to that position, each once and in order, which is what a manager with the same step makes of
them that gets every event by itself (`FoldSetup.single`). -/
theorem ViewDispatcher.blocks_fold_log {V : Type} (context : ViewContext) (config : ViewConfig)
    (setups : List (FoldSetup V)) (steps : List ViewStep) :
    let src : ViewSource SharedLog := ⟨SharedLog.store, context, config⟩
    let s := ViewStep.runAll src steps (⟨Log.empty, []⟩, FoldSetup.dispatcher setups)
    List.Forall₂ (fun setup r =>
      -1 ≤ r.manager.position ∧ r.manager.position < (s.1.log.size : Int) ∧
      let seen := s.1.log.events.take (r.manager.position + 1).toNat
      (r.manager.position = -1 → ∀ id, r.manager.view? id = none) ∧
      (0 ≤ r.manager.position → ∃ state, seen.foldlM setup.step setup.initial = .ok state ∧
        ∀ id, r.manager.view? id = if id = Locator.globalId then
          some ⟨Locator.globalId, r.manager.position, state⟩ else none) ∧
      ∃ views, (setup.single.projection context).fold seen = .ok views ∧
        ∀ id, r.manager.view? id = views.get? id) setups s.2.registrations := by
  intro src s
  have hempty : ViewDispatcher.Holds (Registration.Managed (FoldSetup.Followed context)) setups
      (⟨Log.empty, []⟩, FoldSetup.dispatcher setups) := by
    refine ⟨Log.consistent_empty, ?_⟩
    show List.Forall₂ _ setups (setups.map fun setup => setup.batched)
    rw [List.forall₂_map_right_iff, List.forall₂_same]
    exact fun setup _ => ⟨[], setup.followsBlocks_batched context Log.empty⟩
  have hs : ViewDispatcher.Holds (Registration.Managed (FoldSetup.Followed context)) setups s :=
    ViewStep.holds_runAll rfl
      (fun setup => ViewManager.invariant_followsBlocks (setup.projection context)) steps hempty
  refine hs.each.imp fun setup r hr => ?_
  obtain ⟨hnone, hfold, hsame⟩ := FoldSetup.Followed.fold hr
  obtain ⟨_, hfollows⟩ := hr
  exact ⟨hfollows.lower, hfollows.upper, hnone, hfold, hsame⟩

/-- A tally of all events that takes the events of a batch one by one. -/
def Sample.gatherer : FoldSetup Sample.Tally where
  id := "tally"
  locator := Locator.global
  initial := {}
  hierarchy := Hierarchy.flat
  subscriptions := [Sample.Tally.subscription "*" .batch]
  mode := .immediate
  step := fun t e => .ok (t.takeInner e)
  handle := Sample.Tally.perform .batch
  locator_eq := rfl
  search_eq := rfl
  handle_eq := by
    intro t e events h
    show (match e.batched? with
      | none => Except.ok (t.note s!"single {e.display}")
      | some (.error err) => .error (AppError.event err)
      | some (.ok events) => .ok (events.foldl Sample.Tally.takeInner t)) = _
    rw [h]
    exact (List.foldlM_pure (m := Except AppError)).symm

/-- Two batches are saved; the second one is handed over in part and then the first one again, and in
the end the view is built anew. -/
def Sample.gatherSteps : List ViewStep :=
  let deposits := Log.empty.continuation "a" "Deposited" (Sample.deposited.encode 5) 5
  [.save ⟨.nil, deposits.take 3⟩, .dispatch 0 3, .save ⟨.nil, deposits.drop 3⟩, .dispatch 4 1,
   .dispatch 0 3, .replay "tally"]

set_option maxRecDepth 10000 in
/-- Five deposits, delivered as they are and then read two at a time, are in the view once each. -/
theorem ViewDispatcher.blocks_fold_log_gathered :
    let src : ViewSource SharedLog := ⟨SharedLog.store, Dict.empty, { maxItemsPerBatch := 2 }⟩
    let s := ViewStep.runAll src Sample.gatherSteps
      (⟨Log.empty, []⟩, FoldSetup.dispatcher [Sample.gatherer])
    s.2.registrations.map (fun r => (r.manager.position,
      (r.manager.view? Locator.globalId).map fun view => (view.state.count, view.state.sum)))
        = [(4, some (5, 25))] ∧
    List.Forall₂ (fun setup r =>
      -1 ≤ r.manager.position ∧ r.manager.position < (s.1.log.size : Int) ∧
      let seen := s.1.log.events.take (r.manager.position + 1).toNat
      (r.manager.position = -1 → ∀ id, r.manager.view? id = none) ∧
      (0 ≤ r.manager.position → ∃ state, seen.foldlM setup.step setup.initial = .ok state ∧
        ∀ id, r.manager.view? id = if id = Locator.globalId then
          some ⟨Locator.globalId, r.manager.position, state⟩ else none) ∧
      ∃ views, (setup.single.projection Dict.empty).fold seen = .ok views ∧
        ∀ id, r.manager.view? id = views.get? id) [Sample.gatherer] s.2.registrations :=
  ⟨by decide +kernel, ViewDispatcher.blocks_fold_log Dict.empty { maxItemsPerBatch := 2 }
    [Sample.gatherer] Sample.gatherSteps⟩

end Chronicle
