import Chronicle.Proofs.View.Feeding

namespace Chronicle

/-!
# What holds of every registration

* `Registration.Invariant` — a property of registrations that depends on the manager and the mode alone
  and is kept when the log grows, when the manager is purged and when it catches up.
* `Registration.Managed` — the manager has a property; `Registration.invariant_managed` says that this
  is an invariant of registrations if it is one of managers.
* `ViewDispatcher.Holds` — the log is consistent, and the property holds of every registration.
* `ViewDispatcher.Holds.visitAll` — visiting every registration in turn, where each sees the log that
  the ones before have left.
* `ViewDispatcher.Holds.start`, `ViewDispatcher.Holds.replay`, `ViewDispatcher.Holds.settle`,
  `ViewDispatcher.Holds.sleep`, `ViewDispatcher.Holds.shutdown` — whatever a dispatcher does by itself
  keeps an invariant.
-/

/-! ### Properties -/

section

variable {α V : Type}

/-- The property is kept when the log grows. -/
def Registration.Lasting (I : α → SharedLog → Registration V → Prop) : Prop :=
  ∀ ⦃a s s' r⦄, s.Later s' → I a s r → I a s' r

/-- A property of registrations that whatever a dispatcher does by itself keeps. -/
structure Registration.Invariant (src : ViewSource SharedLog)
    (I : α → SharedLog → Registration V → Prop) : Prop where
  /-- The log may grow. -/
  lasting : Registration.Lasting I
  /-- Only the manager and the mode matter. -/
  congr : ∀ {a s r r'}, r'.manager = r.manager → r'.mode = r.mode → I a s r → I a s r'
  /-- The manager may be purged. -/
  purge : ∀ {a s r}, I a s r → I a s { r with manager := r.manager.purge }
  /-- The manager may catch up. -/
  catchUp : ∀ {a} {f : Feeding SharedLog V}, f.store.log.Consistent → I a f.store f.target →
    I a (f.catchUp src).2.store (f.catchUp src).2.target

variable {src : ViewSource SharedLog} {Q : α → Log → ViewManager V → Prop}

/-- The manager has a property, in view of the log. -/
def Registration.Managed (Q : α → Log → ViewManager V → Prop) (a : α) (s : SharedLog)
    (r : Registration V) : Prop := Q a s.log r.manager

/-- What is an invariant of managers is one of registrations. -/
theorem Registration.invariant_managed (hQ : ∀ a, ViewManager.Invariant src.context (Q a))
    (hstore : src.store = SharedLog.store) : Registration.Invariant src (Managed Q) where
  lasting a _ _ _ hs h := (hQ a).mono h hs.grown.kept
  congr hmanager _ h := by
    unfold Managed
    rw [hmanager]
    exact h
  purge {a _ _} h := (hQ a).purge h
  catchUp {a f} hlog h :=
    (Feeding.safe_catchUp hstore f.store.log (Q a) f (hQ a) hlog (.refl _) h).holds

end

namespace ViewDispatcher

variable {α V β : Type} {I J : α → SharedLog → Registration V → Prop} {as : List α}
  {s : SharedLog × ViewDispatcher V} {src : ViewSource SharedLog}

/-- The log is consistent, and the property holds of every registration. -/
structure Holds (I : α → SharedLog → Registration V → Prop) (as : List α)
    (s : SharedLog × ViewDispatcher V) : Prop where
  /-- The log is consistent. -/
  log : s.1.log.Consistent
  /-- The registrations have the property. -/
  each : List.Forall₂ (fun a r => I a s.1 r) as s.2.registrations

/-- The log may grow by itself. -/
theorem Holds.later (h : Holds I as s) (hI : Registration.Lasting I) {store : SharedLog}
    (hlater : s.1.Later store) : Holds I as (store, s.2) :=
  ⟨hlater.grown.log, h.each.imp fun _ _ hr => hI hlater hr⟩

/-! ### Visits -/

/-- An action lets other writers save, and it takes registrations from one property to another from a
state of the log on. -/
structure Takes (I J : α → SharedLog → Registration V → Prop) (s : SharedLog)
    (act : Feeding SharedLog V → β × Feeding SharedLog V) : Prop where
  /-- Nobody but other writers has written. -/
  passed : ∀ f : Feeding SharedLog V, f.store.Passed (act f).2.store
  /-- A registration that has the one property has the other one then. -/
  holds : ∀ {a} {f : Feeding SharedLog V}, s.Passed f.store → f.store.log.Consistent →
    I a f.store f.target → J a (act f).2.store (act f).2.target

variable {act : Feeding SharedLog V → β × Feeding SharedLog V}

/-- Registrations that are handed committed events keep the invariants of their managers. -/
theorem takes_notify {Q : α → Log → ViewManager V → Prop}
    (hQ : ∀ a, ViewManager.Invariant src.context (Q a)) (hstore : src.store = SharedLog.store)
    {s : SharedLog} (hlog : s.log.Consistent) {events : List Event}
    (hevents : events <:+: s.log.events) :
    Takes (Registration.Managed Q) (Registration.Managed Q) s
      (ViewDispatcher.notify src events) where
  passed f := (Feeding.keeps_notify hstore events f).passed
  holds {a f} hpassed hlog' h :=
    (Feeding.safe_notify hstore hevents (Q a) f (hQ a) hlog' (hpassed.grown hlog).kept h).holds

theorem visitList_spec (hI : Registration.Lasting I) (hJ : Registration.Lasting J)
    {s now : SharedLog} (hact : Takes I J s act) (hnow : s.Passed now) (hlog : now.log.Consistent)
    (profiler : Profiler) {registrations : List (Registration V)}
    (h : List.Forall₂ (fun a r => I a now r) as registrations) :
    now.Passed (visitList act now profiler registrations).2.1 ∧
      List.Forall₂ (fun a r => J a (visitList act now profiler registrations).2.1 r) as
        (visitList act now profiler registrations).2.2.2 := by
  induction registrations generalizing as now profiler with
  | nil =>
    cases h
    exact ⟨.refl now, .nil⟩
  | cons r rest ih =>
    cases h with
    | cons hfirst hrest =>
      -- The first registration is visited; the others see the log that this leaves.
      have hpassed := hact.passed ⟨now, profiler, r⟩
      have hdone := hact.holds (f := ⟨now, profiler, r⟩) hnow hlog hfirst
      have hlog' := (hpassed.grown hlog).log
      have hrest' := hrest.imp fun a r hr => hI (hpassed.later hlog) hr
      obtain ⟨hpassed', hlater⟩ := ih (hnow.trans hpassed) hlog' _ hrest'
      exact ⟨hpassed.trans hpassed', .cons (hJ (hpassed'.later hlog') hdone) hlater⟩

/-- Every registration is visited, and each sees the log that the ones before have left. -/
theorem Holds.visitAll (h : Holds I as s) (hI : Registration.Lasting I) (hJ : Registration.Lasting J)
    (hact : Takes I J s.1 act) :
    s.1.Passed (ViewDispatcher.visitAll act s).2.1 ∧
      Holds J as (ViewDispatcher.visitAll act s).2 := by
  obtain ⟨hpassed, heach⟩ := visitList_spec hI hJ hact (.refl s.1) h.log s.2.profiler h.each
  exact ⟨hpassed, (hpassed.grown h.log).log, heach⟩

/-- One registration is visited, and the log has grown for the others. -/
theorem forall₂_set {store store' : SharedLog} {registrations : List (Registration V)} {i : Nat}
    {r r' : Registration V} (h : List.Forall₂ (fun a r => I a store r) as registrations)
    (hr : registrations[i]? = some r) (hr' : ∀ a, I a store r → I a store' r')
    (hothers : ∀ a r, I a store r → I a store' r) :
    List.Forall₂ (fun a r => I a store' r) as (registrations.set i r') := by
  induction h generalizing i with
  | nil => cases hr
  | cons hfirst hrest ih =>
    cases i with
    | zero =>
      cases hr
      exact .cons (hr' _ hfirst) (hrest.imp hothers)
    | succ i => exact .cons (hothers _ _ hfirst) (ih hr)

theorem Holds.visitAt (h : Holds I as s) (hI : Registration.Lasting I)
    (hact : Takes I I s.1 act) (i : Nat) :
    s.1.Passed (ViewDispatcher.visitAt i act s).2.1 ∧
      Holds I as (ViewDispatcher.visitAt i act s).2 := by
  unfold ViewDispatcher.visitAt
  split
  · exact ⟨.refl _, h⟩
  · rename_i r hr
    have hpassed := hact.passed ⟨s.1, s.2.profiler, r⟩
    exact ⟨hpassed, (hpassed.grown h.log).log, forall₂_set h.each hr
      (fun a hI => hact.holds (f := ⟨s.1, s.2.profiler, r⟩) (.refl _) h.log hI)
      (fun a r' hr' => hI (hpassed.later h.log) hr')⟩

/-! ### Invariants -/

section

variable (hI : Registration.Invariant src I)

include hI

/-- Times and tasks do not matter, only the managers and their modes. -/
theorem Holds.of_targets {s' : SharedLog × ViewDispatcher V} (h : Holds I as s)
    (hstore : s'.1 = s.1) (keep : Registration V → Registration V)
    (htargets : s'.2.registrations = s.2.registrations.map keep)
    (hkeep : ∀ r, (keep r).manager = r.manager ∧ (keep r).mode = r.mode) : Holds I as s' := by
  refine ⟨hstore ▸ h.log, ?_⟩
  rw [hstore, htargets, List.forall₂_map_right_iff]
  exact h.each.imp fun a r hr => hI.congr (hkeep r).1 (hkeep r).2 hr

theorem takes_catchUp (hstore : src.store = SharedLog.store) (s : SharedLog) :
    Takes I I s (Feeding.catchUp src) where
  passed f := (Feeding.keeps_catchUp hstore f).passed
  holds _ hlog h := hI.catchUp hlog h

theorem takes_replay (hstore : src.store = SharedLog.store) (s : SharedLog) :
    Takes I I s (Feeding.replay src) where
  passed f := (Feeding.keeps_catchUp hstore (f.onManager ViewManager.purge)).passed
  holds _ hlog h := hI.catchUp (f := Feeding.onManager _ ViewManager.purge) hlog (hI.purge h)

theorem takes_runIfDue (hstore : src.store = SharedLog.store) (now : Nat) (s : SharedLog) :
    Takes I I s (runIfDue src now) where
  passed f := by
    unfold runIfDue wakeUp
    split
    · simp only
      split
      · exact .refl _
      · exact (Feeding.keeps_catchUp hstore { f with target := { f.target with
          signalled := false, wake := some (now + src.config.idlePollMs) } }).passed
    · exact .refl _
  holds {a f} _ hlog h := by
    have hwoken : I a f.store { f.target with
        signalled := false, wake := some (now + src.config.idlePollMs) } :=
      hI.congr (r := f.target) rfl rfl h
    unfold runIfDue wakeUp
    split
    · simp only
      split
      · exact hwoken
      · exact hI.catchUp (f := { f with target := { f.target with
          signalled := false, wake := some (now + src.config.idlePollMs) } }) hlog hwoken
    · exact h

theorem Holds.settle (hstore : src.store = SharedLog.store) (h : Holds I as s) :
    s.1.Passed (ViewDispatcher.settle src s).1 ∧ Holds I as (ViewDispatcher.settle src s) :=
  h.visitAll hI.lasting hI.lasting (takes_runIfDue hI hstore s.2.now s.1)

theorem Holds.wakeBefore (hstore : src.store = SharedLog.store) (limit fuel : Nat)
    (h : Holds I as s) :
    s.1.Passed (ViewDispatcher.wakeBefore src limit fuel s).1 ∧
      Holds I as (ViewDispatcher.wakeBefore src limit fuel s) := by
  induction fuel generalizing s with
  | zero => exact ⟨.refl _, h⟩
  | succ fuel ih =>
    unfold ViewDispatcher.wakeBefore
    split
    · exact ⟨.refl _, h⟩
    · rename_i wake _
      split
      · have hmoved : Holds I as (s.1, { s.2 with now := wake }) := ⟨h.log, h.each⟩
        obtain ⟨hpassed, hsettled⟩ := hmoved.settle hI hstore
        obtain ⟨hpassed', hdone⟩ := ih hsettled
        exact ⟨hpassed.trans hpassed', hdone⟩
      · exact ⟨.refl _, h⟩

theorem Holds.sleep (hstore : src.store = SharedLog.store) (ms : Nat) (h : Holds I as s) :
    s.1.Passed (ViewDispatcher.sleep src ms s).1 ∧ Holds I as (ViewDispatcher.sleep src ms s) := by
  obtain ⟨hpassed, hdone⟩ := h.wakeBefore hI hstore (s.2.now + ms) (ms + 1)
  exact ⟨hpassed, hdone.log, hdone.each⟩

/-- Starting a task leaves the manager and the mode as they are. -/
theorem Holds.startTasks (h : Holds I as s) :
    Holds I as (s.1, ViewDispatcher.startTasks src s.2) := by
  unfold ViewDispatcher.startTasks
  split
  · exact h
  · exact h.of_targets hI rfl (startTask (s.2.now + src.config.idlePollMs)) rfl fun r =>
      ⟨manager_startTask _ r, mode_startTask _ r⟩

theorem Holds.start (hstore : src.store = SharedLog.store) (purge : Bool) (h : Holds I as s) :
    s.1.Passed (ViewDispatcher.start src purge s).2.1 ∧
      Holds I as (ViewDispatcher.start src purge s).2 := by
  have hact : Takes I I s.1 (fun f => if purge then f.replay src else f.catchUp src) := by
    cases purge with
    | true => exact takes_replay hI hstore s.1
    | false => exact takes_catchUp hI hstore s.1
  obtain ⟨hpassed, hdone⟩ := h.visitAll hI.lasting hI.lasting hact
  exact ⟨hpassed, hdone.startTasks hI⟩

theorem Holds.replay (hstore : src.store = SharedLog.store) (id : String) (h : Holds I as s) :
    s.1.Passed (ViewDispatcher.replay src id s).2.1 ∧
      Holds I as (ViewDispatcher.replay src id s).2 := by
  unfold ViewDispatcher.replay
  split
  · exact ⟨.refl _, h⟩
  · exact h.visitAt hI.lasting (takes_replay hI hstore s.1) _

theorem Holds.shutdown (h : Holds I as s) : Holds I as (s.1, s.2.shutdown) :=
  h.of_targets hI rfl (fun r => { r with wake := none }) rfl fun _ => ⟨rfl, rfl⟩

end

end ViewDispatcher

end Chronicle
