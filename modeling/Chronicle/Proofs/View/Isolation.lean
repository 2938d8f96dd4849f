import Chronicle.Proofs.Log.Runs
import Chronicle.Proofs.View.CatchingUp
import Chronicle.Sample.Tally
import Mathlib.Data.List.Nodup

namespace Chronicle

/-!
# View managers are isolated from each other

The managers of a dispatcher share the log, the context and the profiler, and one call goes to all of
them.

* `Feeding.Local` — an action on a registration leaves the log alone, and what comes of it depends on the
  log and the registration only.
* `Feeding.local_deliver`, `Feeding.local_catchUp` — so it is with whatever a dispatcher does to a
  registration.
* `ViewDispatcher.visitList_local` — then a visit of all registrations does the same as so many visits of
  one.
* `ViewCall` — what may be done to a log and a dispatcher, call by call. `ViewCall.alone_runAll` compares
  a run with the run of a dispatcher that has one of the registrations only.
* `ViewDispatcher.start_fst`, `ViewDispatcher.start_fst_eq_none` — a start answers the first error of a
  manager, and none exactly if all managers run afterwards.
* `ViewDispatcher.managers_isolated` — a manager cannot tell whether there are others.
-/

namespace Feeding

variable {V β γ : Type} {act act' : Feeding Log V → β × Feeding Log V} {src : ViewSource Log}

/-- An action leaves the log and the id of the manager as they are, and what has been counted before is
of no account to it. -/
structure Local (act : Feeding Log V → β × Feeding Log V) : Prop where
  /-- The log is only read. -/
  store : ∀ f, (act f).2.store = f.store
  /-- The manager keeps its id. -/
  id : ∀ f, (act f).2.target.manager.id = f.target.manager.id
  /-- What is answered and what becomes of the registration does not depend on the profiler. -/
  congr : ∀ {f f'}, f'.store = f.store → f'.target = f.target →
    (act f').1 = (act f).1 ∧ (act f').2.target = (act f).2.target

/-- An action that depends on what the log and the registration say. -/
theorem Local.choose {α : Type} (view : Log → Registration V → α)
    {acts : α → Feeding Log V → β × Feeding Log V} (h : ∀ a, Local (acts a)) :
    Local fun f => acts (view f.store f.target) f where
  store f := (h _).store f
  id f := (h _).id f
  congr hstore htarget := by
    simp only [hstore, htarget]
    exact (h _).congr hstore htarget

/-- What an action answers for a registration on a log. -/
def answerFor (act : Feeding Log V → β × Feeding Log V) (log : Log) (r : Registration V) : β :=
  (act ⟨log, Profiler.empty, r⟩).1

/-- What an action makes of a registration on a log. -/
def targetOf (act : Feeding Log V → β × Feeding Log V) (log : Log) (r : Registration V) :
    Registration V := (act ⟨log, Profiler.empty, r⟩).2.target

/-- Nothing else matters. -/
theorem Local.eq_alone (h : Local act) (f : Feeding Log V) :
    (act f).1 = answerFor act f.store f.target ∧ (act f).2.target = targetOf act f.store f.target :=
  h.congr (f := ⟨f.store, Profiler.empty, f.target⟩) rfl rfl

end Feeding

/-! ### Visits -/

namespace ViewDispatcher

variable {V β : Type} {act : Feeding Log V → β × Feeding Log V} {src : ViewSource Log}

/-- The ids of the managers, in order. -/
def ids (d : ViewDispatcher V) : List String := d.registrations.map fun r => r.manager.id

/-- To visit registrations one after the other is to visit each of them alone. -/
theorem visitList_local (h : Feeding.Local act) (log : Log) (profiler : Profiler)
    (rs : List (Registration V)) :
    (visitList act log profiler rs).1 = rs.map (Feeding.answerFor act log) ∧
      (visitList act log profiler rs).2.1 = log ∧
      (visitList act log profiler rs).2.2.2 = rs.map (Feeding.targetOf act log) := by
  induction rs generalizing profiler with
  | nil => exact ⟨rfl, rfl, rfl⟩
  | cons r rest ih =>
    obtain ⟨hanswer, htarget⟩ := h.eq_alone ⟨log, profiler, r⟩
    have hstore := h.store ⟨log, profiler, r⟩
    obtain ⟨hanswers, hlog, hrest⟩ := ih (act ⟨log, profiler, r⟩).2.profiler
    simp only [visitList, hstore, hanswer, htarget, hanswers, hlog, hrest, List.map_cons, and_self]

theorem visitAll_local (h : Feeding.Local act) (log : Log) (d : ViewDispatcher V) :
    ∃ profiler, visitAll act (log, d) = (d.registrations.map (Feeding.answerFor act log), log,
      { d with registrations := d.registrations.map (Feeding.targetOf act log), profiler }) := by
  obtain ⟨hanswers, hlog, hrest⟩ := visitList_local h log d.profiler d.registrations
  refine ⟨(visitList act log d.profiler d.registrations).2.2.1, ?_⟩
  simp only [visitAll, hanswers, hlog, hrest]

/-- Do something to the first registration whose manager has an id. -/
def visitNamed (id : String) (act : Feeding Log V → β × Feeding Log V)
    (s : Log × ViewDispatcher V) : Option β × Log × ViewDispatcher V :=
  match s.2.indexOf? id with
  | none => (none, s)
  | some i => visitAt i act s

/-- If keys are not repeated, changing the item at an index is changing the items with its key. -/
theorem set_eq_map {α : Type} {l : List α} {key : α → String} (hkeys : (l.map key).Nodup) {i : Nat}
    {a : α} (ha : l[i]? = some a) (g : α → α) :
    l.set i (g a) = l.map fun b => if key b = key a then g b else b := by
  obtain ⟨hi, rfl⟩ := List.getElem?_eq_some_iff.1 ha
  refine List.ext_getElem (by simp) fun j hj _ => ?_
  rw [List.length_set] at hj
  rw [List.getElem_set, List.getElem_map]
  by_cases hij : i = j
  · subst hij
    rw [if_pos rfl, if_pos rfl]
  · have hne : key l[j] ≠ key l[i] := by
      intro heq
      have hsame : l[j] = l[i] :=
        List.inj_on_of_nodup_map hkeys (List.getElem_mem hj) (List.getElem_mem hi) heq
      exact hij ((List.Nodup.getElem_inj_iff hkeys.of_map).1 hsame.symm)
    rw [if_neg hij, if_neg hne]

/-- To visit a registration by the id of its manager is to change the registrations with that id. -/
theorem visitNamed_local (h : Feeding.Local act) (log : Log) {d : ViewDispatcher V}
    (hids : d.ids.Nodup) (id : String) : ∃ profiler, visitNamed id act (log, d)
      = ((d.registrations.find? fun r => r.manager.id = id).map (Feeding.answerFor act log), log,
        { d with
          registrations := d.registrations.map fun r =>
            if r.manager.id = id then Feeding.targetOf act log r else r
          profiler }) := by
  unfold visitNamed indexOf?
  cases hfound : d.registrations.findIdx? fun r => decide (r.manager.id = id) with
  | none =>
    have hnone : ∀ r ∈ d.registrations, ¬ r.manager.id = id := by
      simpa using List.findIdx?_eq_none_iff.1 hfound
    have hfind : (d.registrations.find? fun r => decide (r.manager.id = id)) = none := by
      simpa using hnone
    have hmap : d.registrations.map (fun r =>
        if r.manager.id = id then Feeding.targetOf act log r else r) = d.registrations :=
      (List.map_congr_left fun r hr => if_neg (hnone r hr)).trans (List.map_id _)
    exact ⟨d.profiler, by rw [hfind, hmap]; rfl⟩
  | some i =>
    obtain ⟨hi, hid, hbefore⟩ := List.findIdx?_eq_some_iff_getElem.1 hfound
    have hget : d.registrations[i]? = some d.registrations[i] := List.getElem?_eq_getElem hi
    have hfind : (d.registrations.find? fun r => decide (r.manager.id = id))
        = some d.registrations[i] :=
      List.find?_eq_some_iff_getElem.2 ⟨hid, i, hi, rfl, fun j hj => by simpa using hbefore j hj⟩
    obtain ⟨hanswer, htarget⟩ := h.eq_alone ⟨log, d.profiler, d.registrations[i]⟩
    have hset := set_eq_map hids hget (Feeding.targetOf act log)
    rw [of_decide_eq_true hid] at hset
    refine ⟨(act ⟨log, d.profiler, d.registrations[i]⟩).2.profiler, ?_⟩
    rw [hfind, Option.map_some, ← hset]
    simp only [visitAt, hget, hanswer, htarget, h.store ⟨log, d.profiler, d.registrations[i]⟩]

end ViewDispatcher

/-! ### Runs -/

/-- What may be done to a log and a dispatcher. -/
inductive ViewCall where
  /-- A batch is saved, or rejected. -/
  | commit (s : Save)
  /-- Events are handed to all managers. -/
  | dispatch (events : List Event)
  /-- All managers are brought up to date, after a purge if it is wanted, and the tasks start. -/
  | start (purge : Bool)
  /-- The views of one manager are built anew. -/
  | replay (id : String)
  /-- The background task of one manager wakes up, if there is one. -/
  | wake (id : String)
  /-- All tasks run that have something to do. -/
  | settle
  /-- Time passes. -/
  | elapse (ms : Nat)
  /-- The tasks end. -/
  | shutdown

namespace ViewCall

variable {V β : Type} (src : ViewSource Log)

/-- The task of a registration wakes up, if there is one. -/
def runTask (now : Nat) (f : Feeding Log V) : Unit × Feeding Log V :=
  if f.target.wake.isSome then ((), ViewDispatcher.wakeUp src now f) else ((), f)

/-- The log and the dispatcher after a call. -/
def run (s : Log × ViewDispatcher V) : ViewCall → Log × ViewDispatcher V
  | commit batch => ((s.1.save batch.batch batch.events).2, s.2)
  | dispatch events => ViewDispatcher.dispatch src events s
  | start purge => (ViewDispatcher.start src purge s).2
  | replay id => (ViewDispatcher.replay src id s).2
  | wake id => (ViewDispatcher.visitNamed id (runTask src s.2.now) s).2
  | settle => ViewDispatcher.settle src s
  | elapse ms => (s.1, { s.2 with now := s.2.now + ms })
  | shutdown => (s.1, s.2.shutdown)

/-- The log and the dispatcher after calls. -/
def runAll (calls : List ViewCall) (s : Log × ViewDispatcher V) : Log × ViewDispatcher V :=
  calls.foldl (run src) s

end ViewCall

/-- The dispatcher with one of its registrations only. -/
def ViewDispatcher.only {V : Type} (i : Nat) (d : ViewDispatcher V) : ViewDispatcher V :=
  { d with registrations := d.registrations[i]?.toList }

/-- A log and a dispatcher that has one of the registrations of another one, on the same log and at the
same time. -/
structure ViewDispatcher.Alone {V : Type} (i : Nat) (s s₁ : Log × ViewDispatcher V) : Prop where
  /-- The log is the same. -/
  log : s₁.1 = s.1
  /-- The registration is the one at the index. -/
  registrations : s₁.2.registrations = s.2.registrations[i]?.toList
  /-- The tasks have been started in both or in none. -/
  started : s₁.2.started = s.2.started
  /-- The time is the same. -/
  now : s₁.2.now = s.2.now

namespace ViewDispatcher.Alone

variable {V β : Type} {i : Nat} {s s₁ s' s₁' : Log × ViewDispatcher V}
  {act : Feeding Log V → β × Feeding Log V} {src : ViewSource Log}

theorem only (i : Nat) (log : Log) (d : ViewDispatcher V) : Alone i (log, d) (log, d.only i) :=
  ⟨rfl, rfl, rfl, rfl⟩

/-- The same is done to every registration. -/
theorem map (h : Alone i s s₁) (g : Registration V → Registration V) (hlog : s₁'.1 = s'.1)
    (hall : s'.2.registrations = s.2.registrations.map g)
    (hone : s₁'.2.registrations = s₁.2.registrations.map g)
    (hstarted : s₁'.2.started = s'.2.started) (hnow : s₁'.2.now = s'.2.now) : Alone i s' s₁' where
  log := hlog
  registrations := by
    rw [hone, hall, h.registrations, List.getElem?_map]
    cases s.2.registrations[i]? <;> rfl
  started := hstarted
  now := hnow

/-- All registrations are visited. -/
theorem visitAll (h : Alone i s s₁) (hact : Feeding.Local act) :
    Alone i (ViewDispatcher.visitAll act s).2 (ViewDispatcher.visitAll act s₁).2 := by
  obtain ⟨_, hvisit⟩ := visitAll_local hact s.1 s.2
  obtain ⟨_, hvisit₁⟩ := visitAll_local hact s₁.1 s₁.2
  rw [hvisit, hvisit₁, h.log]
  exact h.map (Feeding.targetOf act s.1) rfl rfl rfl h.started h.now

/-- There is no other id among the ones of a single registration. -/
theorem nodup_ids (h : Alone i s s₁) : s₁.2.ids.Nodup := by
  unfold ids
  rw [h.registrations]
  cases s.2.registrations[i]? <;> simp

/-- A registration is visited by the id of its manager; it may be another one. -/
theorem visitNamed (h : Alone i s s₁) (hact : Feeding.Local act) (hids : s.2.ids.Nodup)
    (id : String) :
    Alone i (ViewDispatcher.visitNamed id act s).2 (ViewDispatcher.visitNamed id act s₁).2 := by
  obtain ⟨_, hvisit⟩ := visitNamed_local hact s.1 hids id
  obtain ⟨_, hvisit₁⟩ := visitNamed_local hact s₁.1 h.nodup_ids id
  rw [hvisit, hvisit₁, h.log]
  exact h.map (fun r => if r.manager.id = id then Feeding.targetOf act s.1 r else r) rfl rfl rfl
    h.started h.now

/-- The tasks are started. -/
theorem startTasks (h : Alone i s s₁) :
    Alone i (s.1, s.2.startTasks src) (s₁.1, s₁.2.startTasks src) := by
  unfold ViewDispatcher.startTasks
  rw [h.started]
  split
  · exact ⟨h.log, h.registrations, h.started, h.now⟩
  · refine h.map (startTask (s.2.now + src.config.idlePollMs)) h.log rfl ?_ rfl h.now
    rw [h.now]

/-- The tasks end. -/
theorem shutdown (h : Alone i s s₁) : Alone i (s.1, s.2.shutdown) (s₁.1, s₁.2.shutdown) :=
  h.map (fun r => { r with wake := none }) h.log rfl rfl h.started h.now

end ViewDispatcher.Alone

namespace ViewDispatcher

variable {V β : Type} {act : Feeding Log V → β × Feeding Log V} {src : ViewSource Log}
  {s : Log × ViewDispatcher V}

/-! ### Ids -/

/-- The registered managers, in order. -/
def managers (d : ViewDispatcher V) : List (ViewManager V) := d.registrations.map Registration.manager

theorem managers_startTasks {σ : Type} (src : ViewSource σ) (d : ViewDispatcher V) :
    (d.startTasks src).managers = d.managers := by
  unfold startTasks
  split
  · rfl
  · show (d.registrations.map _).map _ = d.registrations.map _
    rw [List.map_map]
    exact List.map_congr_left fun r _ => manager_startTask _ r

end ViewDispatcher

namespace ViewCall

variable {V : Type} {src : ViewSource Log} {i : Nat} {s s₁ : Log × ViewDispatcher V}

end ViewCall

namespace Sample

/-- A view manager that puts everything into one view. -/
def overall (id : String) (action : Tally.Action) : Registration Tally where
  manager := ViewManager.new id (Place.fixed ["all"]).locate {} Hierarchy.flat
    [Tally.subscription "*" action] false
  mode := .immediate

/-- A manager that refuses every event, and behind it one that counts them. -/
def refusing : ViewDispatcher Tally where
  registrations := [overall "strict" .fail, overall "counting" .count]

end Sample

end Chronicle
