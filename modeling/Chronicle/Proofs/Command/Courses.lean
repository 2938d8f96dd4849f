import Chronicle.Proofs.Command.Agreement
import Chronicle.Proofs.Command.Contention
import Chronicle.Proofs.Command.Trials

namespace Chronicle

/-!
# Commands among others

A processor has its snapshots to itself in `Processor.process`. Here others load and trim with the same
cache while a command is processed: the steps are those of an attempt (`Trial.next`, see
`Processor.attempt_eq_steps`), and before each of them the cache may have become any other one that loads
have filled (`SnapshotCache.Filled`), others may have saved, and the store may fail.

* `Course` — how far a command has come. `Course.Step` — the attempt goes on, others save, or the attempt
  has met a conflict and there is another one. `Course.Reachable` — where that leads.
* `Course.Paced` — what holds all the time, whatever the states of the roots are.
  `Course.conflicts_cost` — so conflicts are paid for by commits of others.
* `Course.Attended` — what holds all the time if stored states are read as they were stored.
  `Course.loads_current` — so nothing has come in between a load and the commit of its attempt, and
  `Course.replay_gives` — whoever loads a root of the block gets the root that was at hand.
-/

/-! ### Courses -/

/-- How far a command has come on a log that others use too. -/
structure Course (κ S : Type) where
  /-- The log. -/
  log : Log
  /-- The log with which the attempt began. -/
  first : Log
  /-- The attempt that is under way, or the last one. -/
  trial : Trial κ S
  /-- The loads of the attempt, in order. -/
  loads : List (Loaded κ S) := []
  /-- How the store was to fail in the steps of the attempt. -/
  faults : List Fault := []
  /-- How many batches others have committed since the attempt began. -/
  rivals : Nat := 0
  /-- How many attempts there were before. -/
  conflicts : Nat := 0
  /-- How many batches others had committed when the attempt began, since the first one began. -/
  paid : Nat := 0

section

variable {κ S : Type} [DecidableEq κ] (types : κ → AggregateType S)

/-- The conflict with which an attempt has ended. -/
def Stage.conflict? : Stage κ S → Option Conflict
  | .ended (.ok (.conflict conflict)) => some conflict
  | _ => none

omit [DecidableEq κ] in
theorem Stage.conflict?_eq_some {stage : Stage κ S} {conflict : Conflict} :
    stage.conflict? = some conflict ↔ stage = .ended (.ok (.conflict conflict)) := by
  rcases stage with _ | _ | (_ | _ | _) <;> simp [conflict?]

/-- What an attempt loads in its next step. -/
def Trial.loads (repo : Repository SharedLog) (t : Trial κ S) (b : Backing SharedLog) :
    List (Loaded κ S) :=
  match t.stage with
  | .running (.acquire mode kind id _) => t.work.loads types repo mode kind id b
  | _ => []

namespace Course

/-- What a step of the attempt reads and changes. The snapshots and the clock are what others have made
of them. -/
def backing (now : Instant) (cache : SnapshotCache) (fault : Option Fault) (w : Course κ S) :
    Backing SharedLog :=
  ⟨⟨w.log, [{ fault }]⟩, cache, now⟩

/-- The attempt goes on; its next use of the store may fail. -/
def go (threshold : Nat) (now : Instant) (cache : SnapshotCache) (fault : Option Fault)
    (w : Course κ S) : Course κ S :=
  let repo : Repository SharedLog := ⟨SharedLog.store, threshold⟩
  let after := w.trial.next types repo (w.backing now cache fault)
  { w with
    log := after.2.store.log
    trial := after.1
    loads := w.loads ++ w.trial.loads types repo (w.backing now cache fault)
    faults := w.faults ++ fault.toList }

/-- Others save. -/
def others (calls : List Save) (w : Course κ S) : Course κ S :=
  { w with log := (w.log.saveAll calls).2, rivals := w.rivals + w.log.commits calls }

/-- There is another attempt. -/
def again (c : Command κ S) (batch : Uuid) (w : Course κ S) : Course κ S where
  log := w.log
  first := w.log
  trial := .start c batch
  conflicts := w.conflicts + 1
  paid := w.paid + w.rivals

/-- What may happen next. -/
inductive Step (c : Command κ S) : Course κ S → Course κ S → Prop
  /-- The attempt goes on, with any snapshots that loads have left and at any time. -/
  | go (w : Course κ S) (threshold : Nat) (now : Instant) {cache : SnapshotCache}
      (fault : Option Fault) : SnapshotCache.Filled (S := fun _ => S) types w.log cache →
      Step c w (w.go types threshold now cache fault)
  /-- Others save batches, or try to. -/
  | others (w : Course κ S) (calls : List Save) : Step c w (w.others calls)
  /-- The attempt has met a conflict, and the processor tries again. -/
  | again (w : Course κ S) (batch : Uuid) {conflict : Conflict} :
      w.trial.stage = .ended (.ok (.conflict conflict)) → Step c w (w.again c batch)

/-- Where a command can get on a log that any saves have left. -/
inductive Reachable (c : Command κ S) : Course κ S → Prop
  /-- The first attempt begins. -/
  | start {log : Log} {cache : SnapshotCache} (batch : Uuid) :
      SnapshotCache.Filled (S := fun _ => S) types log cache →
      Reachable c { log, first := log, trial := .start c batch }
  /-- Something happens. -/
  | step {w w' : Course κ S} : Reachable c w → Step types c w w' → Reachable c w'

end Course

end

/-! ### Steps of an attempt -/

/-- Without other writers, the log is as it was after a turn. -/
theorem SharedLog.Passed.log_eq {log : Log} {fault : Option Fault} {s : SharedLog}
    (h : Passed ⟨log, [{ fault }]⟩ s) : s.log = log := by
  obtain ⟨used, hused, hlog⟩ := h
  have hnone : used.flatMap Happening.rivals = [] := by
    rw [List.flatMap_eq_nil_iff]
    intro happening hmem
    have hall : happening ∈ [({ fault } : Happening)] := by
      rw [show [({ fault } : Happening)] = used ++ s.ahead from hused]
      exact List.mem_append_left _ hmem
    rw [List.mem_singleton.1 hall]
  rw [hlog, hnone, Log.saveAll_nil]

/-- No error of a program is one of the store or of the check. -/
theorem CommandFailure.ofExecution_ne (err : ExecutionError) :
    (∀ cause, ofExecution err ≠ .store cause) ∧ ∀ cause, ofExecution err ≠ .integrity cause := by
  rcases err with _ | (_ | _) <;> exact ⟨nofun, nofun⟩

/-- There is less room in a log that has grown. -/
theorem Log.HasRoomFor.of_extends {log log' : Log} {pending : List Pending}
    (h : log'.HasRoomFor pending) (hext : log.Extends log') : log.HasRoomFor pending := by
  have hle := hext.length_le
  unfold HasRoomFor HasRoom Log.size at *
  omega

namespace Course

section

variable {κ S : Type}

/-- A step that changes nothing but the stage of an attempt, at some time and with some failure of the
store: from which stage to which, and why. -/
inductive Turns (w : Course κ S) (now : Instant) (fault : Option Fault) : Stage κ S → Prop
  /-- The program gives up. -/
  | gaveUp (err : ExecutionError) : w.trial.stage = .running (.fail err) →
      w.Turns now fault (.ended (.error (.ofExecution err)))
  /-- Nothing was emitted. -/
  | nothing : w.trial.stage = .running .done → w.trial.work.takePending.1 = [] →
      w.Turns now fault (.ended (.ok (.committed none [])))
  /-- The store does not tell the next position. -/
  | untold (err : StoreError) : w.trial.stage = .running .done → fault = some (.refused err) →
      w.Turns now fault (.ended (.error (.store err)))
  /-- The batch is numbered, and the check refuses it. -/
  | unchecked (cause : BatchError) : w.trial.stage = .running .done →
      Batch.checkIntegrity w.trial.batch (Batch.number ⟨w.trial.batch, now, w.trial.metadata⟩
        w.log.size w.trial.work.takePending.1) = .error cause →
      w.Turns now fault (.ended (.error (.integrity cause)))
  /-- The batch is numbered and checked. -/
  | numbered : w.trial.stage = .running .done → w.trial.work.takePending.1 ≠ [] →
      Batch.checkIntegrity w.trial.batch (Batch.number ⟨w.trial.batch, now, w.trial.metadata⟩
        w.log.size w.trial.work.takePending.1) = .ok () →
      w.Turns now fault (.saving (Batch.number ⟨w.trial.batch, now, w.trial.metadata⟩ w.log.size
        w.trial.work.takePending.1))
  /-- The store fails when the batch is to be saved. -/
  | unsaved {events : List Event} (err : StoreError) : w.trial.stage = .saving events →
      fault = some (.refused err) → w.Turns now fault (.ended (.error (.store err)))
  /-- The batch meets a conflict. -/
  | conflict {events : List Event} (conflict : Conflict) : w.trial.stage = .saving events →
      (w.log.save w.trial.batch events).1 = .ok (.conflict conflict) →
      w.Turns now fault (.ended (.ok (.conflict conflict)))
  /-- The log refuses the batch. -/
  | refused {events : List Event} (err : StoreError) : w.trial.stage = .saving events →
      (w.log.save w.trial.batch events).1 = .error err →
      w.Turns now fault (.ended (.error (.store err)))
  /-- The attempt is over already. -/
  | ended (outcome : Except CommandFailure Attempt) : w.trial.stage = .ended outcome →
      w.Turns now fault (.ended outcome)

variable [DecidableEq κ]

variable {types : κ → AggregateType S} {threshold : Nat} {now : Instant} {cache : SnapshotCache}
  {fault : Option Fault} {w : Course κ S}

theorem go_eq {t : Trial κ S} {after : Backing SharedLog} {log : Log} {loads : List (Loaded κ S)}
    (hnext : w.trial.next types ⟨SharedLog.store, threshold⟩ (w.backing now cache fault) = (t, after))
    (hlog : after.store.log = log)
    (hloads : w.trial.loads types ⟨SharedLog.store, threshold⟩ (w.backing now cache fault) = loads) :
    w.go types threshold now cache fault = { w with
      log, trial := t, loads := w.loads ++ loads, faults := w.faults ++ fault.toList } := by
  rw [go, hnext, hloads]
  simp only [hlog]

/-- A step that neither loads nor commits leaves the rest as it is. -/
theorem go_of_stage {t : Trial κ S} {after : Backing SharedLog}
    (hnext : w.trial.next types ⟨SharedLog.store, threshold⟩ (w.backing now cache fault) = (t, after))
    (hlog : after.store.log = w.log) (hload : ∀ mode kind id rest,
      w.trial.stage ≠ .running (.acquire mode kind id rest)) :
    w.go types threshold now cache fault
      = { w with trial := t, faults := w.faults ++ fault.toList } := by
  have hloads : w.trial.loads types ⟨SharedLog.store, threshold⟩ (w.backing now cache fault) = [] := by
    unfold Trial.loads
    split
    · rename_i hstage
      exact absurd hstage (hload _ _ _ _)
    · rfl
  rw [go_eq hnext hlog hloads, List.append_nil]

/-- When the program is done, what was emitted is numbered. -/
theorem go_of_done (hstage : w.trial.stage = .running .done) : ∃ stage,
    w.go types threshold now cache fault
      = { w with trial := { w.trial with stage }, faults := w.faults ++ fault.toList } ∧
    w.Turns now fault stage := by
  let repo : Repository SharedLog := ⟨SharedLog.store, threshold⟩
  let b := w.backing now cache fault
  let b' : Backing SharedLog := { b with store := ⟨w.log, []⟩ }
  have hload : ∀ mode kind id rest, w.trial.stage ≠ .running (.acquire mode kind id rest) := by
    simp [hstage]
  have hnext : w.trial.next types repo b = w.trial.number repo b := by rw [Trial.next, hstage]
  by_cases hnone : w.trial.work.takePending.1 = []
  · have hnumber : w.trial.number repo b
        = ({ w.trial with stage := .ended (.ok (.committed none [])) }, b) := by
      simp [Trial.number, hnone]
    exact ⟨_, go_of_stage (hnext.trans hnumber) rfl hload, .nothing hstage hnone⟩
  -- The store is asked for the next position, which it tells or not.
  have hsome : w.trial.work.takePending.1.isEmpty = false := by simpa using hnone
  rcases b.store.nextPosition_fst with ⟨err, hfault, herr⟩ | hok
  · have hposition : repo.store.nextPosition b.store = (.error err, ⟨w.log, []⟩) :=
      Prod.ext herr b.store.nextPosition_snd
    have hnumber : w.trial.number repo b
        = ({ w.trial with stage := .ended (.error (.store err)) }, b') := by
      simp [Trial.number, hsome, hposition, b']
    exact ⟨_, go_of_stage (hnext.trans hnumber) rfl hload, .untold err hstage hfault⟩
  have hposition : repo.store.nextPosition b.store = (.ok (w.log.size : Int), ⟨w.log, []⟩) :=
    Prod.ext hok b.store.nextPosition_snd
  cases hcheck : Batch.checkIntegrity w.trial.batch (Batch.number
      ⟨w.trial.batch, b.now, w.trial.metadata⟩ w.log.size w.trial.work.takePending.1) with
  | error cause =>
    have hnumber : w.trial.number repo b
        = ({ w.trial with stage := .ended (.error (.integrity cause)) }, b') := by
      simp [Trial.number, hsome, hposition, hcheck, b']
    exact ⟨_, go_of_stage (hnext.trans hnumber) rfl hload, .unchecked cause hstage hcheck⟩
  | ok _ =>
    have hnumber : w.trial.number repo b = ({ w.trial with
        stage := .saving (Batch.number ⟨w.trial.batch, b.now, w.trial.metadata⟩ w.log.size
          w.trial.work.takePending.1) }, b') := by
      simp [Trial.number, hsome, hposition, hcheck, b']
    exact ⟨_, go_of_stage (hnext.trans hnumber) rfl hload, .numbered hstage hnone hcheck⟩

/-- A batch that is to be saved is committed, or nothing changes but the stage. -/
theorem go_of_saving {events : List Event} (hlog : w.log.Consistent)
    (hstage : w.trial.stage = .saving events) :
    (∃ stage, w.go types threshold now cache fault
        = { w with trial := { w.trial with stage }, faults := w.faults ++ fault.toList } ∧
      w.Turns now fault stage) ∨
    ∃ block log, w.log.save w.trial.batch events = (.ok (.committed block), log) ∧
      w.go types threshold now cache fault = { w with
        log
        trial := { w.trial with stage := .ended (.ok (.committed (some w.trial.batch) block)) }
        faults := w.faults ++ fault.toList } := by
  let repo : Repository SharedLog := ⟨SharedLog.store, threshold⟩
  let b := w.backing now cache fault
  have hload : ∀ mode kind id rest, w.trial.stage ≠ .running (.acquire mode kind id rest) := by
    simp [hstage]
  have hnext : w.trial.next types repo b = ({ w.trial with
      stage := .ended (Attempt.ofSave w.trial.batch (b.store.save w.trial.batch events).1) },
      { b with store := (b.store.save w.trial.batch events).2 }) := by
    rw [Trial.next, hstage]
    rfl
  rcases SharedLog.save_answer w.trial.batch events b.store with ⟨err, hfault, hsave⟩ | hsave
  · rw [hsave] at hnext
    exact .inl ⟨_, go_of_stage hnext rfl hload, .unsaved err hstage hfault⟩
  change b.store.save w.trial.batch events = ((w.log.save w.trial.batch events).1,
    ⟨(w.log.save w.trial.batch events).2, []⟩) at hsave
  rw [hsave] at hnext
  rcases hlog.save_cases w.trial.batch events with
    ⟨err, hanswer⟩ | ⟨conflict, hanswer⟩ | ⟨block, log, hanswer, _⟩ <;> rw [hanswer] at hnext
  · exact .inl ⟨_, go_of_stage hnext rfl hload, .refused err hstage (by rw [hanswer])⟩
  · exact .inl ⟨_, go_of_stage hnext rfl hload, .conflict conflict hstage (by rw [hanswer])⟩
  · have hloads : w.trial.loads types repo b = [] := by rw [Trial.loads, hstage]
    refine .inr ⟨block, log, hanswer, ?_⟩
    rw [go_eq hnext rfl hloads, List.append_nil]
    rfl

/-- What a step of an attempt does: it comes to another stage, or it acquires a root or emits an event,
or it commits. -/
theorem go_cases (types : κ → AggregateType S) (threshold : Nat) (now : Instant)
    (cache : SnapshotCache) (fault : Option Fault) (hlog : w.log.Consistent) :
    let repo : Repository SharedLog := ⟨SharedLog.store, threshold⟩
    let b := w.backing now cache fault
    let faults := w.faults ++ fault.toList
    (∃ stage, w.go types threshold now cache fault = { w with trial := { w.trial with stage }, faults } ∧
      w.Turns now fault stage) ∨
    (∃ mode kind id rest, w.trial.stage = .running (.acquire mode kind id rest) ∧
      (w.trial.work.acquire types repo mode kind id b).2.2.store.log = w.log ∧
      w.go types threshold now cache fault = { w with
        trial := { w.trial with
          stage := .running (rest (w.trial.work.acquire types repo mode kind id b).1)
          work := (w.trial.work.acquire types repo mode kind id b).2.1
          trace := w.trial.trace ++ w.trial.work.hookEmissions types repo mode kind id b
          created := w.trial.created ++ w.trial.work.creations types repo mode kind id b }
        loads := w.loads ++ w.trial.work.loads types repo mode kind id b
        faults }) ∨
    (∃ id e rest, w.trial.stage = .running (.emit id e rest) ∧
      w.go types threshold now cache fault = { w with
        trial := { w.trial with
          stage := .running (rest (w.trial.work.emit types id e).1)
          work := (w.trial.work.emit types id e).2
          trace := w.trial.trace ++ w.trial.work.emission types id e }
        faults }) ∨
    ∃ events block log, w.trial.stage = .saving events ∧
      w.log.save w.trial.batch events = (.ok (.committed block), log) ∧
      w.go types threshold now cache fault = { w with
        log
        trial := { w.trial with stage := .ended (.ok (.committed (some w.trial.batch) block)) }
        faults } := by
  intro repo b faults
  rcases hstage : w.trial.stage with (_ | err | ⟨mode, kind, id, rest⟩ | ⟨id, e, rest⟩) | events | outcome
  -- The program is done, or gives up.
  · exact .inl (go_of_done hstage)
  · have hnext : w.trial.next types repo b
        = ({ w.trial with stage := .ended (.error (.ofExecution err)) }, b) := by
      rw [Trial.next, hstage]
    exact .inl ⟨_, go_of_stage hnext rfl (by simp [hstage]), .gaveUp err hstage⟩
  -- It acquires a root, which reads the log, or emits an event.
  · have hsame : (w.trial.work.acquire types repo mode kind id b).2.2.store.log = w.log :=
      (UnitOfWork.passed_acquire types rfl mode kind id w.trial.work b).log_eq
    have hloads : w.trial.loads types repo b = w.trial.work.loads types repo mode kind id b := by
      rw [Trial.loads, hstage]
    exact .inr (.inl ⟨mode, kind, id, rest, rfl, hsame,
      go_eq (Trial.next_acquire b hstage) hsame hloads⟩)
  · exact .inr (.inr (.inl ⟨id, e, rest, rfl,
      go_of_stage (Trial.next_emit b hstage) rfl (by simp [hstage])⟩))
  -- The batch is to be saved.
  · refine (go_of_saving hlog hstage).imp id fun hcommits => ?_
    obtain ⟨block, log, hsave, hgo⟩ := hcommits
    exact .inr (.inr ⟨events, block, log, rfl, hsave, hgo⟩)
  -- The attempt is over.
  · have hnext : w.trial.next types repo b = (w.trial, b) := by rw [Trial.next, hstage]
    refine .inl ⟨_, ?_, .ended outcome hstage⟩
    rw [go_of_stage hnext rfl (by simp [hstage]), ← hstage]

end

end Course

namespace Course

section

variable {κ S : Type} {types : κ → AggregateType S} {w : Course κ S}

/-- The log between the steps, and no snapshots. -/
def rest (w : Course κ S) : Backing SharedLog := ⟨⟨w.log, []⟩, SnapshotCache.new 0, ⟨0, 0⟩⟩

/-- The attempt has emitted something, and its batch is numbered and checked. -/
def Saves (w : Course κ S) (events : List Event) : Prop :=
  w.trial.work.takePending.1 ≠ [] ∧ Batch.checkIntegrity w.trial.batch events = .ok () ∧
  ∃ s position, s.batch = w.trial.batch ∧ events = Batch.number s position w.trial.work.takePending.1

/-- What holds of a course all the time, whatever the states of the roots are. -/
structure Paced (types : κ → AggregateType S) (w : Course κ S) : Prop where
  /-- The log is one that saves have left. -/
  filled : ∃ cache, SnapshotCache.Filled (S := fun _ => S) types w.log cache
  /-- No root at hand is behind the log with which the attempt began, or ahead of the log as it is. -/
  work : w.trial.work.Paced w.first w.rest
  /-- If nobody has committed anything, the log is as it was. -/
  idle : w.rivals = 0 → w.trial.block = [] → w.log.events = w.first.events
  /-- The batch that is to be saved is numbered and checked. -/
  saves : ∀ events, w.trial.stage = .saving events → w.Saves events
  /-- A conflict has met a commit of others. -/
  met : ∀ conflict, w.trial.stage = .ended (.ok (.conflict conflict)) → 1 ≤ w.rivals
  /-- So have all conflicts before. -/
  paid : w.conflicts ≤ w.paid
  /-- If the store does not fail of its own and there is room, no batch is refused. -/
  accepted : w.faults = [] → w.log.HasRoomFor w.trial.work.takePending.1 →
    (∀ err, w.trial.stage ≠ .ended (.error (.store err))) ∧
      ∀ cause, w.trial.stage ≠ .ended (.error (.integrity cause))

namespace Paced

theorem consistent (h : w.Paced types) : w.log.Consistent := h.work.numbered.consistent

theorem numbered_rest {w : Course κ S} (hlog : w.log.Consistent) : w.rest.Numbered :=
  ⟨hlog, SnapshotCache.numbered_new _ 0⟩

/-- A new attempt starts in step with the log. -/
theorem start {log : Log} {cache : SnapshotCache}
    (hcache : SnapshotCache.Filled (S := fun _ => S) types log cache) (c : Command κ S) (batch : Uuid)
    {conflicts paid : Nat} (hpaid : conflicts ≤ paid) :
    Paced types { log, first := log, trial := .start c batch, conflicts, paid } where
  filled := ⟨cache, hcache⟩
  work := UnitOfWork.Paced.empty (b := ⟨⟨log, []⟩, SnapshotCache.new 0, ⟨0, 0⟩⟩)
    ⟨hcache.numbered.1, SnapshotCache.numbered_new _ 0⟩
  idle _ _ := rfl
  saves _ h := by cases h
  met _ h := by cases h
  paid := hpaid
  accepted _ _ := ⟨nofun, nofun⟩

/-- What others save does not matter to the roots at hand. -/
theorem others (h : w.Paced types) (calls : List Save) : (w.others calls).Paced types := by
  have hlog := h.consistent
  have hext := hlog.extends_saveAll calls
  obtain ⟨cache, hfilled⟩ := h.filled
  refine ⟨⟨cache, hfilled.saveAll calls⟩,
    h.work.passed (numbered_rest (w := w.others calls) (hlog.saveAll calls)) hext, ?_, h.saves, ?_,
    h.paid, fun hfaults hroom => h.accepted hfaults (hroom.of_extends hext)⟩
  · intro hnone hblock
    obtain ⟨hrivals, hcommits⟩ := Nat.add_eq_zero_iff.1 hnone
    exact (Log.events_of_commits_eq_zero hlog hcommits).trans (h.idle hrivals hblock)
  · intro conflict hmet
    exact (h.met conflict hmet).trans (Nat.le_add_right _ _)

/-- If there is room, the batch is numbered as the check wants it. -/
theorem checks (h : w.Paced types) (hroom : w.log.HasRoomFor w.trial.work.takePending.1)
    (now : Instant) : Batch.checkIntegrity w.trial.batch (Batch.number
      ⟨w.trial.batch, now, w.trial.metadata⟩ w.log.size w.trial.work.takePending.1) = .ok () :=
  (h.work.owned.numberedAs ⟨w.trial.batch, now, w.trial.metadata⟩
    (h.work.inRange (.refl _) hroom)).accepted

/-- A batch that is to be saved is committed, or it meets a commit of others, or there is no room. -/
theorem save_cases (h : w.Paced types) {events : List Event} (hsaves : w.Saves events)
    (hblock : w.trial.block = []) :
    let answer := (w.log.save w.trial.batch events).1
    (∃ block, answer = .ok (.committed block)) ∨
    (∃ conflict, answer = .ok (.conflict conflict) ∧ 1 ≤ w.rivals) ∨
    ∃ err, answer = .error err ∧ ¬ w.log.HasRoomFor w.trial.work.takePending.1 := by
  obtain ⟨hne, haccepted, s, position, hbatch, rfl⟩ := hsaves
  rw [← hbatch] at haccepted ⊢
  rcases h.work.save_cases h.consistent (.refl _) s position hne haccepted with
    hcommitted | ⟨conflict, id, hanswer, hlt⟩ | hfull
  · exact .inl hcommitted
  · refine .inr (.inl ⟨conflict, hanswer, ?_⟩)
    -- The history has grown since the attempt began, and the attempt has not added to it.
    by_contra hnone
    have hsame := h.idle (by omega) hblock
    have hhistory : w.log.history id = w.first.history id :=
      congrArg (List.filter (Event.isOf id)) hsame
    rw [hhistory] at hlt
    exact absurd hlt (Nat.lt_irrefl _)
  · exact .inr (.inr hfull)

/-- An attempt that is not over may come to a stage that fits. -/
theorem staged (h : w.Paced types) {stage : Stage κ S} {faults : List Fault}
    (hblock : w.trial.block = []) (hsaves : ∀ events, stage = .saving events → w.Saves events)
    (hmet : ∀ conflict, stage = .ended (.ok (.conflict conflict)) → 1 ≤ w.rivals)
    (haccepted : faults = [] → w.log.HasRoomFor w.trial.work.takePending.1 →
      (∀ err, stage ≠ .ended (.error (.store err))) ∧
        ∀ cause, stage ≠ .ended (.error (.integrity cause))) :
    Paced types { w with trial := { w.trial with stage }, faults } where
  filled := h.filled
  work := h.work
  idle hnone _ := h.idle hnone hblock
  saves := hsaves
  met := hmet
  paid := h.paid
  accepted := haccepted

/-- A step to another stage keeps the attempt in step with the log. -/
theorem turns (h : w.Paced types) {now : Instant} {fault : Option Fault} {stage : Stage κ S}
    (hturns : w.Turns now fault stage) : Paced types
      { w with trial := { w.trial with stage }, faults := w.faults ++ fault.toList } := by
  cases hturns with
  | gaveUp err hstage =>
    obtain ⟨hstore, hcheck⟩ := CommandFailure.ofExecution_ne err
    refine h.staged (Trial.block_of_running hstage) nofun nofun fun _ _ => ?_
    exact ⟨by simpa using hstore, by simpa using hcheck⟩
  | nothing hstage _ =>
    exact h.staged (Trial.block_of_running hstage) nofun nofun fun _ _ => ⟨nofun, nofun⟩
  | untold err hstage hfault =>
    refine h.staged (Trial.block_of_running hstage) nofun nofun fun hnone _ => ?_
    simp [hfault] at hnone
  | unchecked cause hstage hcheck =>
    refine h.staged (Trial.block_of_running hstage) nofun nofun fun _ hroom => ?_
    cases hcheck.symm.trans (h.checks hroom now)
  | numbered hstage hsome hcheck =>
    refine h.staged (Trial.block_of_running hstage) ?_ nofun fun _ _ => ⟨nofun, nofun⟩
    rintro _ ⟨⟩
    exact ⟨hsome, hcheck, _, _, rfl, rfl⟩
  | unsaved err hstage hfault =>
    refine h.staged (Trial.block_of_saving hstage) nofun nofun fun hnone _ => ?_
    simp [hfault] at hnone
  | conflict conflict hstage hanswer =>
    refine h.staged (Trial.block_of_saving hstage) nofun (fun _ _ => ?_) fun _ _ => ⟨nofun, nofun⟩
    rcases h.save_cases (h.saves _ hstage) (Trial.block_of_saving hstage) with
      ⟨_, hsaved⟩ | ⟨_, _, hpaid⟩ | ⟨_, hsaved, _⟩
    · cases hanswer.symm.trans hsaved
    · exact hpaid
    · cases hanswer.symm.trans hsaved
  | refused err hstage hanswer =>
    refine h.staged (Trial.block_of_saving hstage) nofun nofun fun _ hroom => ?_
    rcases h.save_cases (h.saves _ hstage) (Trial.block_of_saving hstage) with
      ⟨_, hsaved⟩ | ⟨_, hsaved, _⟩ | ⟨_, _, hfull⟩
    · cases hanswer.symm.trans hsaved
    · cases hanswer.symm.trans hsaved
    · exact absurd hroom hfull
  | ended outcome hstage =>
    -- The stage is the one that it was.
    have hsame : ({ w.trial with stage := .ended outcome } : Trial κ S) = w.trial := by rw [← hstage]
    rw [hsame]
    refine ⟨h.filled, h.work, h.idle, h.saves, h.met, h.paid, fun hnone hroom => ?_⟩
    exact h.accepted (List.append_eq_nil_iff.1 hnone).1 hroom

variable [DecidableEq κ]

/-- Every step of the attempt keeps it in step with the log. -/
theorem go (h : w.Paced types) (threshold : Nat) (now : Instant) {cache : SnapshotCache}
    (hcache : SnapshotCache.Filled (S := fun _ => S) types w.log cache) (fault : Option Fault) :
    (w.go types threshold now cache fault).Paced types := by
  have hstarts : w.trial.work.Paced w.first (w.backing now cache fault) :=
    h.work.passed ⟨h.consistent, hcache.numbered.2⟩ (.refl _)
  rcases w.go_cases types threshold now cache fault h.consistent with
    ⟨stage, hgo, hturns⟩ | ⟨mode, kind, id, rest, hstage, hlog, hgo⟩ | ⟨id, e, rest, hstage, hgo⟩ |
    ⟨events, block, log, hstage, hsave, hgo⟩ <;> rw [hgo]
  · exact h.turns hturns
  · -- Whatever snapshot a load starts from, its root is not ahead of the log.
    refine ⟨h.filled, ?_, fun hnone _ => h.idle hnone (Trial.block_of_running hstage), nofun, nofun,
      h.paid, fun _ _ => ⟨nofun, nofun⟩⟩
    have hacquired : (w.trial.work.acquire types ⟨SharedLog.store, threshold⟩ mode kind id
        (w.backing now cache fault)).2.1.Paced w.first _ := hstarts.acquire rfl mode kind id
    refine hacquired.passed (numbered_rest h.consistent) ?_
    rw [hlog]
    exact .refl _
  · exact ⟨h.filled, h.work.emit id e, fun hnone _ => h.idle hnone (Trial.block_of_running hstage),
      nofun, nofun, h.paid, fun _ _ => ⟨nofun, nofun⟩⟩
  · -- The batch is committed. If that adds nothing to the log, the log is still as it was.
    have hlog : (w.log.save w.trial.batch events).2 = log := by rw [hsave]
    subst hlog
    have hgrown := h.consistent.extends_saveAll [⟨w.trial.batch, events⟩]
    have hconsistent := h.consistent.save w.trial.batch events
    obtain ⟨_, hfilled⟩ := h.filled
    refine ⟨⟨_, hfilled.save ⟨w.trial.batch, events⟩⟩,
      h.work.passed (numbered_rest hconsistent) hgrown, ?_, nofun, nofun, h.paid,
      fun _ _ => ⟨nofun, nofun⟩⟩
    intro hnone hempty
    have hblock := Trial.block_of_saving hstage
    obtain rfl : block = [] := hempty
    have hadded := (h.consistent.save_spec ⟨w.trial.batch, events⟩).1
    rw [hsave] at hadded ⊢
    exact hadded.trans ((List.append_nil _).trans (h.idle hnone hblock))

/-- Every step keeps the course in step. -/
theorem step (h : w.Paced types) {c : Command κ S} {w' : Course κ S} (hstep : Step types c w w') :
    w'.Paced types := by
  cases hstep with
  | go threshold now fault hcache => exact h.go threshold now hcache fault
  | others calls => exact h.others calls
  | again batch hmet =>
    obtain ⟨cache, hfilled⟩ := h.filled
    exact start hfilled c batch (Nat.add_le_add h.paid (h.met _ hmet))

end Paced

variable [DecidableEq κ] {c : Command κ S}

theorem Reachable.paced (h : Reachable types c w) : w.Paced types := by
  induction h with
  | start batch hcache => exact .start hcache c batch (Nat.le_refl 0)
  | step _ hstep ih => exact ih.step hstep

/-- The attempt may always go on without snapshots. -/
theorem Reachable.uncached (h : Reachable types c w) (limit : Nat) :
    SnapshotCache.Filled (S := fun _ => S) types w.log (SnapshotCache.new limit) := by
  obtain ⟨_, hfilled⟩ := h.paced.filled
  exact hfilled.uncached limit

/-- **Conflicts are paid for, whatever becomes of the snapshots.** A command is tried on a log that any
saves have left. Before every step of an attempt others may save, and have made of the snapshots and the
clock what they like (`Course.Step`). There are at most as many attempts as batches that others have
committed since the first one began, and one; an attempt that meets a conflict has met such a commit of
its own; and unless the store fails of its own, no batch is refused for its numbers or for a gap as long as
there is room. -/
theorem conflicts_cost (h : Reachable types c w) :
    w.conflicts + 1 ≤ 1 + (w.paid + w.rivals) ∧
    (∀ conflict, w.trial.stage = .ended (.ok (.conflict conflict)) →
      1 ≤ w.rivals ∧ w.conflicts + 1 ≤ w.paid + w.rivals) ∧
    (w.faults = [] → w.log.HasRoomFor w.trial.work.takePending.1 →
      (∀ err, w.trial.stage ≠ .ended (.error (.store err))) ∧
        ∀ cause, w.trial.stage ≠ .ended (.error (.integrity cause))) := by
  have hpaced := h.paced
  have hpaid := hpaced.paid
  refine ⟨by omega, fun conflict hstage => ?_, hpaced.accepted⟩
  have hmet := hpaced.met conflict hstage
  exact ⟨hmet, by omega⟩

end

/-! ### What was loaded, and what is stored -/

section

variable {κ S : Type} {types : κ → AggregateType S} {w : Course κ S}

/-- A block stands in the log, and the loads of its roots were up to date with the log before it. -/
structure Stands (types : κ → AggregateType S) (w : Course κ S) (block : List Event)
    (earlier after : Log) : Prop where
  /-- The log before the block is consistent. -/
  log : earlier.Consistent
  /-- So is the log with the block. -/
  logAfter : after.Consistent
  /-- The block has been added. -/
  gained : after.events = earlier.events ++ block
  /-- It has been kept since. -/
  kept : after.Extends w.log
  /-- Every root with an event in the block has been loaded by the attempt. -/
  loaded : ∀ e ∈ block, ∃ l ∈ w.loads, e.root = .ok l.id
  /-- Such a load is what the whole history before the block makes. -/
  current : ∀ l ∈ w.loads, (∃ e ∈ block, e.root = .ok l.id) → l.Current types earlier

/-- What holds of a course all the time, if stored states are read as they were stored. -/
structure Attended (types : κ → AggregateType S) (w : Course κ S) : Prop where
  /-- The roots at hand are the loaded ones, and every load shows what the log of its time says. -/
  working : Working types w.loads w.trial.work w.rest
  /-- Every root is what its emissions have made of what was loaded. -/
  traced : w.trial.work.Traced types (Loaded.Origin types w.loads) w.trial.trace
  /-- The roots are in the order of the loads. -/
  keys : w.trial.work.roots.keys = w.loads.map Loaded.id
  /-- A committed block stands in the log, and is the numbered batch of what was emitted. -/
  committed : ∀ batch block, w.trial.stage = .ended (.ok (.committed batch block)) →
    (∃ earlier after, w.Stands types block earlier after) ∧ ∃ id s position,
      List.Forall₂ (Event.StoredAs id) (Batch.number s position w.trial.work.takePending.1) block

namespace Attended

theorem sound_rest {w : Course κ S} (hlog : w.log.Consistent) :
    w.rest.Sound (S := fun _ => S) types w.rest.store.log :=
  ⟨hlog, SnapshotCache.sound_new _ _ 0⟩

/-- A new attempt has loaded nothing. -/
theorem start {log : Log} (hlog : log.Consistent) (c : Command κ S) (batch : Uuid)
    {conflicts paid : Nat} :
    Attended types { log, first := log, trial := .start c batch, conflicts, paid } where
  working := .empty ⟨hlog, SnapshotCache.sound_new _ _ 0⟩
  traced := .empty types _
  keys := rfl
  committed _ _ h := by cases h

/-- What others save stands behind what has been stored. -/
theorem others (h : w.Attended types) (hlog : w.log.Consistent) (calls : List Save) :
    (w.others calls).Attended types := by
  have hext := hlog.extends_saveAll calls
  refine ⟨h.working.passed (sound_rest (w := w.others calls) (hlog.saveAll calls)) hext, h.traced,
    h.keys, fun batch block hstage => ?_⟩
  obtain ⟨⟨earlier, after, hstands⟩, hnumbered⟩ := h.committed batch block hstage
  exact ⟨⟨earlier, after, { hstands with kept := hstands.kept.trans hext }⟩, hnumbered⟩

/-- A step to another stage stores nothing. -/
theorem turns (h : w.Attended types) (hlog : w.log.Consistent) {now : Instant} {fault : Option Fault}
    {stage : Stage κ S} (hturns : w.Turns now fault stage) : Attended types
      { w with trial := { w.trial with stage }, faults := w.faults ++ fault.toList } := by
  refine ⟨h.working, h.traced, h.keys, ?_⟩
  rintro batch block hstage
  obtain rfl : stage = .ended (.ok (.committed batch block)) := hstage
  cases hturns with
  | nothing _ hnone =>
    refine ⟨⟨w.log, w.log, hlog, hlog, (List.append_nil _).symm, .refl _, nofun, ?_⟩,
      .nil, ⟨.nil, ⟨0, 0⟩, Dict.empty⟩, 0, ?_⟩
    · rintro l _ ⟨e, he, _⟩
      cases he
    · show List.Forall₂ _ (Batch.number _ _ w.trial.work.takePending.1) []
      rw [hnone]
      exact .nil
  | ended _ hstage =>
    obtain ⟨⟨earlier, after, hstands⟩, hnumbered⟩ := h.committed batch block hstage
    exact ⟨⟨earlier, after, { hstands with }⟩, hnumbered⟩

variable [DecidableEq κ]

/-- Every step of the attempt keeps its loads in step with the log. -/
theorem go (hfaithful : AggregateType.Faithful (S := fun _ => S) types) (h : w.Attended types)
    (hpaced : w.Paced types) (threshold : Nat) (now : Instant) {cache : SnapshotCache}
    (hcache : SnapshotCache.Filled (S := fun _ => S) types w.log cache) (fault : Option Fault) :
    (w.go types threshold now cache fault).Attended types := by
  have hlog := hpaced.consistent
  have hstarts : Working types w.loads w.trial.work (w.backing now cache fault) :=
    h.working.passed ⟨hlog, hcache.sound hfaithful⟩ (.refl _)
  rcases w.go_cases types threshold now cache fault hlog with
    ⟨stage, hgo, hturns⟩ | ⟨mode, kind, id, rest, hstage, hsame, hgo⟩ | ⟨id, e, rest, hstage, hgo⟩ |
    ⟨events, block, log, hstage, hsave, hgo⟩ <;> rw [hgo]
  · exact h.turns hlog hturns
  · have hacquired : Working types (w.loads ++ w.trial.work.loads types ⟨SharedLog.store, threshold⟩
        mode kind id (w.backing now cache fault)) _ _ := hstarts.acquire rfl hfaithful mode kind id
    refine ⟨hacquired.passed (sound_rest hlog) ?_,
      hstarts.traced_acquire rfl hfaithful h.traced mode kind id,
      UnitOfWork.keys_acquire h.keys types _ mode kind id _, nofun⟩
    rw [hsame]
    exact .refl _
  · exact ⟨h.working.emit id e, h.traced.emit id e, (UnitOfWork.keys_emit types id e).trans h.keys, nofun⟩
  · -- Only a batch that goes on from the histories is committed, so what was loaded is current.
    obtain ⟨_, _, s, position, _, rfl⟩ := hpaced.saves _ hstage
    rcases hlog.save_cases w.trial.batch (Batch.number s position w.trial.work.takePending.1) with
      ⟨_, hanswer⟩ | ⟨_, hanswer⟩ | ⟨_, _, hanswer, hblock, hevents, hconsistent⟩
    · cases hanswer.symm.trans hsave
    · cases hanswer.symm.trans hsave
    cases hanswer.symm.trans hsave
    have hext : w.log.Extends log := ⟨block, hevents.symm⟩
    refine ⟨h.working.passed (sound_rest hconsistent) hext, h.traced, h.keys, ?_⟩
    rintro _ _ ⟨⟩
    have hcurrent := fun {e} he => h.working.current (.refl _) hconsistent hblock hevents (e := e) he
    refine ⟨⟨w.log, log, hlog, hconsistent, hevents, .refl _, fun e he => (hcurrent he).1, ?_⟩,
      _, s, position, hblock⟩
    rintro l hl ⟨e, he, hroot⟩
    exact (hcurrent he).2 l hl hroot

end Attended

variable [DecidableEq κ] {c : Command κ S}

theorem Reachable.attended (hfaithful : AggregateType.Faithful (S := fun _ => S) types)
    (h : Reachable types c w) : w.Attended types := by
  induction h with
  | start batch hcache => exact .start hcache.numbered.1 c batch
  | @step w w' hreached hstep ih =>
    have hpaced := hreached.paced
    cases hstep with
    | go threshold now fault hcache => exact ih.go hfaithful hpaced threshold now hcache fault
    | others calls => exact ih.others hpaced.consistent calls
    | again batch _ => exact .start hpaced.consistent c batch

/-- **No lost update, whatever becomes of the snapshots.** A command is tried on a log that any saves have
left. Before every step of an attempt others may save, and have made of the snapshots and the clock what
they like (`Course.Step`). If an attempt commits a block, the block stands in the log, and whatever root
has an event in it was loaded in that attempt as its whole history before the block makes it
(`Loaded.Current`): nothing came in between. -/
theorem loads_current (hfaithful : AggregateType.Faithful (S := fun _ => S) types)
    (h : Reachable types c w) {batch : Option Uuid} {block : List Event}
    (hstage : w.trial.stage = .ended (.ok (.committed batch block))) :
    ∃ earlier after, w.Stands types block earlier after :=
  ((h.attended hfaithful).committed batch block hstage).1

/-- What an attempt had at hand, and what its committed block makes of it. -/
structure Agrees (types : κ → AggregateType S) (w : Course κ S) (block : List Event) : Prop where
  /-- Every root has been loaded once. -/
  once : (w.loads.map Loaded.id).Nodup
  /-- The block tells what has been emitted, root by root in the order of the loads. -/
  told : block.map Event.told = w.loads.flatMap fun l =>
    (w.trial.trace.filter (Emission.isOn l.id)).map fun x => (.ok l.id, x.event.content)
  /-- On every root, what its creation has emitted comes first. -/
  hooks : ∀ id, (w.trial.trace.filter (Emission.isOn id)).Pairwise fun a b =>
    b.hook = true → a.hook = true
  /-- Whoever loads a root with an event in the block at the last position of the block, with any
  snapshots that loads have left, gets the root that was at hand at the end, with its events committed. -/
  replay : ∀ l ∈ w.loads, (∃ e ∈ block, e.root = .ok l.id) → ∃ position root last cutoff,
    Processor.lastPosition block = some position ∧
    w.trial.work.roots.get? l.id = some (l.kind, root) ∧
    (block.filter (Event.isOf l.id)).getLast? = some last ∧ last.position = .ok cutoff ∧
    ∀ (threshold : Nat) (now : Instant) (cache : SnapshotCache),
      SnapshotCache.Filled (S := fun _ => S) types w.log cache →
      (Repository.getAt ⟨Log.store, threshold⟩ (types l.kind) l.id position
        ⟨w.log, cache, now⟩).1 = .ok { root with
          sequence := root.sequence + (block.filter (Event.isOf l.id)).length
          cutoff
          uncommitted := [] }

/-- **What a command saw is what a replay gives, whatever becomes of the snapshots.** A command is tried
on a log that any saves have left. Before every step of an attempt others may save, and have made of the
snapshots and the clock what they like (`Course.Step`). If an attempt commits a block and no aggregate has
refused an event in it, the block has the events of its roots as they were emitted, and whoever loads one
of the roots at the last position of the block, at any later time, gets the root that the attempt had at
hand (`Course.Agrees`). -/
theorem replay_gives (hfaithful : AggregateType.Faithful (S := fun _ => S) types)
    (hread : ∀ k, (types k).ReadsContent) (h : Reachable types c w) {batch : Option Uuid}
    {block : List Event} (hstage : w.trial.stage = .ended (.ok (.committed batch block)))
    (htaken : ∀ x ∈ w.trial.trace, x.refusal = none) : w.Agrees types block := by
  have hpaced := h.paced
  have hattended := h.attended hfaithful
  have howned := hpaced.work.owned
  obtain ⟨⟨earlier, after, hstands⟩, _, s, position, hblock⟩ :=
    hattended.committed batch block hstage
  refine ⟨hattended.keys ▸ w.trial.work.roots.nodup_keys,
    UnitOfWork.told_loads hattended.traced howned hattended.keys htaken hblock,
    hattended.traced.hooks, fun l hl hhas => ?_⟩
  obtain ⟨e, he, _⟩ := id hhas
  obtain ⟨root, last, cutoff, hget, hlast, hcutoff, hsome, hreplay⟩ :=
    hattended.working.replay_block hattended.traced howned hread htaken hblock hstands.logAfter
      hstands.gained hstands.current hl hhas
  refine ⟨_, root, last, cutoff, Processor.lastPosition_block hstands.logAfter hstands.gained
    (List.ne_nil_of_mem he), hget, hlast, hcutoff, fun threshold now cache hcache => ?_⟩
  exact Repository.getAt_extends (b := ⟨w.log, cache, now⟩) hstands.logAfter hstands.kept
    ⟨hpaced.consistent, hcache.sound hfaithful⟩ hfaithful hsome hreplay threshold

end

end Course

namespace Sample

/-- A step of an attempt when somebody has removed all snapshots. -/
def uncachedStep (w : Course Kind State) : Course Kind State :=
  w.go aggregateType 1 ⟨0, 0⟩ (SnapshotCache.new 0) none

/-- An account is loaded from a snapshot for a deposit, and the snapshots are removed. Before the deposit
is saved, another one is, so there is a conflict. -/
def crossed : Course Kind State :=
  let b := LoadStep.runAll aggregateType depositSteps (Backing.fresh 10 ⟨0, 0⟩)
  let start : Course Kind State := { log := b.store, first := b.store, trial := .start deposit .nil }
  let loaded := uncachedStep (start.go aggregateType 1 ⟨0, 0⟩ b.cache none)
  let rival : Save := ⟨.nil, (Log.empty.continuation "a" "Deposited" (deposited.encode 5) 5).drop 4⟩
  uncachedStep (uncachedStep (loaded.others [rival]))

/-- There is another attempt, without snapshots. -/
def crossedAgain : Course Kind State :=
  uncachedStep (uncachedStep (uncachedStep (uncachedStep (crossed.again deposit .nil))))

theorem reachable_uncachedStep {w : Course Kind State} (h : Course.Reachable aggregateType deposit w) :
    Course.Reachable aggregateType deposit (uncachedStep w) :=
  h.step (.go w 1 ⟨0, 0⟩ none (h.uncached 0))

theorem reachable_crossed : Course.Reachable aggregateType deposit crossed := by
  have hcache := LoadStep.filled_runAll (S := fun _ => State) aggregateType 10 ⟨0, 0⟩ depositSteps
  have hloaded := (Course.Reachable.start (c := deposit) .nil hcache).step
    (.go _ 1 ⟨0, 0⟩ none hcache)
  exact reachable_uncachedStep (reachable_uncachedStep
    ((reachable_uncachedStep hloaded).step (.others _ _)))

/-- A second attempt starts where the first one meets a conflict. -/
theorem reachable_crossedAgain {conflict : Conflict}
    (h : crossed.trial.stage = .ended (.ok (.conflict conflict))) :
    Course.Reachable aggregateType deposit crossedAgain :=
  reachable_uncachedStep (reachable_uncachedStep (reachable_uncachedStep
    (reachable_uncachedStep (reachable_crossed.step (.again _ .nil h)))))

end Sample

set_option maxRecDepth 10000 in
/-- The first attempt meets a conflict, for which the other deposit has paid. The second one commits, and
has loaded the account as both deposits make it. -/
theorem Course.loads_current_crossed :
    (∃ conflict, Sample.crossed.trial.stage = .ended (.ok (.conflict conflict))) ∧
    Sample.crossed.rivals = 1 ∧ Sample.crossedAgain.conflicts = 1 ∧
    ∃ earlier after, Sample.crossedAgain.Stands Sample.aggregateType
      Sample.crossedAgain.trial.block earlier after := by
  have hmet : Sample.crossed.trial.stage.conflict?.isSome = true := by decide +kernel
  have hrivals : Sample.crossed.rivals = 1 ∧ Sample.crossedAgain.conflicts = 1 := by decide +kernel
  have hblock : Sample.crossedAgain.trial.block ≠ [] := by decide +kernel
  obtain ⟨conflict, hconflict⟩ := Option.isSome_iff_exists.1 hmet
  have hstage := Stage.conflict?_eq_some.1 hconflict
  obtain ⟨batch, hcommitted⟩ := Trial.stage_of_block hblock
  exact ⟨⟨conflict, hstage⟩, hrivals.1, hrivals.2, loads_current Sample.faithful_aggregateType
    (Sample.reachable_crossedAgain hstage) hcommitted⟩

end Chronicle
