import Chronicle.Proofs.Command.Batches

namespace Chronicle

/-!
# Attempts side by side

* `Trial` — an attempt that is under way: what is left of its program, the roots at hand, and what it
  has emitted and created. `Trial.next` takes it one step further. No step uses the store twice, so
  others can come in wherever they can at all.
* `Processor.attempt_eq_steps` — with any store, an attempt is a number of such steps.
* `Trials.Step` — attempts on one log begin and go on, in any order. `Trials.Reachable` — where that
  leads.
* `Trial.next_log` — what a step does to the log: nothing, or it adds the batch of its trial.
-/

/-! ### Trials -/

/-- How far an attempt is. -/
inductive Stage (κ S : Type) where
  /-- The rest of the program is to be executed. -/
  | running (program : Program κ S)
  /-- The numbered batch is to be saved. -/
  | saving (events : List Event)
  /-- The attempt is over. -/
  | ended (outcome : Except CommandFailure Attempt)

/-- An attempt that is under way. -/
structure Trial (κ S : Type) where
  /-- The metadata of the command. -/
  metadata : Metadata
  /-- The id of the batch. -/
  batch : Uuid
  /-- How far it is. -/
  stage : Stage κ S
  /-- The roots at hand. -/
  work : UnitOfWork κ S := UnitOfWork.empty
  /-- The emissions so far, in order. -/
  trace : List Emission := []
  /-- The roots that it has created so far, and their kinds. -/
  created : List (String × κ) := []

/-- What an acquisition creates. -/
def UnitOfWork.creations {σ κ S : Type} (types : κ → AggregateType S) (repo : Repository σ)
    (mode : Acquisition) (kind : κ) (id : String) (u : UnitOfWork κ S) (b : Backing σ) :
    List (String × κ) :=
  match u.created? types repo mode kind id b with
  | some _ => [(id, kind)]
  | none => []

namespace Trial

section

variable {σ κ S : Type}

/-- An attempt that has not done anything yet. -/
def start (c : Command κ S) (batch : Uuid) : Trial κ S where
  metadata := c.metadata
  batch := batch
  stage := .running c.program

/-- Number what has been emitted; the attempt is over if that is nothing. -/
def number (repo : Repository σ) (t : Trial κ S) (b : Backing σ) : Trial κ S × Backing σ :=
  if t.work.takePending.1.isEmpty then ({ t with stage := .ended (.ok (.committed none [])) }, b)
  else match repo.store.nextPosition b.store with
    | (.error err, store) => ({ t with stage := .ended (.error (.store err)) }, { b with store })
    | (.ok position, store) =>
      let events := Batch.number ⟨t.batch, b.now, t.metadata⟩ position t.work.takePending.1
      match Batch.checkIntegrity t.batch events with
      | .error err => ({ t with stage := .ended (.error (.integrity err)) }, { b with store })
      | .ok _ => ({ t with stage := .saving events }, { b with store })

/-- One step of an attempt. -/
def next [DecidableEq κ] (types : κ → AggregateType S) (repo : Repository σ) (t : Trial κ S)
    (b : Backing σ) : Trial κ S × Backing σ :=
  match t.stage with
  | .running .done => t.number repo b
  | .running (.fail err) => ({ t with stage := .ended (.error (.ofExecution err)) }, b)
  | .running (.acquire mode kind id rest) =>
    let (answer, work, after) := t.work.acquire types repo mode kind id b
    ({ t with
        stage := .running (rest answer)
        work
        trace := t.trace ++ t.work.hookEmissions types repo mode kind id b
        created := t.created ++ t.work.creations types repo mode kind id b }, after)
  | .running (.emit id e rest) =>
    let (answer, work) := t.work.emit types id e
    ({ t with
        stage := .running (rest answer)
        work
        trace := t.trace ++ t.work.emission types id e }, b)
  | .saving events =>
    let (answer, store) := repo.store.save t.batch events b.store
    ({ t with stage := .ended (Attempt.ofSave t.batch answer) }, { b with store })
  | .ended _ => (t, b)

/-- So many steps, one after the other. -/
def steps [DecidableEq κ] (types : κ → AggregateType S) (repo : Repository σ) :
    Nat → Trial κ S × Backing σ → Trial κ S × Backing σ
  | 0, s => s
  | n + 1, s => steps types repo n (s.1.next types repo s.2)

end

end Trial

/-! ### Attempts step by step -/

section

variable {σ δ κ S : Type} [DecidableEq κ] (types : κ → AggregateType S) (repo : Repository σ)

theorem Trial.steps_add (n m : Nat) (s : Trial κ S × Backing σ) :
    steps types repo (n + m) s = steps types repo m (steps types repo n s) := by
  induction n generalizing s with
  | zero => rw [Nat.zero_add, steps]
  | succ n ih => rw [Nat.succ_add, steps, steps, ih]

variable {types repo}

theorem Trial.next_acquire {t : Trial κ S} {mode : Acquisition} {kind : κ} {id : String}
    {rest : Except UnitOfWorkError (Option (Root S)) → Program κ S} (b : Backing σ)
    (h : t.stage = .running (.acquire mode kind id rest)) :
    t.next types repo b = ({ t with
      stage := .running (rest (t.work.acquire types repo mode kind id b).1)
      work := (t.work.acquire types repo mode kind id b).2.1
      trace := t.trace ++ t.work.hookEmissions types repo mode kind id b
      created := t.created ++ t.work.creations types repo mode kind id b },
      (t.work.acquire types repo mode kind id b).2.2) := by
  rw [next, h]

theorem Trial.next_emit {t : Trial κ S} {id : String} {e : Event}
    {rest : Option (Root S × Option AppError) → Program κ S} (b : Backing σ)
    (h : t.stage = .running (.emit id e rest)) :
    t.next types repo b = ({ t with
      stage := .running (rest (t.work.emit types id e).1)
      work := (t.work.emit types id e).2
      trace := t.trace ++ t.work.emission types id e }, b) := by
  rw [next, h]

variable (types repo)

/-- Steps, as many as a program has, execute it. -/
theorem Trial.steps_run (program : Program κ S) {t : Trial κ S} (b : Backing σ)
    (ht : t.stage = .running program) :
    let ran := program.run types repo t.work b
    ∃ n t', steps types repo n (t, b) = (t', ran.2.2) ∧
      t'.stage = .running (match ran.1 with | none => .done | some err => .fail err) ∧
      t'.work = ran.2.1 ∧ t'.trace = t.trace ++ program.emissions types repo t.work b ∧
      t'.metadata = t.metadata ∧ t'.batch = t.batch := by
  induction program generalizing t b with
  | done => exact ⟨0, t, rfl, ht, rfl, (List.append_nil _).symm, rfl, rfl⟩
  | fail err => exact ⟨0, t, rfl, ht, rfl, (List.append_nil _).symm, rfl, rfl⟩
  | acquire mode kind id rest ih =>
    obtain ⟨n, t', hsteps, hstage, hwork, htrace, hrest⟩ :=
      ih _ (t := (t.next types repo b).1) (t.next types repo b).2 (by rw [next_acquire b ht])
    simp only [next_acquire b ht] at hsteps hstage hwork htrace hrest
    refine ⟨n + 1, t', ?_, hstage, hwork, ?_, hrest⟩
    · rw [steps, next_acquire b ht]
      exact hsteps
    · rw [htrace, List.append_assoc]
      rfl
  | emit id e rest ih =>
    obtain ⟨n, t', hsteps, hstage, hwork, htrace, hrest⟩ :=
      ih _ (t := (t.next types repo b).1) (t.next types repo b).2 (by rw [next_emit b ht])
    simp only [next_emit b ht] at hsteps hstage hwork htrace hrest
    refine ⟨n + 1, t', ?_, hstage, hwork, ?_, hrest⟩
    · rw [steps, next_emit b ht]
      exact hsteps
    · rw [htrace, List.append_assoc]
      rfl

omit types repo in
/-- Steps number and save what has been emitted. -/
theorem Trial.steps_commit (p : Processor σ δ κ S) {t : Trial κ S} (b : Backing σ)
    (ht : t.stage = .running .done) (hsome : t.work.takePending.1 ≠ []) :
    let commit := p.commit t.metadata t.work.takePending.1 t.batch b
    ∃ n, steps p.types p.repository n (t, b) = ({ t with stage := .ended commit.1 }, commit.2) := by
  have hnumber : t.next p.types p.repository b = t.number p.repository b := by rw [next, ht]
  have hnot : t.work.takePending.1.isEmpty = false := by simpa using hsome
  unfold number at hnumber
  simp only [hnot, Bool.false_eq_true, if_false] at hnumber
  have hpair : ∀ {answer}, (p.repository.store.nextPosition b.store).1 = answer →
      p.repository.store.nextPosition b.store
        = (answer, (p.repository.store.nextPosition b.store).2) := fun h => Prod.ext h rfl
  intro commit
  unfold commit
  rcases p.commit_steps t.metadata t.work.takePending.1 t.batch b with
    ⟨err, hnext, hcommit⟩ | ⟨position, hnext, ⟨cause, hcheck, hcommit⟩ | ⟨hcheck, hcommit⟩⟩
  · rw [hpair hnext] at hnumber
    rw [hcommit]
    exact ⟨1, hnumber⟩
  · rw [hpair hnext] at hnumber
    simp only [hcheck] at hnumber
    rw [hcommit]
    exact ⟨1, hnumber⟩
  · rw [hpair hnext] at hnumber
    simp only [hcheck] at hnumber
    rw [hcommit]
    exact ⟨2, by rw [steps, hnumber, steps, steps, next]⟩

omit types repo in
/-- An attempt is a number of steps. -/
theorem Processor.attempt_eq_steps (p : Processor σ δ κ S) (c : Command κ S) (w : Processing σ δ) :
    ∃ n t, Trial.steps p.types p.repository n (Trial.start c (p.batchId w.numbered), w.backing)
        = (t, (p.attempt c w).2.backing) ∧ t.stage = .ended (p.attempt c w).1 ∧
      t.work = p.work c w ∧ t.trace = p.emissions c w := by
  obtain ⟨n, t, hsteps, hstage, hwork, htrace, hmetadata, hbatch⟩ := Trial.steps_run p.types
    p.repository c.program (t := .start c (p.batchId w.numbered)) w.backing rfl
  generalize hran : c.program.run p.types p.repository
    (Trial.start c (p.batchId w.numbered)).work w.backing = ran at hsteps hstage hwork
  change c.program.run p.types p.repository UnitOfWork.empty w.backing = ran at hran
  change t.metadata = c.metadata at hmetadata
  change t.batch = p.batchId w.numbered at hbatch
  -- What is left is to number what was emitted, and to save it.
  obtain ⟨m, hlast⟩ : ∃ m, Trial.steps p.types p.repository m (t, ran.2.2)
      = ({ t with stage := .ended (p.attempt c w).1 }, (p.attempt c w).2.backing) := by
    have hattempts := p.attempt_steps c w
    simp only [hran] at hattempts
    rcases hattempts with ⟨err, hfailed, hattempt⟩ | ⟨hdone, hnone, hattempt⟩ | ⟨hdone, hsome, hattempt⟩
    · rw [hfailed] at hstage
      exact ⟨1, by rw [hattempt, Trial.steps, Trial.steps, Trial.next, hstage]⟩
    · rw [hdone] at hstage
      refine ⟨1, ?_⟩
      rw [hattempt, Trial.steps, Trial.steps, Trial.next, hstage]
      simp only [Trial.number, hwork, hnone, List.isEmpty_nil, if_true]
    · rw [hdone] at hstage
      rw [← hwork] at hsome
      rw [← hwork, ← hmetadata, ← hbatch] at hattempt
      obtain ⟨m, hm⟩ := Trial.steps_commit p ran.2.2 hstage hsome
      exact ⟨m, by rw [hm, hattempt]⟩
  refine ⟨n + m, { t with stage := .ended (p.attempt c w).1 }, ?_, rfl, ?_, ?_⟩
  · rw [Trial.steps_add, hsteps]
    exact hlast
  · rw [Processor.work, hran]
    exact hwork
  · rw [Processor.emissions]
    exact htrace

end

/-! ### Many trials -/

/-- A log, and the attempts that use it or have used it. -/
structure Trials (κ S : Type) where
  /-- The log. -/
  log : Log := Log.empty
  /-- The attempts, in the order in which they began. -/
  all : List (Trial κ S) := []

namespace Trials

variable {κ S : Type} [DecidableEq κ] (types : κ → AggregateType S)

/-- One of the attempts takes a step. -/
def advance (threshold : Nat) (now : Instant) (cache : SnapshotCache) (i : Nat) (s : Trials κ S) :
    Trials κ S :=
  match s.all[i]? with
  | none => s
  | some t =>
    let after := t.next types ⟨Log.store, threshold⟩ ⟨s.log, cache, now⟩
    ⟨after.2.store, s.all.set i after.1⟩

/-- What may happen next. -/
inductive Step : Trials κ S → Trials κ S → Prop
  /-- A processor attempts a command, for the first time or again. -/
  | begin (s : Trials κ S) (c : Command κ S) (batch : Uuid) :
      Step s { s with all := s.all ++ [.start c batch] }
  /-- An attempt goes on. Its processor may use any snapshots that loads have left. -/
  | advance (s : Trials κ S) (i threshold : Nat) (now : Instant) {cache : SnapshotCache} :
      SnapshotCache.Filled (S := fun _ => S) types s.log cache →
      Step s (s.advance types threshold now cache i)

/-- Where processors can get from an empty log, without anybody else to write to it. -/
inductive Reachable : Trials κ S → Prop
  /-- Nothing has happened yet. -/
  | start : Reachable {}
  /-- Something happens. -/
  | step {s s' : Trials κ S} : Reachable s → Step types s s' → Reachable s'

end Trials

/-! ### Steps and the log -/

namespace Trial

variable {κ S : Type}

/-- What the attempt has committed. -/
def block (t : Trial κ S) : List Event :=
  match t.stage with
  | .ended (.ok (.committed _ block)) => block
  | _ => []

/-- An attempt whose program still runs has committed nothing. -/
theorem block_of_running {t : Trial κ S} {program : Program κ S} (h : t.stage = .running program) :
    t.block = [] := by
  rw [block, h]

/-- Nor has one whose batch is still to be saved. -/
theorem block_of_saving {t : Trial κ S} {events : List Event} (h : t.stage = .saving events) :
    t.block = [] := by
  rw [block, h]

/-- An attempt with a block has committed it. -/
theorem stage_of_block {t : Trial κ S} (h : t.block ≠ []) :
    ∃ batch, t.stage = .ended (.ok (.committed batch t.block)) := by
  obtain ⟨metadata, id, stage, work, trace, created⟩ := t
  rcases stage with _ | _ | _ | ⟨batch, block⟩ | _
  case ended.ok.committed => exact ⟨batch, rfl⟩
  all_goals exact absurd rfl h

variable [DecidableEq κ] {types : κ → AggregateType S} {t : Trial κ S}

/-- A step leaves the log alone, or it adds the batch that was to be saved. -/
theorem next_log (types : κ → AggregateType S) (t : Trial κ S) (threshold : Nat) {b : Backing Log}
    (hlog : b.store.Consistent) :
    let after := t.next types ⟨Log.store, threshold⟩ b
    (after.2.store = b.store ∧ after.1.block = t.block) ∨
    ∃ events block, t.stage = .saving events ∧
      after.1 = { t with stage := .ended (.ok (.committed (some t.batch) block)) } ∧
      after.2.store = (b.store.save t.batch events).2 ∧
      List.Forall₂ (Event.StoredAs t.batch) events block ∧
      after.2.store.events = b.store.events ++ block ∧ after.2.store.Consistent := by
  obtain ⟨metadata, batch, stage, work, trace, created⟩ := t
  rcases stage with (_ | err | ⟨mode, kind, id, rest⟩ | ⟨id, e, rest⟩) | events | outcome
  · left
    simp only [next, number, Log.store]
    split
    · exact ⟨rfl, rfl⟩
    · split <;> exact ⟨rfl, rfl⟩
  · exact .inl ⟨rfl, rfl⟩
  · -- A load only reads.
    refine .inl ⟨?_, rfl⟩
    obtain ⟨_, hstore⟩ := Repository.store_hydrate ⟨Log.store, threshold⟩ (types kind) id
      Repository.latest b
    show (work.acquire types ⟨Log.store, threshold⟩ mode kind id b).2.2.store = b.store
    rw [UnitOfWork.acquire_backing]
    split
    · rfl
    · exact hstore
  · exact .inl ⟨rfl, rfl⟩
  · simp only [next, Log.store]
    rcases hlog.save_cases batch events with
      ⟨err, hsave⟩ | ⟨c, hsave⟩ | ⟨block, log, hsave, hblock, hevents, hconsistent⟩
    · rw [hsave]
      exact .inl ⟨rfl, rfl⟩
    · rw [hsave]
      exact .inl ⟨rfl, rfl⟩
    · rw [hsave]
      exact .inr ⟨events, block, rfl, rfl, by rw [hsave], hblock, hevents, hconsistent⟩
  · exact .inl ⟨rfl, rfl⟩

end Trial

/-! ### Processors without snapshots -/

/-- What a processor without snapshots may do. -/
inductive Move (κ S : Type) where
  /-- It attempts a command. -/
  | begin (c : Command κ S) (batch : Uuid)
  /-- An attempt goes on. -/
  | go (i : Nat)

namespace Trials

variable {κ S : Type} [DecidableEq κ] (types : κ → AggregateType S)

/-- What becomes of attempts by a move. -/
def move (s : Trials κ S) : Move κ S → Trials κ S
  | .begin c batch => { s with all := s.all ++ [.start c batch] }
  | .go i => s.advance types 0 ⟨0, 0⟩ (SnapshotCache.new 0) i

/-- What becomes of an empty log by moves. -/
def play (moves : List (Move κ S)) : Trials κ S := moves.foldl (move types) {}

/-- A cache without snapshots may always be used. -/
theorem Reachable.filled_new {types : κ → AggregateType S} {s : Trials κ S} (h : Reachable types s)
    (limit : Nat) : SnapshotCache.Filled (S := fun _ => S) types s.log (SnapshotCache.new limit) := by
  induction h with
  | start => exact .new limit
  | @step s s' _ hstep ih =>
    cases hstep with
    | begin c batch => exact ih
    | @advance i threshold now cache _ =>
      rw [Trials.advance]
      cases hi : s.all[i]? with
      | none => exact ih
      | some t =>
        show SnapshotCache.Filled types (t.next types ⟨Log.store, threshold⟩ ⟨s.log, cache, now⟩).2.store
          (SnapshotCache.new limit)
        rcases Trial.next_log types t threshold (b := ⟨s.log, cache, now⟩) ih.numbered.1 with
          ⟨hsame, _⟩ | ⟨events, _, _, _, hsaved, _⟩
        · rw [hsame]
          exact ih
        · rw [hsaved]
          exact ih.save ⟨t.batch, events⟩

theorem reachable_play (moves : List (Move κ S)) : Reachable types (play types moves) := by
  have hmoves : ∀ s, Reachable types s → Reachable types (moves.foldl (move types) s) := by
    induction moves with
    | nil => exact fun s h => h
    | cons m rest ih =>
      intro s h
      refine ih _ (h.step ?_)
      cases m with
      | begin c batch => exact .begin s c batch
      | go i => exact .advance s i 0 ⟨0, 0⟩ (h.filled_new 0)
  exact hmoves {} .start

end Trials

end Chronicle
