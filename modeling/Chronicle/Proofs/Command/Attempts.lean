import Chronicle.Proofs.Command.Isolation
import Chronicle.Store.Scripted

namespace Chronicle

/-!
# What a command does, and how often it is tried

* `Processor.Counts` — how attempts are counted, and what the last one decides. `Processor.counts_iff` —
  so it is exactly if there is an end to the attempts before the counter comes round.
* `Program.passed_run` — a program that is executed reads the log and does not write it.
* `Processor.attempt_cases` — what an attempt does to the log: nothing, or it adds its batch as one
  block.
* `Processor.process_effect` — how attempts are counted with any store, and that with the log nothing
  is stored or dispatched but the batch of the attempt that counts.
-/

namespace Processor

/-! ### Attempts -/

section Attempts

variable {σ δ κ S : Type} [DecidableEq κ] {p : Processor σ δ κ S} {c : Command κ S}
  {w : Processing σ δ}

/-- An attempt that fails does not fail by a conflict. -/
theorem ne_conflict_of_attempt {cause : CommandFailure} (h : (p.attempt c w).1 = .error cause)
    (conflict : Conflict) : cause ≠ .conflict conflict := by
  rintro rfl
  rcases p.attempt_steps c w with ⟨err, _, hattempt⟩ | ⟨_, _, hattempt⟩ | ⟨_, _, hattempt⟩
  · rw [hattempt] at h
    rcases err with _ | (_ | _) <;> cases h
  · rw [hattempt] at h
    cases h
  · rw [hattempt] at h
    simp only at h
    rcases p.commit_steps c.metadata _ (p.batchId w.numbered) _ with
      ⟨_, _, hcommit⟩ | ⟨_, _, ⟨_, _, hcommit⟩ | ⟨_, hcommit⟩⟩
    · rw [hcommit] at h
      cases h
    · rw [hcommit] at h
      cases h
    · rw [hcommit] at h
      unfold Attempt.ofSave at h
      split at h <;> cases h

/-- How often a command is tried, and what the last attempt decides. -/
structure Counts (p : Processor σ δ κ S) (c : Command κ S) (w : Processing σ δ) : Prop where
  /-- Attempts are made one after the other, at most one more than there are retries. Every attempt but
  the last one meets a conflict, and the last one is what is answered. -/
  attempts : p.last c w ≤ p.maxRetries ∧ (∀ j < p.last c w, p.Conflicts c j w) ∧
    p.process c w = p.conclude c (p.last c w + 1) (p.attempt c (p.lastStart c w))
  /-- The command succeeds by an attempt exactly if that commits, or has nothing to commit, and all
  attempts before it meet conflicts. -/
  succeeds : ∀ k, (∃ result, (p.process c w).1 = .ok result ∧ result.attempts = k + 1) ↔
    k ≤ p.maxRetries ∧ (∀ j < k, p.Conflicts c j w) ∧
      ∃ batch events, p.outcome c k w = .ok (.committed batch events)
  /-- The command fails by a conflict exactly if all attempts meet one. -/
  conflicts : (∃ err conflict, (p.process c w).1 = .error err ∧ err.cause = .conflict conflict) ↔
    ∀ j ≤ p.maxRetries, p.Conflicts c j w
  /-- A failure by a conflict has used up all attempts. -/
  exhausted : ∀ err conflict, (p.process c w).1 = .error err → err.cause = .conflict conflict →
    err.attempts = p.maxRetries + 1
  /-- Any other failure ends the command at once. -/
  fails : ∀ k cause, (∀ conflict, cause ≠ .conflict conflict) →
    ((p.process c w).1 = .error ⟨c.label, k + 1, cause⟩ ↔
      k ≤ p.maxRetries ∧ (∀ j < k, p.Conflicts c j w) ∧ p.outcome c k w = .error cause)

theorem EndsInTime.counts (h : p.EndsInTime c w) : p.Counts c w := by
  obtain ⟨hends, hcount⟩ := h.endsAt
  have hprocess := p.process_eq c w
  rw [Word32.wrap_of_lt hcount] at hprocess
  -- An attempt after conflicts that meets none is the last one.
  have hlast : ∀ {k}, k ≤ p.maxRetries → (∀ j < k, p.Conflicts c j w) → ¬ p.Conflicts c k w →
      k = p.last c w :=
    fun hle hbefore hno => (endsAt_of_not_conflicts hle hbefore hno).unique hends
  -- A failure by a conflict uses up all attempts.
  have hconflict : ∀ err conflict, (p.process c w).1 = .error err → err.cause = .conflict conflict →
      err.attempts = p.maxRetries + 1 ∧ ∀ j ≤ p.maxRetries, p.Conflicts c j w := by
    intro err conflict herr hcause
    rw [hprocess] at herr
    obtain ⟨_, hattempts, _, hfailed | ⟨conflict', hmet, _⟩⟩ := conclude_eq_error herr
    · exact absurd hcause (ne_conflict_of_attempt hfailed conflict)
    · have hall : p.last c w = p.maxRetries :=
        Nat.le_antisymm hends.le (Nat.not_lt.1 fun hlt => hends.final hlt ⟨conflict', hmet⟩)
      refine ⟨hall ▸ hattempts, fun j hj => ?_⟩
      rcases Nat.lt_or_eq_of_le hj with hlt | rfl
      · exact hends.before j (hall ▸ hlt)
      · exact ⟨conflict', hall ▸ hmet⟩
  refine ⟨⟨hends.le, hends.before, hprocess⟩, ?succeeds, ?conflicts,
    fun err conflict herr hcause => (hconflict err conflict herr hcause).1, ?fails⟩
  case succeeds =>
    intro k
    constructor
    · rintro ⟨result, hresult, hattempts⟩
      rw [hprocess] at hresult
      obtain ⟨houtcome, hcount, _, _⟩ := conclude_eq_ok hresult
      obtain rfl : k = p.last c w := by omega
      exact ⟨hends.le, hends.before, _, _, houtcome⟩
    · rintro ⟨hle, hbefore, batch, events, houtcome⟩
      obtain rfl := hlast hle hbefore (by rintro ⟨_, h⟩; cases houtcome.symm.trans h)
      refine ⟨⟨batch, lastPosition events, p.last c w + 1, events⟩, ?_, rfl⟩
      rw [outcome_last] at houtcome
      rw [hprocess, conclude_fst, houtcome]
  case conflicts =>
    constructor
    · rintro ⟨err, conflict, herr, hcause⟩
      exact (hconflict err conflict herr hcause).2
    · intro hall
      obtain ⟨conflict, hmet⟩ := hall _ hends.le
      refine ⟨⟨c.label, p.last c w + 1, .conflict conflict⟩, conflict, ?_, rfl⟩
      rw [outcome_last] at hmet
      rw [hprocess, conclude_fst, hmet]
  case fails =>
    intro k cause hno
    constructor
    · intro herr
      rw [hprocess] at herr
      obtain ⟨_, hcount, _, hfailed | ⟨conflict, _, hcause⟩⟩ := conclude_eq_error herr
      · obtain rfl : k = p.last c w := by simpa using hcount
        exact ⟨hends.le, hends.before, hfailed⟩
      · exact absurd hcause (hno conflict)
    · rintro ⟨hle, hbefore, houtcome⟩
      obtain rfl := hlast hle hbefore (by rintro ⟨_, h⟩; cases houtcome.symm.trans h)
      rw [outcome_last] at houtcome
      rw [hprocess, conclude_fst, houtcome]

/-- Attempts are counted right exactly if there is an end to them before the counter comes round. -/
theorem counts_iff : p.Counts c w ↔ p.EndsInTime c w := by
  refine ⟨fun h => ?_, EndsInTime.counts⟩
  obtain ⟨-, -, hprocess⟩ := h.attempts
  -- The number of the last attempt is a word, since the answer counts it.
  have hlast : p.last c w + 1 < Word32.count := by
    have hcounted := p.counted_process c w
    rw [hprocess, counted_conclude] at hcounted
    rw [hcounted]
    exact Word32.wrap_lt _
  by_cases hconflict : p.Conflicts c (p.last c w) w
  · -- All retries are used up, so there are fewer than the counter can count.
    obtain ⟨conflict, hmet⟩ := hconflict
    rw [outcome_last] at hmet
    have hexhausted := h.exhausted ⟨c.label, p.last c w + 1, .conflict conflict⟩ conflict
      (by rw [hprocess, conclude_fst, hmet]) rfl
    exact .inl (hexhausted ▸ hlast)
  · exact .inr ⟨_, hlast, hconflict⟩

end Attempts

end Processor

/-! ### Reading -/

section Reading

variable {σ κ S : Type}

/-- To hydrate a root is to load its events once. -/
theorem Repository.store_hydrate (repo : Repository σ) (T : AggregateType S) (id : String)
    (bound : Int) (b : Backing σ) : ∃ first,
      (repo.hydrate T id bound b).2.store = (repo.store.load id first b.store).2 := by
  have hstart : (startingPoint T id bound b).2.store = b.store := by
    unfold startingPoint
    rcases b.cache.lookup T id bound b.now with ⟨_ | _, _⟩ <;> rfl
  refine ⟨(startingPoint T id bound b).1.sequence + 1, ?_⟩
  unfold hydrate
  simp only [hstart]
  rcases repo.store.load id ((startingPoint T id bound b).1.sequence + 1) b.store with
    ⟨_ | events, store⟩
  · rfl
  · simp only
    split
    · rfl
    · split
      · simp only [keep]
        split <;> rfl
      · rfl

variable [DecidableEq κ] (types : κ → AggregateType S) {repo : Repository SharedLog}

/-- To acquire a root is to let others save, at most. -/
theorem UnitOfWork.passed_acquire (hstore : repo.store = SharedLog.store) (mode : Acquisition)
    (kind : κ) (id : String) (u : UnitOfWork κ S) (b : Backing SharedLog) :
    b.store.Passed (u.acquire types repo mode kind id b).2.2.store := by
  obtain ⟨first, hfirst⟩ := repo.store_hydrate (types kind) id mode.request.bound b
  have hfetch : (fetch repo (types kind) mode id b).2.store = b.store.turn.2 := by
    rw [fetch_eq_load, Repository.load_eq, hfirst, hstore]
    rfl
  unfold acquire
  split
  · split <;> exact .refl _
  · rcases hanswer : fetch repo (types kind) mode id b with ⟨_ | _ | _, b'⟩ <;>
      (rw [hanswer] at hfetch; exact hfetch ▸ SharedLog.passed_turn b.store)

/-- A program that is executed lets others save, and does not write. -/
theorem Program.passed_run (hstore : repo.store = SharedLog.store) (program : Program κ S)
    (u : UnitOfWork κ S) (b : Backing SharedLog) :
    b.store.Passed (program.run types repo u b).2.2.store := by
  induction program generalizing u b with
  | done => exact .refl _
  | fail err => exact .refl _
  | acquire mode kind id next ih =>
    exact (UnitOfWork.passed_acquire types hstore mode kind id u b).trans (ih _ _ _)
  | emit id e next ih => exact ih _ _ _

end Reading

/-! ### Writing -/

/-- The roots that have emitted events are numbered into a batch with events. -/
theorem Batch.number_ne_nil {κ S : Type} (stamp : Stamp) (position : Int) {u : UnitOfWork κ S}
    (h : u.takePending.1 ≠ []) : number stamp position u.takePending.1 ≠ [] := by
  obtain ⟨p, rest, hpending⟩ := List.exists_cons_of_ne_nil h
  have hmem : p ∈ u.takePending.1 := by
    rw [hpending]
    exact List.mem_cons_self
  have hevents : p.events ≠ [] := by simpa using (List.mem_filter.1 hmem).2
  obtain ⟨_, _, _, hnumbered⟩ := exists_first_mem_number stamp position hmem hevents
  exact List.ne_nil_of_mem hnumbered

namespace Processor

variable {δ κ S : Type} {p : Processor SharedLog δ κ S}

variable [DecidableEq κ]

/-- What the attempt that starts in a state has emitted, unless its program gives up. -/
def emitted {σ : Type} (p : Processor σ δ κ S) (c : Command κ S) (w : Processing σ δ) :
    Option (List Pending) :=
  match c.program.run p.types p.repository UnitOfWork.empty w.backing with
  | (none, work, _) => some work.takePending.1
  | (some _, _, _) => none

/-- A program that does not give up has emitted what is taken out of its unit of work. -/
theorem emitted_of_run_eq {σ : Type} (p : Processor σ δ κ S) (c : Command κ S) (w : Processing σ δ) :
    let ran := c.program.run p.types p.repository UnitOfWork.empty w.backing
    ran.1 = none → p.emitted c w = some ran.2.1.takePending.1 := by
  unfold emitted
  rcases c.program.run p.types p.repository UnitOfWork.empty w.backing with ⟨_ | _, work, backing⟩
  · exact fun _ => rfl
  · exact nofun

/-- An attempt that commits has added to the log, behind what other writers have saved, the batch of
what it has emitted. -/
structure Commits (p : Processor SharedLog δ κ S) (c : Command κ S) (w : Processing SharedLog δ)
    (batch : Uuid) (block : List Event) : Prop where
  /-- The block stands in the log. -/
  gains : w.backing.store.Gains block (p.attempt c w).2.backing.store
  /-- The log is consistent. -/
  log : (p.attempt c w).2.backing.store.log.Consistent
  /-- The block has events. -/
  nonempty : block ≠ []
  /-- The block is the numbered batch of the emitted events. -/
  numbered : ∃ pending time position, p.emitted c w = some pending ∧
    List.Forall₂ (Event.StoredAs batch)
      (Batch.number ⟨batch, time, c.metadata⟩ position pending) block

/-- An attempt leaves the dispatchers alone. It adds nothing to the log unless it commits, and then it
adds its batch as one block. -/
theorem attempt_cases (hstore : p.repository.store = SharedLog.store) (c : Command κ S)
    {w : Processing SharedLog δ} (hlog : w.backing.store.log.Consistent) :
    (p.attempt c w).2.audience = w.audience ∧
    (((∀ batch block, (p.attempt c w).1 ≠ .ok (.committed batch block)) ∧
        w.backing.store.Passed (p.attempt c w).2.backing.store) ∨
      ((p.attempt c w).1 = .ok (.committed none []) ∧ p.emitted c w = some [] ∧
        w.backing.store.Passed (p.attempt c w).2.backing.store) ∨
      ∃ batch block, (p.attempt c w).1 = .ok (.committed (some batch) block) ∧
        p.Commits c w batch block) := by
  have hrun := Program.passed_run p.types hstore c.program UnitOfWork.empty w.backing
  have hemitted := p.emitted_of_run_eq c w
  rcases p.attempt_steps c w with
    ⟨_, _, hattempt⟩ | ⟨hran, hnone, hattempt⟩ | ⟨hran, hsome, hattempt⟩
  · rw [hattempt]
    exact ⟨rfl, .inl ⟨nofun, hrun⟩⟩
  · rw [hattempt]
    exact ⟨rfl, .inr (.inl ⟨rfl, hnone ▸ hemitted hran, hrun⟩)⟩
  · -- Only now is anything written.
    generalize c.program.run p.types p.repository UnitOfWork.empty w.backing = ran
      at hrun hran hsome hattempt hemitted
    rcases commit_cases hstore (hrun.grown hlog).log c.metadata ran.2.1.takePending.1
        (p.batchId w.numbered) with
      ⟨answer, store, hcommit, hpassed, hnot⟩ |
      ⟨position, block, store, hcommit, hgains, hconsistent, hblock⟩
    · rw [hattempt, hcommit]
      exact ⟨rfl, .inl ⟨hnot, hrun.trans hpassed⟩⟩
    · have hnonempty : block ≠ [] := by
        rintro rfl
        exact Batch.number_ne_nil _ _ hsome (List.forall₂_nil_right_iff.1 hblock)
      rw [hcommit] at hattempt
      refine ⟨by rw [hattempt], .inr (.inr ⟨_, block, by rw [hattempt], ?_⟩)⟩
      exact {
        gains := by rw [hattempt]; exact hrun.gains hgains
        log := by rw [hattempt]; exact hconsistent
        nonempty := hnonempty
        numbered := ⟨_, ran.2.2.now, position, hemitted hran, hblock⟩ }

/-- Attempts that meet conflicts leave nothing behind. -/
theorem startOf_passed (hstore : p.repository.store = SharedLog.store) (c : Command κ S) {k : Nat}
    {w : Processing SharedLog δ} (hlog : w.backing.store.log.Consistent)
    (h : ∀ j < k, p.Conflicts c j w) :
    (p.startOf c k w).audience = w.audience ∧
      w.backing.store.Passed (p.startOf c k w).backing.store := by
  induction k generalizing w with
  | zero => exact ⟨rfl, .refl _⟩
  | succ k ih =>
    obtain ⟨conflict, hconflict⟩ := h 0 (Nat.succ_pos k)
    obtain ⟨haudience, hcases⟩ := attempt_cases hstore c hlog
    -- The first attempt has met a conflict, so it has added nothing.
    have hpassed : w.backing.store.Passed (p.attempt c w).2.backing.store := by
      rcases hcases with ⟨_, hpassed⟩ | ⟨_, _, hpassed⟩ | ⟨_, _, hcommitted, _⟩
      · exact hpassed
      · exact hpassed
      · cases hconflict.symm.trans hcommitted
    obtain ⟨haudience', hpassed'⟩ := ih (hpassed.grown hlog).log
      fun j hj => h (j + 1) (Nat.succ_lt_succ hj)
    exact ⟨haudience'.trans haudience, hpassed.trans hpassed'⟩

/-- The position of the last event of a block that ends a log is the last one of the log. -/
theorem lastPosition_block {log : Log} (hlog : log.Consistent) {earlier block : List Event}
    (hevents : log.events = earlier ++ block) (hne : block ≠ []) :
    lastPosition block = some (log.size - 1 : Int) := by
  have hlast : log.events[log.size - 1]? = block.getLast? := by
    rw [Log.size, ← List.getLast?_eq_getElem?, hevents, List.getLast?_append_of_ne_nil _ hne]
  obtain ⟨e, he⟩ := Option.isSome_iff_exists.1 (List.getLast?_isSome.2 hne)
  have hpos : 0 < log.size := by
    rw [Log.size, hevents, List.length_append]
    have := List.length_pos_iff.2 hne
    omega
  rw [lastPosition, he, Option.bind_some, hlog.position (hlast.trans he), Except.toOption]
  congr 1
  omega

/-- What processing a command does to a log that others use too, and to the dispatchers. -/
structure Effect (p : Processor SharedLog δ κ S) (c : Command κ S) (w : Processing SharedLog δ) :
    Prop where
  /-- A command that succeeds without events has added nothing. -/
  silent : ∀ result, (p.process c w).1 = .ok result → p.emitted c (p.lastStart c w) = some [] →
    result.events = [] ∧ result.batch = none ∧ result.position = none ∧
      w.backing.store.Passed (p.lastEnd c w).backing.store
  /-- A command that succeeds with events has added the batch of its last attempt, as the block that
  it answers, behind what others have saved, and nothing else. -/
  commits : ∀ result, (p.process c w).1 = .ok result → p.emitted c (p.lastStart c w) ≠ some [] →
    ∃ batch, result.batch = some batch ∧
      p.Commits c (p.lastStart c w) batch result.events ∧
      w.backing.store.Gains result.events (p.lastEnd c w).backing.store ∧
      result.position = some ((p.lastEnd c w).backing.store.log.size - 1 : Int)
  /-- The events of a command that succeeds are handed once to every dispatcher, in order. -/
  dispatched : ∀ result, (p.process c w).1 = .ok result →
    ((p.process c w).2.backing.store, (p.process c w).2.audience)
      = p.dispatchers.foldl (fun s dispatch => dispatch result.events s)
          ((p.lastEnd c w).backing.store, w.audience)
  /-- A command that fails has added nothing, and no dispatcher has got anything. -/
  failed : ∀ err, (p.process c w).1 = .error err →
    w.backing.store.Passed (p.process c w).2.backing.store ∧
      (p.process c w).2.audience = w.audience

theorem effect (hstore : p.repository.store = SharedLog.store) (c : Command κ S)
    {w : Processing SharedLog δ} (hlog : w.backing.store.log.Consistent) : p.Effect c w := by
  have hprocess := p.process_eq c w
  obtain ⟨haudience, hpassed⟩ : (p.lastStart c w).audience = w.audience ∧
      w.backing.store.Passed (p.lastStart c w).backing.store :=
    startOf_passed hstore c hlog (p.endsAt_last c w).before
  obtain ⟨haudience', hcases⟩ := attempt_cases hstore c (hpassed.grown hlog).log
  -- A result is what the last attempt says.
  have hlast : ∀ result, (p.process c w).1 = .ok result →
      (p.attempt c (p.lastStart c w)).1 = .ok (.committed result.batch result.events) ∧
      result.position = lastPosition result.events ∧
      (p.process c w).2 = p.announce result.events (p.lastEnd c w) := by
    intro result hresult
    rw [hprocess] at hresult ⊢
    obtain ⟨houtcome, _, hposition, hafter⟩ := conclude_eq_ok hresult
    exact ⟨houtcome, hposition, hafter⟩
  constructor
  case silent =>
    intro result hresult hnothing
    obtain ⟨houtcome, hposition, _⟩ := hlast result hresult
    rcases hcases with ⟨hnot, _⟩ | ⟨hnone, _, hpassed'⟩ | ⟨batch, block, hsome, hcommits⟩
    · exact absurd houtcome (hnot _ _)
    · obtain ⟨hbatch, hevents⟩ : result.batch = none ∧ result.events = [] := by
        simpa using houtcome.symm.trans hnone
      exact ⟨hevents, hbatch, by rw [hposition, hevents]; rfl, hpassed.trans hpassed'⟩
    · obtain ⟨_, _, _, hemitted, hblock⟩ := hcommits.numbered
      cases hnothing.symm.trans hemitted
      exact absurd (List.forall₂_nil_left_iff.1 hblock) hcommits.nonempty
  case commits =>
    intro result hresult hsomething
    obtain ⟨houtcome, hposition, _⟩ := hlast result hresult
    rcases hcases with ⟨hnot, _⟩ | ⟨_, hemitted, _⟩ | ⟨batch, block, hsome, hcommits⟩
    · exact absurd houtcome (hnot _ _)
    · exact absurd hemitted hsomething
    · obtain ⟨hbatch, hevents⟩ : result.batch = some batch ∧ result.events = block := by
        simpa using houtcome.symm.trans hsome
      obtain ⟨_, _, _, hblock⟩ := hcommits.gains
      rw [hposition, hevents]
      exact ⟨batch, hbatch, hcommits, hpassed.gains hcommits.gains,
        lastPosition_block hcommits.log hblock hcommits.nonempty⟩
  case dispatched =>
    intro result hresult
    obtain ⟨_, _, hafter⟩ := hlast result hresult
    have hsame : (p.lastEnd c w).audience = w.audience := haudience'.trans haudience
    rw [hafter, ← hsame]
    rfl
  case failed =>
    intro err herr
    rw [hprocess] at herr ⊢
    obtain ⟨_, _, hafter, hfailed⟩ := conclude_eq_error herr
    rw [hafter]
    refine ⟨hpassed.trans ?_, haudience'.trans haudience⟩
    rcases hcases with ⟨_, hpassed'⟩ | ⟨_, _, hpassed'⟩ | ⟨batch, block, hsome, _⟩
    · exact hpassed'
    · exact hpassed'
    · rw [hsome] at hfailed
      rcases hfailed with hfailed | ⟨_, hfailed, _⟩ <;> cases hfailed

/-- A command that succeeds leaves a later state of the log, in which its events stand without gaps. -/
theorem Effect.later {c : Command κ S} {w : Processing SharedLog δ} (h : p.Effect c w)
    (hlog : w.backing.store.log.Consistent) {result : CommandResult}
    (hresult : (p.process c w).1 = .ok result) :
    w.backing.store.Later (p.lastEnd c w).backing.store ∧
      result.events <:+: (p.lastEnd c w).backing.store.log.events := by
  by_cases hsilent : p.emitted c (p.lastStart c w) = some []
  · obtain ⟨hevents, _, _, hpassed⟩ := h.silent result hresult hsilent
    exact ⟨hpassed.later hlog, hevents ▸ List.nil_infix⟩
  · obtain ⟨batch, _, hcommits, hgains, _⟩ := h.commits result hresult hsilent
    obtain ⟨others, _, _, hevents⟩ := id hgains
    exact ⟨hgains.later hlog hcommits.log, hevents ▸ (List.suffix_append _ _).isInfix⟩

/-- A result tells the position of its last event. -/
theorem position_of_process {σ : Type} {p : Processor σ δ κ S} {c : Command κ S}
    {w : Processing σ δ} {result : CommandResult} (h : (p.process c w).1 = .ok result) :
    result.position = lastPosition result.events := by
  rw [process_eq] at h
  exact (conclude_eq_ok h).2.2.1

end Processor

/-- **What a command does.** With any store, a command is tried until an attempt meets no conflict, at
most once more than there are retries, and the last attempt decides about the answer (`Counts`). This is
so exactly if there is an end to the attempts before the counter comes round (`EndsInTime`), which is
always the case if the number of retries is less than the greatest word; and then nothing else is the
answer of the loop of attempts (`Loops`). If it is the greatest word and all attempts meet conflicts,
there is no answer. With the log, in any state that saves have left it in and whatever other writers save
in between, a command that succeeds has added the batch of its last attempt as one block, which every
dispatcher has got once; a command that fails, and an attempt that meets a conflict, have added nothing,
and no dispatcher has got anything of them (`Effect`). -/
theorem Processor.process_effect {δ κ S : Type} [DecidableEq κ] :
    (∀ (σ : Type) (p : Processor σ δ κ S) (c : Command κ S) (w : Processing σ δ),
      (p.Counts c w ↔ p.EndsInTime c w) ∧
      (p.maxRetries + 1 < Word32.count → p.EndsInTime c w) ∧
      (p.EndsInTime c w → ∀ answer, p.Loops c 1 w answer ↔ answer = p.process c w) ∧
      (Word32.count ≤ p.maxRetries + 1 → (∀ k, p.Conflicts c k w) →
        ∀ answer, ¬ p.Loops c 1 w answer)) ∧
    ∀ (p : Processor SharedLog δ κ S) (c : Command κ S) (w : Processing SharedLog δ)
      (calls : List Save), p.repository.store = SharedLog.store →
      w.backing.store.log = (Log.saveAll calls Log.empty).2 → p.Effect c w := by
  refine ⟨fun σ p c w => ⟨counts_iff, .inl, fun h answer => ?_, fun hretries => ?_⟩,
    fun p c w calls hstore hcalls => ?_⟩
  · have hprocess := h.loops_process
    exact ⟨fun hanswer => hanswer.unique hprocess, fun hanswer => hanswer ▸ hprocess⟩
  · exact not_loops hretries (by decide)
  · have hlog : w.backing.store.log.Consistent := by
      rw [hcalls]
      exact Log.consistent_empty.saveAll calls
    exact effect hstore c hlog

namespace Sample

/-- A teller whose dispatcher writes down what it gets. -/
def scribe : Processor SharedLog (List (List Event)) Kind State :=
  { teller with dispatchers := [fun events s => (s.1, s.2 ++ [events])] }

/-- So many deposits on an account that has a number of events. -/
def deposits (first count : Nat) : Save :=
  ⟨.nil, (Log.empty.continuation "a" "Deposited" (deposited.encode 5) (first + count)).drop first⟩

/-- An account with two deposits, on which another writer deposits too just before the first save. -/
def disputed : Processing SharedLog (List (List Event)) where
  backing := {
    store := ⟨(Log.saveAll [deposits 0 2] Log.empty).2, [{}, {}, { rivals := [deposits 2 1] }]⟩
    cache := SnapshotCache.new 10
    now := ⟨0, 0⟩ }
  audience := []

end Sample

set_option maxRecDepth 10000 in
/-- The deposit that meets another deposit is stored and dispatched once, by its second attempt. -/
theorem Processor.process_effect_disputed :
    Sample.scribe.Counts Sample.deposit Sample.disputed ∧
    Sample.scribe.Effect Sample.deposit Sample.disputed ∧
    ∃ result, (Sample.scribe.process Sample.deposit Sample.disputed).1 = .ok result ∧
      result.attempts = 2 ∧ result.position = some 3 ∧
      (Sample.scribe.process Sample.deposit Sample.disputed).2.audience = [result.events] := by
  have hcounts : Sample.scribe.Counts Sample.deposit Sample.disputed := by
    obtain ⟨hiff, hfew, -⟩ :=
      Processor.process_effect.1 _ Sample.scribe Sample.deposit Sample.disputed
    exact hiff.2 (hfew (by decide))
  have heffect : Sample.scribe.Effect Sample.deposit Sample.disputed :=
    Processor.process_effect.2 _ _ _ [Sample.deposits 0 2] rfl rfl
  have hok : ((Sample.scribe.process Sample.deposit Sample.disputed).1.toOption.any fun r =>
      decide (r.attempts = 2 ∧ r.position = some 3)) = true := by decide +kernel
  refine ⟨hcounts, heffect, ?_⟩
  cases hresult : (Sample.scribe.process Sample.deposit Sample.disputed).1 with
  | error err =>
    rw [hresult] at hok
    cases hok
  | ok result =>
    rw [hresult] at hok
    obtain ⟨hattempts, hposition⟩ := of_decide_eq_true hok
    exact ⟨result, rfl, hattempts, hposition,
      congrArg Prod.snd (heffect.dispatched result hresult)⟩

namespace Sample

/-- A teller who tries a command again as often as the greatest word says. -/
def tireless : Processor ScriptedStore Unit Kind State where
  repository := ⟨ScriptedStore.store, 1⟩
  types := aggregateType
  maxRetries := 4294967295
  batchId := fun _ => .nil
  dispatchers := []

/-- An empty log that meets the next saves with conflicts, after it was asked to save some batches. -/
def beset (conflicts : Nat) (asked : List Uuid) : Processing ScriptedStore Unit where
  backing := {
    store := { faults := { conflicts }, asked }
    cache := SnapshotCache.new 10
    now := ⟨0, 0⟩ }
  audience := ()
  numbered := asked.length

/-- A deposit on a new account. -/
def firstDeposit : Command Kind State where
  label := "deposit"
  program := .acquire .load .account "a" fun _ =>
    .emit "a" (Event.new "Deposited" (deposited.encode 7)) fun _ => .done

/-- What it emits. -/
def offered : List Pending :=
  (firstDeposit.program.run aggregateType tireless.repository UnitOfWork.empty
    (beset 0 []).backing).2.1.takePending.1

/-- The batch of what it emits. -/
def offeredBatch : List Event := Batch.number ⟨.nil, ⟨0, 0⟩, Dict.empty⟩ 0 offered

theorem run_firstDeposit (conflicts : Nat) (asked : List Uuid) : ∃ work,
    firstDeposit.program.run tireless.types tireless.repository UnitOfWork.empty
        (beset conflicts asked).backing = (none, work, (beset conflicts asked).backing) ∧
      work.takePending.1 = offered := ⟨_, rfl, rfl⟩

theorem checkIntegrity_offeredBatch : Batch.checkIntegrity .nil offeredBatch = .ok () := by
  have hok : (Batch.checkIntegrity .nil offeredBatch).toOption.isSome = true := by decide +kernel
  cases hcheck : Batch.checkIntegrity .nil offeredBatch with
  | ok _ => rfl
  | error err =>
    rw [hcheck] at hok
    cases hok

/-- An attempt is decided by the save, however many conflicts there will be. -/
theorem attempt_firstDeposit (conflicts : Nat) (asked : List Uuid) :
    let w := beset conflicts asked
    let saved := ScriptedStore.save .nil offeredBatch w.backing.store
    tireless.attempt firstDeposit w = (Attempt.ofSave .nil saved.1,
      { w with backing := { w.backing with store := saved.2 }, numbered := asked.length + 1 }) := by
  intro w saved
  obtain ⟨work, hrun, hpending⟩ := run_firstDeposit conflicts asked
  have hrun' : firstDeposit.program.run tireless.types tireless.repository UnitOfWork.empty w.backing
      = (none, work, w.backing) := hrun
  have hcommit : tireless.commit firstDeposit.metadata offered .nil w.backing
      = (Attempt.ofSave .nil saved.1, { w.backing with store := saved.2 }) := by
    rcases tireless.commit_steps firstDeposit.metadata offered .nil w.backing with
      ⟨_, hnext, _⟩ | ⟨position, hnext, ⟨_, hrefused, _⟩ | ⟨_, hcommit⟩⟩
    · cases hnext
    · cases hnext
      cases checkIntegrity_offeredBatch.symm.trans hrefused
    · cases hnext
      exact hcommit
  rcases tireless.attempt_steps firstDeposit w with
    ⟨_, hfailed, _⟩ | ⟨_, hnone, _⟩ | ⟨_, _, hattempt⟩
  · rw [hrun'] at hfailed
    cases hfailed
  · rw [hrun', hpending] at hnone
    have hsome : offered.isEmpty = false := by decide +kernel
    rw [hnone] at hsome
    cases hsome
  · rw [hattempt, hrun', hpending]
    exact congrArg
      (fun done => (done.1, { w with backing := done.2, numbered := asked.length + 1 })) hcommit

theorem attempt_beset (conflicts : Nat) (asked : List Uuid) :
    tireless.attempt firstDeposit (beset (conflicts + 1) asked)
      = (.ok (.conflict ⟨.nil, .position 0⟩), beset conflicts (asked ++ [.nil])) := by
  rw [attempt_firstDeposit, beset, beset, List.length_append]
  rfl

theorem attempt_beset_zero (asked : List Uuid) : ∃ batch events,
    (tireless.attempt firstDeposit (beset 0 asked)).1 = .ok (.committed batch events) := by
  have hsave : ∀ events, (ScriptedStore.save .nil events (beset 0 asked).backing.store).1
      = (Log.empty.save .nil events).1 := fun _ => rfl
  have hok : (Log.empty.save .nil offeredBatch).1.toOption.any (fun o => !o.isConflict) = true := by
    decide +kernel
  rw [attempt_firstDeposit]
  simp only [hsave]
  generalize (Log.empty.save .nil offeredBatch).1 = saved at hok
  rcases saved with _ | events | _
  · cases hok
  · exact ⟨_, events, rfl⟩
  · cases hok

/-- Every attempt uses up a conflict. -/
theorem startOf_beset (k conflicts : Nat) (asked : List Uuid) :
    tireless.startOf firstDeposit k (beset (conflicts + k) asked)
      = beset conflicts (asked ++ List.replicate k .nil) := by
  induction k generalizing asked with
  | zero => rw [List.replicate_zero, List.append_nil]; rfl
  | succ k ih =>
    rw [← Nat.add_assoc, Processor.startOf, attempt_beset, ih, List.append_assoc]
    rfl

end Sample

/-- If the number of retries is the greatest word, the counter comes round: a teller who has met as many
conflicts as there are retries and one goes on, and when there are no more of them the command succeeds,
by its first attempt as it is counted. -/
theorem Processor.process_comes_round :
    (∀ k ≤ Sample.tireless.maxRetries,
      Sample.tireless.Conflicts Sample.firstDeposit k (Sample.beset Word32.count [])) ∧
    Sample.tireless.Loops Sample.firstDeposit 1 (Sample.beset Word32.count [])
      (Sample.tireless.process Sample.firstDeposit (Sample.beset Word32.count [])) ∧
    (∃ result, (Sample.tireless.process Sample.firstDeposit (Sample.beset Word32.count [])).1 = .ok result ∧
      result.attempts = 1) ∧
    ¬ Sample.tireless.Counts Sample.firstDeposit (Sample.beset Word32.count []) := by
  generalize hw : Sample.beset Word32.count [] = w
  have hconflicts : ∀ k < Word32.count, Sample.tireless.Conflicts Sample.firstDeposit k w := by
    intro k hk
    obtain ⟨left, hleft⟩ := Nat.exists_eq_add_of_lt hk
    have hcount : Word32.count = left + 1 + k := by omega
    refine ⟨⟨.nil, .position 0⟩, ?_⟩
    rw [outcome, ← hw, hcount, Sample.startOf_beset, Sample.attempt_beset]
  obtain ⟨batch, events, hcommitted⟩ := Sample.attempt_beset_zero (List.replicate Word32.count .nil)
  have houtcome : Sample.tireless.outcome Sample.firstDeposit Word32.count w
      = .ok (.committed batch events) := by
    have hstart := Sample.startOf_beset Word32.count 0 []
    rw [Nat.zero_add, List.nil_append, hw] at hstart
    rw [outcome, hstart, hcommitted]
  have hno : ¬ Sample.tireless.Conflicts Sample.firstDeposit Word32.count w := by
    rintro ⟨_, h⟩
    cases houtcome.symm.trans h
  have hmost : Word32.count ≤ Sample.tireless.mostRetries := by decide
  have hlast : Sample.tireless.last Sample.firstDeposit w = Word32.count :=
    (Sample.tireless.endsAt_last Sample.firstDeposit w).unique
      (endsAt_of_not_conflicts hmost hconflicts hno)
  refine ⟨fun k hk => hconflicts k ?_, loops_process (.inr ⟨_, hmost, hno⟩), ?_, fun hcounts => ?_⟩
  · exact Nat.lt_of_le_of_lt hk (by decide)
  · refine ⟨⟨batch, lastPosition events, 1, events⟩, ?_, rfl⟩
    rw [process_eq, conclude_fst, ← outcome_last, hlast, houtcome]
    rfl
  · obtain hlt | ⟨k, hk, hno⟩ := counts_iff.1 hcounts
    · exact absurd hlt (by decide)
    · exact hno (hconflicts k (by omega))

end Chronicle
