import Chronicle.Proofs.Batch.Numbering
import Chronicle.Proofs.Command.Loads
import Chronicle.Proofs.Command.Retries
import Chronicle.Sample.Requests

namespace Chronicle

/-!
# Commands do not lose updates

* `Loaded.Current` — a load is up to date with a log: what was loaded is what the whole history of the
  root makes.
* `Working.current` — if the batch of a command is committed, every load of a root with an event in
  it is up to date with the log before the batch.
* `Processor.no_lost_update` — so it is whatever other writers commit in between and however often the
  command is tried again.
-/

/-- What is taken out of a unit of work are the uncommitted events of its roots. -/
theorem UnitOfWork.mem_takePending {κ S : Type} {u : UnitOfWork κ S} {p : Pending}
    (h : p ∈ u.takePending.1) :
    ∃ id kind root, u.roots.get? id = some (kind, root) ∧ p = pendingOf root := by
  obtain ⟨h, _⟩ := List.mem_filter.1 h
  obtain ⟨⟨kind, root⟩, hvalue, rfl⟩ := List.mem_map.1 h
  obtain ⟨⟨id, _⟩, hentry, rfl⟩ := List.mem_map.1 hvalue
  exact ⟨id, kind, root, (Table.get?_eq_some_iff _ _ _).2 hentry, rfl⟩

/-! ### Loads that are up to date -/

section

variable {κ S : Type} (types : κ → AggregateType S)

/-- A load is up to date with a log: nothing has been added to the history of the root since, and
the loaded root is what that history makes, or it was created because there is none. -/
structure Loaded.Current (log : Log) (l : Loaded κ S) : Prop where
  /-- The history is the one that was loaded. -/
  history : l.log.history l.id = log.history l.id
  /-- The root is the replay of that history. -/
  replay : Root.ofHistory (types l.kind) l.id (log.history l.id) = .ok l.root ∨
    log.history l.id = [] ∧ Repository.create (types l.kind) l.id = .ok l.root
  /-- The root is numbered by the last event of that history. -/
  sequence : l.root.sequence + 1 = (log.history l.id).length

variable {types}

/-- Behind the history of a root in an earlier log, the events of the root have later numbers. -/
theorem Log.Consistent.length_history_le_sequence {log earlier : Log} (hlog : log.Consistent)
    {block : List Event} (hevents : log.events = earlier.events ++ block) {e : Event} (he : e ∈ block)
    {id : String} (hroot : e.root = .ok id) :
    ∃ n : Int, e.sequence = .ok n ∧ (earlier.history id).length ≤ n := by
  have hmem : e ∈ block.filter (Event.isOf id) :=
    List.mem_filter.2 ⟨he, (Event.isOf_iff id e).2 hroot⟩
  obtain ⟨j, hj⟩ := List.getElem?_of_mem hmem
  have hplace : (log.history id)[(earlier.history id).length + j]? = some e := by
    rw [Log.history_of_append hevents, List.getElem?_append_right (Nat.le_add_right _ _),
      Nat.add_sub_cancel_left]
    exact hj
  exact ⟨_, hlog.sequence hplace, by omega⟩

/-- If a batch is committed, every load of a root with an event in it is up to date with the log
before the batch: the first event of the root would not fit otherwise. -/
theorem Working.current {loads : List (Loaded κ S)} {u : UnitOfWork κ S} {b : Backing SharedLog}
    (h : Working types loads u b) {earlier log : Log} (hext : b.store.log.Extends earlier)
    (hlog : log.Consistent) {stamp : Batch.Stamp} {position : Int} {batch : Uuid}
    {block : List Event}
    (hblock : List.Forall₂ (Event.StoredAs batch)
      (Batch.number stamp position u.takePending.1) block)
    (hevents : log.events = earlier.events ++ block) {e : Event} (he : e ∈ block) :
    (∃ l ∈ loads, e.root = .ok l.id) ∧
      ∀ l ∈ loads, e.root = .ok l.id → l.Current types earlier := by
  obtain ⟨e₁, he₁, hstored⟩ := Event.StoredAs.exists_saved hblock he
  obtain ⟨p, hp, e₀, he₀, sequence, position', rfl⟩ := Batch.mem_number he₁
  obtain ⟨id, kind, root, hget, rfl⟩ := UnitOfWork.mem_takePending hp
  obtain ⟨⟨l₀, hl₀, hid₀⟩, hid, howned⟩ := h.held hget
  have hroot : e.root = .ok id := by
    rw [hstored.root_eq, stamp.root_mark _ _ (howned e₀ he₀), hid]
  refine ⟨⟨l₀, hl₀, by rw [hroot, hid₀]⟩, ?_⟩
  intro l hl hlroot
  obtain rfl : id = l.id := Except.ok.inj (hroot.symm.trans hlroot)
  obtain ⟨root', hget', hsequence⟩ := h.kept l hl
  rw [hget] at hget'
  cases hget'
  obtain ⟨hright, hgrown⟩ := h.right l hl
  obtain ⟨_, hlength, _⟩ := Log.answer_eq_ok hright.consistent hright.answer
  have hprefix : l.log.history l.id <+: earlier.history l.id := (hgrown.trans hext).history l.id
  -- The first event of the root has the number after the loaded one, and it fits the log.
  obtain ⟨e₂, he₂, position₂, hfirst⟩ :=
    Batch.exists_first_mem_number stamp position hp (List.ne_nil_of_mem he₀)
  obtain ⟨e₃, he₃, hstored₃⟩ := Event.StoredAs.exists_stored hblock hfirst
  have hroot₃ : e₃.root = .ok l.id := by
    rw [hstored₃.root_eq, stamp.root_mark _ _ (howned e₂ he₂), hid]
  obtain ⟨n, hn, hle⟩ := hlog.length_history_le_sequence hevents he₃ hroot₃
  have hnumber : n = root.sequence + 1 := by
    have hwrapped := stamp.sequence_mark (hstored₃.sequence_eq ▸ hn)
    have hfits := hright.consistent.fits_length_history l.id
    rw [← hlength, ← hsequence] at hfits
    rwa [UnitOfWork.sequence_pendingOf, Word64.wrap_of_fits hfits] at hwrapped
  -- So the history before the batch is no longer than the one that was loaded.
  have hhistory : l.log.history l.id = earlier.history l.id :=
    hprefix.eq_of_length_le (by omega)
  refine ⟨hhistory, ?_, ?_⟩
  · rw [← hhistory]
    exact Log.answer_cases hright.consistent hright.answer
  · rw [← hhistory]
    exact hlength

end

/-! ### Attempts -/

/-- How an attempt ends by what the store says to its batch. -/
def Attempt.ofSave (batch : Uuid) : Except StoreError SaveOutcome → Except CommandFailure Attempt
  | .error err => .error (.store err)
  | .ok (.committed events) => .ok (.committed (some batch) events)
  | .ok (.conflict c) => .ok (.conflict c)

namespace Processor

section

variable {σ δ κ S : Type}

/-- What a commit does: the store does not tell a position, or the batch is not numbered as it should,
or the store is asked to save it. -/
theorem commit_steps (p : Processor σ δ κ S) (metadata : Metadata) (pending : List Pending)
    (batch : Uuid) (b : Backing σ) :
    let next := p.repository.store.nextPosition b.store
    (∃ err, next.1 = .error err ∧
      p.commit metadata pending batch b = (.error (.store err), { b with store := next.2 })) ∨
    ∃ position, next.1 = .ok position ∧
      let events := Batch.number ⟨batch, b.now, metadata⟩ position pending
      let saved := p.repository.store.save batch events next.2
      (∃ cause, Batch.checkIntegrity batch events = .error cause ∧
        p.commit metadata pending batch b = (.error (.integrity cause), { b with store := next.2 })) ∨
      (Batch.checkIntegrity batch events = .ok () ∧
        p.commit metadata pending batch b
          = (Attempt.ofSave batch saved.1, { b with store := saved.2 })) := by
  unfold commit
  rcases p.repository.store.nextPosition b.store with ⟨err | position, store⟩
  · exact .inl ⟨err, rfl, rfl⟩
  · refine .inr ⟨position, rfl, ?_⟩
    simp only
    cases Batch.checkIntegrity batch (Batch.number ⟨batch, b.now, metadata⟩ position pending) with
    | error cause => exact .inl ⟨cause, rfl, rfl⟩
    | ok _ =>
      refine .inr ⟨rfl, ?_⟩
      rcases p.repository.store.save batch (Batch.number ⟨batch, b.now, metadata⟩ position pending)
        store with ⟨_ | _ | _, _⟩ <;> rfl

/-- What an attempt does: its program gives up, or it has emitted nothing, or what it has emitted is
committed. -/
theorem attempt_steps [DecidableEq κ] (p : Processor σ δ κ S) (c : Command κ S) (w : Processing σ δ) :
    let ran := c.program.run p.types p.repository UnitOfWork.empty w.backing
    let saved := p.commit c.metadata ran.2.1.takePending.1 (p.batchId w.numbered) ran.2.2
    (∃ err, ran.1 = some err ∧
      p.attempt c w = (.error (.ofExecution err), { w with backing := ran.2.2 })) ∨
    (ran.1 = none ∧ ran.2.1.takePending.1 = [] ∧
      p.attempt c w = (.ok (.committed none []), { w with backing := ran.2.2 })) ∨
    (ran.1 = none ∧ ran.2.1.takePending.1 ≠ [] ∧
      p.attempt c w = (saved.1, { w with backing := saved.2, numbered := w.numbered + 1 })) := by
  unfold attempt
  rcases c.program.run p.types p.repository UnitOfWork.empty w.backing with
    ⟨_ | err, work, backing⟩
  · simp only
    by_cases hnone : work.takePending.1 = []
    · exact .inr (.inl ⟨trivial, hnone, by simp [hnone]⟩)
    · exact .inr (.inr ⟨trivial, hnone, by simp [hnone]⟩)
  · exact .inl ⟨err, rfl, rfl⟩

end

variable {δ κ S : Type} {p : Processor SharedLog δ κ S} {b : Backing SharedLog}

/-- What a commit does to a log that others use too: the position is the size of the log at that
moment, and the save meets the log as it is later. -/
theorem commit_shared (hstore : p.repository.store = SharedLog.store) (metadata : Metadata)
    (pending : List Pending) (batch : Uuid) (b : Backing SharedLog) :
    let before := b.store.turn.2
    let events := Batch.number ⟨batch, b.now, metadata⟩ before.log.size pending
    let saved := before.turn.2.log.save batch events
    (∃ err, b.store.turn.1 = some (.refused err) ∧
      p.commit metadata pending batch b = (.error (.store err), { b with store := before })) ∨
    (∃ cause, Batch.checkIntegrity batch events = .error cause ∧
      p.commit metadata pending batch b = (.error (.integrity cause), { b with store := before })) ∨
    (∃ err, before.turn.1 = some (.refused err) ∧
      p.commit metadata pending batch b = (.error (.store err), { b with store := before.turn.2 })) ∨
    (Batch.checkIntegrity batch events = .ok () ∧
      p.commit metadata pending batch b = (Attempt.ofSave batch saved.1,
        { b with store := { before.turn.2 with log := saved.2 } })) := by
  have hnext : p.repository.store.nextPosition = SharedLog.nextPosition := by rw [hstore]; rfl
  have hsave : p.repository.store.save = SharedLog.save := by rw [hstore]; rfl
  have hsteps := p.commit_steps metadata pending batch b
  simp only [hnext, hsave, SharedLog.nextPosition_snd] at hsteps
  intro before events saved
  rcases hsteps with ⟨err, hposition, hcommit⟩ | ⟨position, hposition, hsteps⟩
  · rcases b.store.nextPosition_fst with ⟨err', hfault, herr⟩ | hok
    · cases herr.symm.trans hposition
      exact .inl ⟨_, hfault, hcommit⟩
    · cases hok.symm.trans hposition
  · rcases b.store.nextPosition_fst with ⟨_, _, herr⟩ | hok
    · cases herr.symm.trans hposition
    · cases hok.symm.trans hposition
      rcases hsteps with ⟨cause, hrefused, hcommit⟩ | ⟨haccepted, hcommit⟩
      · exact .inr (.inl ⟨cause, hrefused, hcommit⟩)
      · change p.commit metadata pending batch b = (Attempt.ofSave batch (before.save batch events).1,
          { b with store := (before.save batch events).2 }) at hcommit
        rcases SharedLog.save_answer batch events before with ⟨err, hfault, hsaved⟩ | hsaved
        · rw [hsaved] at hcommit
          exact .inr (.inr (.inl ⟨err, hfault, hcommit⟩))
        · rw [hsaved] at hcommit
          exact .inr (.inr (.inr ⟨haccepted, hcommit⟩))

/-- A commit adds nothing, or it adds the numbered batch behind what the other writers have saved. -/
theorem commit_cases (hstore : p.repository.store = SharedLog.store)
    (hlog : b.store.log.Consistent) (metadata : Metadata) (pending : List Pending) (batch : Uuid) :
    (∃ answer store, p.commit metadata pending batch b = (answer, { b with store }) ∧
      b.store.Passed store ∧ ∀ committed block, answer ≠ .ok (.committed committed block)) ∨
    ∃ position block store,
      p.commit metadata pending batch b = (.ok (.committed (some batch) block), { b with store }) ∧
      b.store.Gains block store ∧ store.log.Consistent ∧
      List.Forall₂ (Event.StoredAs batch)
        (Batch.number ⟨batch, b.now, metadata⟩ position pending) block := by
  have hpassed := SharedLog.passed_turn b.store
  have hpassed' := hpassed.trans (SharedLog.passed_turn b.store.turn.2)
  rcases p.commit_shared hstore metadata pending batch b with
    ⟨_, _, hcommit⟩ | ⟨_, _, hcommit⟩ | ⟨_, _, hcommit⟩ | ⟨_, hcommit⟩
  · exact .inl ⟨_, _, hcommit, hpassed, nofun⟩
  · exact .inl ⟨_, _, hcommit, hpassed, nofun⟩
  · exact .inl ⟨_, _, hcommit, hpassed', nofun⟩
  · -- The save meets the log as the other writers have left it by then.
    generalize b.store.turn.2.turn.2 = others at hpassed' hcommit
    rcases (hpassed'.grown hlog).log.save_cases batch _ with
      ⟨_, hsave⟩ | ⟨_, hsave⟩ | ⟨block, log, hsave, hblock, hevents, hconsistent⟩ <;>
      rw [hsave] at hcommit
    · exact .inl ⟨_, _, hcommit, hpassed', nofun⟩
    · exact .inl ⟨_, _, hcommit, hpassed', nofun⟩
    · exact .inr ⟨_, block, _, hcommit, ⟨others, hpassed', rfl, hevents⟩, hconsistent, hblock⟩

/-- A commit only makes the log grow. If it succeeds, the numbered batch stands in the log behind
what other writers have committed before. -/
theorem commit_spec (hstore : p.repository.store = SharedLog.store) (hlog : b.store.log.Consistent)
    (metadata : Metadata) (pending : List Pending) (batch : Uuid) :
    ∃ outcome store, p.commit metadata pending batch b = (outcome, { b with store }) ∧
      b.store.Grown store ∧
      ∀ committed block, outcome = .ok (.committed committed block) → committed = some batch ∧
        ∃ (position : Int) (earlier : Log), earlier.Consistent ∧ b.store.log.Extends earlier ∧
          List.Forall₂ (Event.StoredAs batch)
            (Batch.number ⟨batch, b.now, metadata⟩ position pending) block ∧
          store.log.events = earlier.events ++ block := by
  rcases commit_cases hstore hlog metadata pending batch with
    ⟨outcome, store, hcommit, hpassed, hnot⟩ |
    ⟨position, block, store, hcommit, ⟨others, hpassed, _, hevents⟩, hconsistent, hblock⟩
  · exact ⟨outcome, store, hcommit, hpassed.grown hlog, fun _ _ h => absurd h (hnot _ _)⟩
  · have hothers := hpassed.grown hlog
    refine ⟨_, store, hcommit, hothers.trans ⟨hconsistent, ⟨block, hevents.symm⟩⟩, ?_⟩
    rintro _ _ ⟨⟩
    exact ⟨rfl, position, others.log, hothers.log, hothers.kept, hblock, hevents⟩

variable [DecidableEq κ]

/-- The loads of the attempt that starts in a state. -/
def loads (p : Processor SharedLog δ κ S) (c : Command κ S) (w : Processing SharedLog δ) :
    List (Loaded κ S) :=
  c.program.loads p.types p.repository UnitOfWork.empty w.backing

/-- An attempt leaves the snapshots right. If it commits a batch, every load of a root with an event
in it is up to date with the log before the batch. -/
theorem attempt_spec (hstore : p.repository.store = SharedLog.store)
    (hfaithful : AggregateType.Faithful (S := fun _ => S) p.types) (c : Command κ S)
    {w : Processing SharedLog δ}
    (hw : w.backing.Sound (S := fun _ => S) p.types w.backing.store.log) :
    (p.attempt c w).2.backing.Sound (S := fun _ => S) p.types
        (p.attempt c w).2.backing.store.log ∧
      ∀ batch block, (p.attempt c w).1 = .ok (.committed (some batch) block) →
        ∃ earlier : Log, earlier.Consistent ∧
          (p.attempt c w).2.backing.store.log.events = earlier.events ++ block ∧
          (∀ e ∈ block, ∃ l ∈ p.loads c w, e.root = .ok l.id) ∧
          ∀ l ∈ p.loads c w, (∃ e ∈ block, e.root = .ok l.id) → l.Current p.types earlier := by
  have hwork := (Working.empty hw).run hstore hfaithful c.program
  rw [List.nil_append] at hwork
  unfold loads
  rcases p.attempt_steps c w with ⟨_, _, hattempt⟩ | ⟨_, _, hattempt⟩ | ⟨_, _, hattempt⟩
  · rw [hattempt]
    exact ⟨hwork.sound, nofun⟩
  · rw [hattempt]
    exact ⟨hwork.sound, nofun⟩
  · -- Only now is anything written.
    generalize c.program.run p.types p.repository UnitOfWork.empty w.backing = ran at hwork hattempt
    obtain ⟨outcome, store, hcommit, hgrown, hcommitted⟩ := commit_spec hstore
      hwork.sound.consistent c.metadata ran.2.1.takePending.1 (p.batchId w.numbered)
    rw [hattempt, hcommit]
    refine ⟨⟨hgrown.log, hwork.sound.cache.mono hwork.sound.consistent hgrown.log hgrown.kept⟩, ?_⟩
    intro batch block houtcome
    obtain ⟨_, position, earlier, hearlier, hext, hblock, hevents⟩ := hcommitted _ _ houtcome
    refine ⟨earlier, hearlier, hevents, ?_, ?_⟩
    · intro e he
      exact (hwork.current hext hgrown.log hblock hevents he).1
    · rintro l hl ⟨e, he, hroot⟩
      exact (hwork.current hext hgrown.log hblock hevents he).2 l hl hroot

/-- Every attempt starts with snapshots that are right. -/
theorem startOf_sound (hstore : p.repository.store = SharedLog.store)
    (hfaithful : AggregateType.Faithful (S := fun _ => S) p.types) (c : Command κ S) (k : Nat)
    {w : Processing SharedLog δ}
    (hw : w.backing.Sound (S := fun _ => S) p.types w.backing.store.log) :
    (p.startOf c k w).backing.Sound (S := fun _ => S) p.types
      (p.startOf c k w).backing.store.log := by
  induction k generalizing w with
  | zero => exact hw
  | succ k ih => exact ih (attempt_spec hstore hfaithful c hw).1

end Processor

/-- The log is used by other writers too. -/
def Backing.shared (b : Backing Log) (ahead : List Happening) : Backing SharedLog where
  store := ⟨b.store, ahead⟩
  cache := b.cache
  now := b.now

/-- **No lost update.** A command is processed on a log and snapshots that any saves and loads have
left, while other writers commit what they like before every step of every attempt (`Backing.shared`). If
`Processor.process` commits a batch, then the attempt that starts in `p.lastStart c w` did, and of whatever
root has an event in the batch, each load of it in that attempt (`p.loads`) is `Loaded.Current`: it is what
its whole history before the batch makes it, so nothing came in between. In `Course.loads_current` others
may change the snapshots as well. -/
theorem Processor.no_lost_update {δ κ S : Type} [DecidableEq κ] {p : Processor SharedLog δ κ S}
    (hstore : p.repository.store = SharedLog.store)
    (hfaithful : AggregateType.Faithful (S := fun _ => S) p.types) {limit : Nat} {start : Instant}
    {steps : List (LoadStep κ)} {ahead : List Happening} {w : Processing SharedLog δ}
    (hw : w.backing = (LoadStep.runAll p.types steps (Backing.fresh limit start)).shared ahead)
    {c : Command κ S} {result : CommandResult} {batch : Uuid}
    (hresult : (p.process c w).1 = .ok result) (hbatch : result.batch = some batch) :
    let last := p.lastStart c w
    (p.attempt c last).1 = .ok (.committed (some batch) result.events) ∧
    ∃ earlier : Log, earlier.Consistent ∧
      (p.attempt c last).2.backing.store.log.events = earlier.events ++ result.events ∧
      (∀ e ∈ result.events, ∃ l ∈ p.loads c last, e.root = .ok l.id) ∧
      ∀ l ∈ p.loads c last, (∃ e ∈ result.events, e.root = .ok l.id) →
        l.Current p.types earlier := by
  intro last
  have hfilled := LoadStep.sound_runAll hfaithful steps
    (Backing.sound_fresh (S := fun _ => S) p.types limit start)
  have hsound : w.backing.Sound (S := fun _ => S) p.types w.backing.store.log := by
    rw [hw]
    exact ⟨hfilled.consistent, hfilled.cache⟩
  have hlast := startOf_sound hstore hfaithful c (p.last c w) hsound
  rw [process_eq] at hresult
  have hattempt := (conclude_eq_ok hresult).1
  rw [hbatch] at hattempt
  exact ⟨hattempt, (p.attempt_spec hstore hfaithful c hlast).2 batch result.events hattempt⟩

namespace Sample

/-- Processes commands on accounts, without anybody to hand the events to. -/
def teller : Processor SharedLog Unit Kind State where
  repository := ⟨SharedLog.store, 1⟩
  types := aggregateType
  maxRetries := 2
  batchId := fun _ => .nil
  dispatchers := []

/-- A deposit. -/
def deposit : Command Kind State :=
  Request.command ⟨.account, "a", "deposit", [Event.new "Deposited" (deposited.encode 7)], none,
    Dict.empty⟩

/-- An account with some deposits, on which another writer deposits too just before the first
save. -/
def contested : Processing SharedLog Unit where
  backing := (LoadStep.runAll aggregateType depositSteps (Backing.fresh 10 ⟨0, 0⟩)).shared
    [{}, {}, { rivals := [⟨.nil, (Log.empty.continuation "a" "Deposited"
      (deposited.encode 5) 5).drop 4⟩] }]
  audience := ()

end Sample

set_option maxRecDepth 10000 in
/-- The deposit that meets another deposit is tried again, and then sees it. -/
theorem Processor.no_lost_update_contested :
    ∃ result, (Sample.teller.process Sample.deposit Sample.contested).1 = .ok result ∧
      result.attempts = 2 ∧
      let last := Sample.teller.lastStart Sample.deposit Sample.contested
      (Sample.teller.attempt Sample.deposit last).1
          = .ok (.committed (some .nil) result.events) ∧
      ∃ earlier : Log, earlier.Consistent ∧
        (Sample.teller.attempt Sample.deposit last).2.backing.store.log.events
            = earlier.events ++ result.events ∧
        (∀ e ∈ result.events, ∃ l ∈ Sample.teller.loads Sample.deposit last, e.root = .ok l.id) ∧
        ∀ l ∈ Sample.teller.loads Sample.deposit last, (∃ e ∈ result.events, e.root = .ok l.id) →
          l.Current Sample.aggregateType earlier := by
  have hok : ((Sample.teller.process Sample.deposit Sample.contested).1.toOption.any fun r =>
      decide (r.batch = some .nil ∧ r.attempts = 2)) = true := by decide +kernel
  cases hresult : (Sample.teller.process Sample.deposit Sample.contested).1 with
  | error err =>
    rw [hresult] at hok
    cases hok
  | ok result =>
    rw [hresult] at hok
    obtain ⟨hbatch, hattempts⟩ := of_decide_eq_true hok
    exact ⟨result, rfl, hattempts, Processor.no_lost_update rfl Sample.faithful_aggregateType rfl
      hresult hbatch⟩

end Chronicle
