import Chronicle.Proofs.Command.Numbering
import Chronicle.Proofs.Log.Outcome

namespace Chronicle

/-!
# What a conflict costs

* `SharedLog.rivalry` — how many batches other writers have committed between two states of a log. It
  adds up along the operations of a store.
* `UnitOfWork.Paced` — the roots at hand are not behind the log that an attempt has started from, and
  not ahead of the log as it is.
* `Log.save_pending` — so the batch of what they have emitted is committed, or one of them is behind its
  history, or the log is full. It never leaves a gap.
* `UnitOfWork.Paced.save_cases` — and in the second case the history has grown since the attempt began.
* `Processor.conflicts_are_paid` — every attempt that meets a conflict has met a commit of another
  writer, so there are at most as many such attempts as there are such commits.
-/

/-! ### Commits of other writers -/

namespace Log

/-- How many of some saves add events to a log. -/
def commits (calls : List Save) (log : Log) : Nat :=
  (log.saveAll calls).1.countP fun answer => !(SaveOutcome.added answer).isEmpty

theorem commits_append (calls later : List Save) (log : Log) :
    log.commits (calls ++ later) = log.commits calls + (log.saveAll calls).2.commits later := by
  induction calls generalizing log with
  | nil => simp [commits]
  | cons s rest ih =>
    have hcons : ∀ calls, log.commits (s :: calls)
        = (log.save s.batch s.events).2.commits calls + if !(SaveOutcome.added
            (log.save s.batch s.events).1).isEmpty then 1 else 0 := by
      intro calls
      rw [commits, saveAll_cons, List.countP_cons, commits]
    rw [List.cons_append, hcons, hcons, ih, saveAll_cons]
    exact Nat.add_right_comm _ _ _

/-- Saves that add nothing leave the events as they are. -/
theorem events_of_commits_eq_zero {log : Log} (hlog : log.Consistent) {calls : List Save}
    (h : log.commits calls = 0) : (log.saveAll calls).2.events = log.events := by
  have hnone : (log.saveAll calls).1.flatMap SaveOutcome.added = [] := by
    rw [List.flatMap_eq_nil_iff]
    intro answer hanswer
    simpa using List.countP_eq_zero.1 h answer hanswer
  rw [saveAll_events hlog, hnone, List.append_nil]

end Log

namespace SharedLog

variable {a b c : SharedLog}

/-- What other writers have saved between two states of a log, by what is still ahead. -/
def between (s s' : SharedLog) : List Save :=
  (s.ahead.take (s.ahead.length - s'.ahead.length)).flatMap Happening.rivals

/-- How many batches with events other writers have committed between two states of a log. -/
def rivalry (s s' : SharedLog) : Nat := s.log.commits (s.between s')

theorem between_eq {used : List Happening} (h : a.ahead = used ++ b.ahead) :
    a.between b = used.flatMap Happening.rivals := by
  unfold between
  rw [h, List.length_append, Nat.add_sub_cancel, List.take_left']
  rfl

/-- What is committed up to a state and what is committed from there on adds up. -/
theorem rivalry_add (hab : a.Passed b) (hbc : c.ahead <:+ b.ahead) :
    a.rivalry c = a.rivalry b + b.rivalry c := by
  obtain ⟨used, hused, hlog⟩ := hab
  obtain ⟨used', hused'⟩ := hbc
  have hall : a.ahead = (used ++ used') ++ c.ahead := by rw [hused, ← hused', List.append_assoc]
  rw [rivalry, between_eq hall, List.flatMap_append, Log.commits_append, ← hlog,
    rivalry, between_eq hused, rivalry, between_eq hused'.symm]

/-- Without commits of other writers, a log that nobody else writes has the same events. -/
theorem Passed.events_eq (h : a.Passed b) (hlog : a.log.Consistent) (hnone : a.rivalry b = 0) :
    b.log.events = a.log.events := by
  obtain ⟨used, hused, hsaved⟩ := h
  rw [rivalry, between_eq hused] at hnone
  rw [hsaved]
  exact Log.events_of_commits_eq_zero hlog hnone

end SharedLog

/-! ### Batches that do not run ahead of a log -/

/-- The number that a batch wants first of a root is the one after the root's own, as a word. -/
theorem Batch.firstSequence?_number {s : Stamp} {position : Int} {entries : List (String × Pending)}
    (hby : ById entries) {id : String} {n : Int}
    (h : firstSequence? (number s position (entries.map Prod.snd)) id = some n) :
    ∃ p, (id, p) ∈ entries ∧ n = Word64.wrap (p.sequence + 1) := by
  obtain ⟨e, he, hn⟩ := Option.bind_eq_some_iff.1 h
  obtain ⟨⟨id', p⟩, hp, hroot⟩ := hby.exists_root (List.mem_of_find?_eq_some he)
  have hof := List.find?_some he
  rw [Event.isOf_iff, hroot, Except.ok.injEq] at hof
  obtain rfl : id' = id := hof
  refine ⟨p, hp, ?_⟩
  -- The first event of the root in the batch is the first one that was emitted on it.
  obtain ⟨position', hfilter⟩ := filter_number s position hby hp
  rw [← List.head?_filter, hfilter, List.head?_eq_getElem?, Stamp.getElem?_markFrom,
    Option.map_eq_some_iff] at he
  obtain ⟨e₀, _, rfl⟩ := he
  rw [s.sequence_mark_of_fits _ _ (Word64.fits_wrap _)] at hn
  simpa [Except.toOption, eq_comm] using hn

/-- A batch of roots that are not ahead of the log is committed, or one of them is behind the log, or
there is no room left. It never leaves a gap. -/
theorem Log.save_pending {κ S : Type} {log : Log} (hlog : log.Consistent) {u : UnitOfWork κ S}
    (howned : u.Owned) (hle : ∀ id kind root, u.roots.get? id = some (kind, root) →
      0 ≤ root.sequence + 1 ∧ root.sequence + 1 ≤ (log.history id).length)
    (s : Batch.Stamp) (position : Int) (hne : u.takePending.1 ≠ [])
    (haccepted : Batch.checkIntegrity s.batch (Batch.number s position u.takePending.1) = .ok ()) :
    let events := Batch.number s position u.takePending.1
    (∃ block, (log.save s.batch events).1 = .ok (.committed block)) ∨
    (∃ conflict id kind root, (log.save s.batch events).1 = .ok (.conflict conflict) ∧
      u.roots.get? id = some (kind, root) ∧ root.sequence + 1 < (log.history id).length) ∨
    ∃ cause, (log.save s.batch events).1 = .error cause ∧ ¬ log.HasRoom events := by
  intro events
  have hevents : events ≠ [] := Batch.number_ne_nil s position hne
  by_cases hroom : log.HasRoom events
  · have hsequenced : Batch.Sequenced events := by
      refine Batch.sequenced_of_checkIntegrity haccepted ?_
      unfold HasRoom Word64.greatest at hroom
      unfold Word64.count
      omega
    cases hmisfit : log.misfit? events with
    | none =>
      obtain ⟨block, hsave, _⟩ := save_of_fits s.batch hlog hevents hsequenced hroom hmisfit
      exact .inl ⟨block, hsave⟩
    | some id =>
      obtain ⟨sequence, hsequence, hdiffers, hsave⟩ :=
        save_of_misfit s.batch hlog hevents hsequenced hroom hmisfit
      -- The root wants the number after its own, which the log has reached.
      unfold events at hsequence
      rw [UnitOfWork.takePending_fst] at hsequence
      obtain ⟨p, hp, hnumber⟩ := Batch.firstSequence?_number howned.byId hsequence
      obtain ⟨kind, root, hget, rfl, _⟩ := UnitOfWork.mem_pendingById.1 hp
      obtain ⟨hnonneg, hreached⟩ := hle id kind root hget
      have hown : sequence = root.sequence + 1 := by
        have hfits := hlog.fits_length_history id
        rw [hnumber, UnitOfWork.sequence_pendingOf, Word64.wrap_of_fits]
        unfold Word64.Fits Word64.least at *
        omega
      have hlt : sequence < (log.history id).length := by omega
      rw [if_pos hlt] at hsave
      exact .inr (.inl ⟨_, id, kind, root, congrArg Prod.fst hsave, hget, hown ▸ hlt⟩)
  · exact .inr (.inr ⟨_, congrArg Prod.fst (save_of_not_hasRoom s.batch hevents hroom), hroom⟩)

/-! ### Roots that keep pace with a log -/

section

variable {κ S : Type}

/-- The log is consistent, and every snapshot has numbers of the log. -/
structure Backing.Numbered (b : Backing SharedLog) : Prop where
  /-- The log is consistent. -/
  consistent : b.store.log.Consistent
  /-- Every snapshot has numbers of the log. -/
  cache : b.cache.Numbered b.store.log

/-- When the store has grown, the snapshots are still right. -/
theorem Backing.Numbered.grown {b : Backing SharedLog} (h : b.Numbered) {store : SharedLog}
    (hgrown : b.store.Grown store) : ({ b with store } : Backing SharedLog).Numbered where
  consistent := hgrown.log
  cache := h.cache.mono h.consistent hgrown.log hgrown.kept

/-- The state of a command that has started from a log: every root at hand has been loaded since then,
so its number lies between that log and the log as it is. -/
structure UnitOfWork.Paced (first : Log) (u : UnitOfWork κ S) (b : Backing SharedLog) : Prop where
  /-- Log and snapshots are in order. -/
  numbered : b.Numbered
  /-- The log has only grown. -/
  grown : first.Extends b.store.log
  /-- The roots at hand have events of their own only. -/
  owned : u.Owned
  /-- No root is behind the log that the command has started from. -/
  since : ∀ id kind root, u.roots.get? id = some (kind, root) →
    ((first.history id).length : Int) ≤ root.sequence + 1
  /-- No root is ahead of the log as it is. -/
  upTo : ∀ id kind root, u.roots.get? id = some (kind, root) →
    root.sequence + 1 ≤ (b.store.log.history id).length

namespace UnitOfWork.Paced

variable {types : κ → AggregateType S} {first : Log} {u : UnitOfWork κ S} {b : Backing SharedLog}

theorem empty (hb : b.Numbered) : Paced b.store.log (UnitOfWork.empty : UnitOfWork κ S) b where
  numbered := hb
  grown := .refl _
  owned := owned_empty
  since _ _ _ h := by cases h
  upTo _ _ _ h := by cases h

/-- A longer log does not matter to the roots at hand. -/
theorem passed (h : Paced first u b) {b' : Backing SharedLog} (hb' : b'.Numbered)
    (hext : b.store.log.Extends b'.store.log) : Paced first u b' where
  numbered := hb'
  grown := h.grown.trans hext
  owned := h.owned
  since := h.since
  upTo id kind root hget := by
    have := (hext.history id).length_le
    have := h.upTo id kind root hget
    omega

/-- A root that is numbered like the log as it is may be added. -/
theorem insert (h : Paced first u b) {kind : κ} {root : Root S} (howned : root.Owned)
    (hsequence : root.sequence + 1 = (b.store.log.history root.id).length) :
    Paced first ⟨u.roots.insert root.id (kind, root)⟩ b where
  numbered := h.numbered
  grown := h.grown
  owned := h.owned.insert kind howned
  since id kind' root' hget := by
    rw [Table.get?_insert] at hget
    split at hget
    · rename_i hid
      cases hget
      have := (h.grown.history root.id).length_le
      rw [hid]
      omega
    · exact h.since id kind' root' hget
  upTo id kind' root' hget := by
    rw [Table.get?_insert] at hget
    split at hget
    · rename_i hid
      cases hget
      rw [hid]
      omega
    · exact h.upTo id kind' root' hget

/-- An emitted event does not change the number of its root. -/
theorem emit (h : Paced first u b) (id : String) (e : Event) :
    Paced first (u.emit types id e).2 b := by
  have howned := h.owned.emit types id e
  unfold UnitOfWork.emit at howned ⊢
  cases hget : u.roots.get? id with
  | none => exact h
  | some entry =>
    obtain ⟨kind, root⟩ := entry
    simp only [hget] at howned
    refine ⟨h.numbered, h.grown, howned, ?_, ?_⟩
    all_goals
      intro id' kind' root' hget'
      rw [Table.get?_insert] at hget'
      split at hget'
      · rename_i hid
        cases hget'
        rw [Root.sequence_emit, hid]
        first | exact h.since id kind root hget | exact h.upTo id kind root hget
      · first | exact h.since id' kind' root' hget' | exact h.upTo id' kind' root' hget'

variable [DecidableEq κ] {repo : Repository SharedLog}

/-- A root that is loaded is as far as the log at that moment. -/
theorem acquire (hstore : repo.store = SharedLog.store) (h : Paced first u b) (mode : Acquisition)
    (kind : κ) (id : String) :
    Paced first (u.acquire types repo mode kind id b).2.1
      (u.acquire types repo mode kind id b).2.2 := by
  have hgrown := SharedLog.grown_turn h.numbered.consistent
  have hturn := h.numbered.grown hgrown
  have hload : ∀ start, repo.store.load id start b.store
      = (Fault.read b.store.turn.1 (b.store.turn.2.log.load id start), b.store.turn.2) := by
    intro start
    rw [hstore]
    rfl
  obtain ⟨answer, cache, hhydrate, hcache, _, _⟩ := Repository.hydrate_numbers (b := b) repo hgrown.log
    hturn.cache (types kind) id Repository.latest hload
  have hafter : Paced first u { b with store := b.store.turn.2, cache } :=
    h.passed ⟨hgrown.log, hcache⟩ hgrown.kept
  rw [acquire_backing, hhydrate]
  rcases acquire_numbered (b := b) types repo hgrown.log hturn.cache mode kind id hload u with
    hsame | ⟨root, hget, hadded, howned, hsequence⟩
  · rw [hsame]
    split
    · exact h
    · exact hafter
  · rw [hadded, hget]
    exact hafter.insert howned hsequence

/-- Every program keeps pace with the log. -/
theorem run (h : Paced first u b) (types : κ → AggregateType S)
    (hstore : repo.store = SharedLog.store) (program : Program κ S) :
    Paced first (program.run types repo u b).2.1 (program.run types repo u b).2.2 :=
  Program.run_induction (I := Paced first) types repo
    (fun mode kind id _ _ h => h.acquire hstore mode kind id) (fun id e _ _ h => h.emit id e)
    program h

end UnitOfWork.Paced

end

/-- There is room left in a log for what has been emitted. -/
def Log.HasRoomFor (log : Log) (pending : List Pending) : Prop :=
  log.HasRoom (pending.flatMap Pending.events)

/-- The numbers of roots that are not ahead of a log are words, as long as there is room. -/
theorem UnitOfWork.Paced.inRange {κ S : Type} {first log : Log} {u : UnitOfWork κ S}
    {b : Backing SharedLog} (h : u.Paced first b) (hext : b.store.log.Extends log)
    (hroom : log.HasRoomFor u.takePending.1) : Batch.InRange log.size u.takePending.1 := by
  unfold Log.HasRoomFor Log.HasRoom at hroom
  constructor
  · intro p hp k hk
    obtain ⟨id, kind, root, hget, rfl⟩ := mem_takePending hp
    have hlength : (pendingOf root).events.length ≤ (u.takePending.1.flatMap Pending.events).length :=
      (List.sublist_flatten_of_mem (List.mem_map_of_mem hp)).length_le
    have hsince := h.since id kind root hget
    have hupTo := h.upTo id kind root hget
    have hsize := hext.length_le
    have hhistory : (b.store.log.history id).length ≤ b.store.log.events.length :=
      List.length_filter_le _ _
    unfold Word64.Fits Word64.least Word64.greatest at *
    unfold Log.size at hroom
    rw [sequence_pendingOf]
    omega
  · intro k hk
    unfold Word64.Fits Word64.least Word64.greatest at *
    omega

/-- A batch that keeps pace with a log is committed, or it meets a conflict because some history has grown
since the log that the command has started from, or there is no room left. -/
theorem UnitOfWork.Paced.save_cases {κ S : Type} {first log : Log} {u : UnitOfWork κ S}
    {b : Backing SharedLog} (h : u.Paced first b) (hlog : log.Consistent)
    (hext : b.store.log.Extends log) (s : Batch.Stamp) (position : Int) (hne : u.takePending.1 ≠ [])
    (haccepted : Batch.checkIntegrity s.batch (Batch.number s position u.takePending.1) = .ok ()) :
    let answer := (log.save s.batch (Batch.number s position u.takePending.1)).1
    (∃ block, answer = .ok (.committed block)) ∨
    (∃ conflict id, answer = .ok (.conflict conflict) ∧
      (first.history id).length < (log.history id).length) ∨
    ∃ err, answer = .error err ∧ ¬ log.HasRoomFor u.takePending.1 := by
  have hle : ∀ id kind root, u.roots.get? id = some (kind, root) →
      0 ≤ root.sequence + 1 ∧ root.sequence + 1 ≤ (log.history id).length := by
    intro id kind root hget
    have hsince := h.since id kind root hget
    have hupTo := h.upTo id kind root hget
    have hgrown := (hext.history id).length_le
    omega
  rcases Log.save_pending hlog h.owned hle s position hne haccepted with
    hcommitted | ⟨conflict, id, kind, root, hanswer, hget, hlt⟩ | ⟨err, hanswer, hfull⟩
  · exact .inl hcommitted
  · have hsince := h.since id kind root hget
    exact .inr (.inl ⟨conflict, id, hanswer, by omega⟩)
  · refine .inr (.inr ⟨err, hanswer, ?_⟩)
    unfold Log.HasRoomFor Log.HasRoom
    unfold Log.HasRoom at hfull
    rwa [Batch.length_number] at hfull

/-! ### Attempts -/

namespace Processor

variable {δ κ S : Type} [DecidableEq κ] {p : Processor SharedLog δ κ S} {c : Command κ S}
  {w : Processing SharedLog δ}

/-- An attempt leaves the log and the snapshots in order. -/
theorem attempt_numbered (hstore : p.repository.store = SharedLog.store) (c : Command κ S)
    (hw : w.backing.Numbered) : (p.attempt c w).2.backing.Numbered := by
  have hpaced := (UnitOfWork.Paced.empty hw).run p.types hstore c.program
  rcases p.attempt_steps c w with ⟨_, _, hattempt⟩ | ⟨_, _, hattempt⟩ | ⟨_, _, hattempt⟩
  · rw [hattempt]
    exact hpaced.numbered
  · rw [hattempt]
    exact hpaced.numbered
  · obtain ⟨_, store, hcommit, hgrown, _⟩ := p.commit_spec hstore hpaced.numbered.consistent
      c.metadata (c.program.run p.types p.repository UnitOfWork.empty w.backing).2.1.takePending.1
      (p.batchId w.numbered)
    rw [hattempt, hcommit]
    exact hpaced.numbered.grown hgrown

theorem startOf_numbered (hstore : p.repository.store = SharedLog.store) (c : Command κ S) (k : Nat)
    (hw : w.backing.Numbered) : (p.startOf c k w).backing.Numbered := by
  induction k generalizing w with
  | zero => exact hw
  | succ k ih => exact ih (attempt_numbered hstore c hw)

omit [DecidableEq κ] in
/-- What becomes of a batch that keeps pace with the log: it is committed, or it meets a conflict
because some history has grown since the log that the command has started from. Otherwise the store
has failed of its own, or there is no room left. -/
theorem commit_paced (hstore : p.repository.store = SharedLog.store) {first : Log}
    {u : UnitOfWork κ S} {b : Backing SharedLog} (h : u.Paced first b) (hne : u.takePending.1 ≠ [])
    (metadata : Metadata) (batch : Uuid) :
    let after := p.commit metadata u.takePending.1 batch b
    (∃ block, after.1 = .ok (.committed (some batch) block)) ∨
    (∃ conflict id, after.1 = .ok (.conflict conflict) ∧
      (first.history id).length < (after.2.store.log.history id).length) ∨
    (∃ err, after.1 = .error err ∧ ¬ after.2.store.log.HasRoomFor u.takePending.1) ∨
    ∃ err, after.1 = .error err ∧ ¬ b.store.Reliable := by
  have hgrown := SharedLog.grown_turn h.numbered.consistent
  have hmet := SharedLog.grown_turn hgrown.log
  intro after
  rcases p.commit_shared hstore metadata u.takePending.1 batch b with
    ⟨err, hfault, hcommit⟩ | ⟨cause, hrefused, hcommit⟩ | ⟨err, hfault, hcommit⟩ | ⟨haccepted, hcommit⟩
  · refine .inr (.inr (.inr ⟨_, congrArg Prod.fst hcommit, fun hreliable => ?_⟩))
    cases hreliable.turn_fst.symm.trans hfault
  · -- The batch would be accepted if its numbers were words.
    refine .inr (.inr (.inl ⟨_, congrArg Prod.fst hcommit, fun hroom => ?_⟩))
    rw [show after = _ from hcommit] at hroom
    have haccepted := (h.owned.numberedAs ⟨batch, b.now, metadata⟩
      (h.inRange hgrown.kept hroom)).accepted
    cases hrefused.symm.trans haccepted
  · refine .inr (.inr (.inr ⟨_, congrArg Prod.fst hcommit, fun hreliable => ?_⟩))
    have hlater := ((SharedLog.passed_turn b.store).later h.numbered.consistent).reliable hreliable
    cases hlater.turn_fst.symm.trans hfault
  · -- The save meets the log as the other writers have left it by then.
    generalize b.store.turn.2.turn.2 = store at hmet hcommit
    have hext := hgrown.kept.trans hmet.kept
    have hself : ∀ {answer}, (store.log.save batch (Batch.number ⟨batch, b.now, metadata⟩
        b.store.turn.2.log.size u.takePending.1)).1 = answer →
        (∀ block, answer ≠ .ok (.committed block)) →
        after = (Attempt.ofSave batch answer, { b with store }) := by
      intro answer hanswer hnot
      have hsame := Log.save_eq_self batch hmet.log (.inr (hanswer ▸ hnot))
      rw [show after = _ from hcommit, hsame, hanswer]
    rcases h.save_cases hmet.log hext ⟨batch, b.now, metadata⟩ _ hne haccepted with
      ⟨block, hanswer⟩ | ⟨conflict, id, hanswer, hlt⟩ | ⟨cause, hanswer, hfull⟩
    · exact .inl ⟨block, by rw [show after = _ from hcommit, hanswer]; rfl⟩
    · have hafter := hself hanswer nofun
      refine .inr (.inl ⟨conflict, id, congrArg Prod.fst hafter, ?_⟩)
      rw [hafter]
      exact hlt
    · have hafter := hself hanswer nofun
      refine .inr (.inr (.inl ⟨_, congrArg Prod.fst hafter, ?_⟩))
      rw [hafter]
      exact hfull

/-- An attempt meets a conflict because some history has grown since it started. -/
theorem attempt_conflict (hstore : p.repository.store = SharedLog.store) (hw : w.backing.Numbered)
    {conflict : Conflict} (h : (p.attempt c w).1 = .ok (.conflict conflict)) :
    ∃ id, (w.backing.store.log.history id).length
      < ((p.attempt c w).2.backing.store.log.history id).length := by
  have hpaced := (UnitOfWork.Paced.empty hw).run p.types hstore c.program
  rcases p.attempt_steps c w with ⟨_, _, hattempt⟩ | ⟨_, _, hattempt⟩ | ⟨_, hne, hattempt⟩
  · rw [hattempt] at h
    cases h
  · rw [hattempt] at h
    cases h
  · rw [hattempt] at h ⊢
    simp only at h ⊢
    rcases commit_paced hstore hpaced hne c.metadata (p.batchId w.numbered) with
      ⟨_, hanswer⟩ | ⟨_, id, _, hlt⟩ | ⟨_, hanswer, _⟩ | ⟨_, hanswer, _⟩
    · cases hanswer.symm.trans h
    · exact ⟨id, hlt⟩
    · cases hanswer.symm.trans h
    · cases hanswer.symm.trans h

/-- There is room for what an attempt emits in the log as the attempt leaves it. -/
def HasRoom (p : Processor SharedLog δ κ S) (c : Command κ S) (w : Processing SharedLog δ) : Prop :=
  ∀ pending, p.emitted c w = some pending →
    (p.attempt c w).2.backing.store.log.HasRoomFor pending

/-- On a log that does not fail, no batch of an attempt is refused: neither for its numbers nor for a
gap, as long as there is room. -/
theorem attempt_ne_store (hstore : p.repository.store = SharedLog.store) (hw : w.backing.Numbered)
    (hreliable : w.backing.store.Reliable) (hroom : p.HasRoom c w) :
    (∀ err, (p.attempt c w).1 ≠ .error (.store err)) ∧
      ∀ cause, (p.attempt c w).1 ≠ .error (.integrity cause) := by
  have hpaced := (UnitOfWork.Paced.empty hw).run p.types hstore c.program
  have hpassed := c.program.passed_run p.types hstore UnitOfWork.empty w.backing
  rcases p.attempt_steps c w with ⟨err, _, hattempt⟩ | ⟨_, _, hattempt⟩ | ⟨hran, hne, hattempt⟩
  · rw [hattempt]
    rcases err with _ | (_ | _) <;> exact ⟨nofun, nofun⟩
  · rw [hattempt]
    exact ⟨nofun, nofun⟩
  · have hleft := hroom _ (p.emitted_of_run_eq c w hran)
    rw [hattempt] at hleft ⊢
    rcases commit_paced hstore hpaced hne c.metadata (p.batchId w.numbered) with
      ⟨_, hanswer⟩ | ⟨_, _, hanswer, _⟩ | ⟨_, _, hfull⟩ | ⟨_, _, hfault⟩
    · simp only [hanswer]
      exact ⟨nofun, nofun⟩
    · simp only [hanswer]
      exact ⟨nofun, nofun⟩
    · exact absurd hleft hfull
    · exact absurd ((hpassed.later hw.consistent).reliable hreliable) hfault

/-! ### Paying for conflicts -/

/-- An attempt uses up what is ahead of the log. -/
theorem attempt_ahead (hstore : p.repository.store = SharedLog.store) (c : Command κ S)
    (hlog : w.backing.store.log.Consistent) :
    (p.attempt c w).2.backing.store.ahead <:+ w.backing.store.ahead := by
  have hpassed : ∀ {s}, w.backing.store.Passed s → s.ahead <:+ w.backing.store.ahead := by
    rintro s ⟨used, hused, _⟩
    exact ⟨used, hused.symm⟩
  obtain ⟨_, ⟨_, h⟩ | ⟨_, _, h⟩ | ⟨_, _, _, h⟩⟩ := attempt_cases hstore c hlog
  · exact hpassed h
  · exact hpassed h
  · obtain ⟨others, hothers, hahead, _⟩ := h.gains
    exact hahead ▸ hpassed hothers

/-- An attempt that meets a conflict adds nothing to the log. -/
theorem passed_of_conflicts (hstore : p.repository.store = SharedLog.store)
    (hlog : w.backing.store.log.Consistent) (h : p.Conflicts c 0 w) :
    w.backing.store.Passed (p.attempt c w).2.backing.store :=
  (startOf_passed hstore c (k := 1) hlog fun _ hj => Nat.lt_one_iff.1 hj ▸ h).2

/-- A conflict is paid for by a commit of another writer within the attempt. -/
theorem rivalry_of_conflict (hstore : p.repository.store = SharedLog.store) (hw : w.backing.Numbered)
    (h : p.Conflicts c 0 w) : 1 ≤ w.backing.store.rivalry (p.attempt c w).2.backing.store := by
  obtain ⟨conflict, h⟩ := h
  obtain ⟨id, hlt⟩ := attempt_conflict hstore hw h
  have hpassed := passed_of_conflicts hstore hw.consistent ⟨conflict, h⟩
  by_contra hnone
  have hsame := hpassed.events_eq hw.consistent (Nat.lt_one_iff.1 (Nat.lt_of_not_le hnone))
  have hhistory : (p.attempt c w).2.backing.store.log.history id = w.backing.store.log.history id :=
    congrArg (List.filter (Event.isOf id)) hsame
  rw [hhistory] at hlt
  exact absurd hlt (Nat.lt_irrefl _)

/-- So conflicts one after the other are paid for by as many commits. -/
theorem le_rivalry_startOf (hstore : p.repository.store = SharedLog.store) {k : Nat}
    (hw : w.backing.Numbered) (h : ∀ j < k, p.Conflicts c j w) :
    k ≤ w.backing.store.rivalry (p.startOf c k w).backing.store := by
  induction k generalizing w with
  | zero => exact Nat.zero_le _
  | succ k ih =>
    have hfirst := h 0 (Nat.succ_pos k)
    have hlater : ∀ j < k, p.Conflicts c j (p.attempt c w).2 :=
      fun j hj => h (j + 1) (Nat.succ_lt_succ hj)
    have hnumbered := attempt_numbered hstore c hw
    have hpassed := passed_of_conflicts hstore hw.consistent hfirst
    obtain ⟨_, used, hused, _⟩ := startOf_passed hstore c hnumbered.consistent hlater
    -- What is paid for the first conflict is not paid for the others.
    have hadd := SharedLog.rivalry_add hpassed ⟨used, hused.symm⟩
    have hpaid := rivalry_of_conflict hstore hw hfirst
    have hrest := ih hnumbered hlater
    simp only [startOf] at hadd hrest ⊢
    omega

/-- The next attempt starts in the state that an attempt leaves. -/
theorem startOf_succ {σ : Type} (p : Processor σ δ κ S) (c : Command κ S) (k : Nat)
    (w : Processing σ δ) : p.startOf c (k + 1) w = (p.attempt c (p.startOf c k w)).2 := by
  induction k generalizing w with
  | zero => rfl
  | succ k ih => exact ih (p.attempt c w).2

/-- How often a command is tried. -/
def tries {σ : Type} (p : Processor σ δ κ S) (c : Command κ S) (w : Processing σ δ) : Nat :=
  p.last c w + 1

/-- What other writers have to do with the number of attempts. -/
structure Paid (p : Processor SharedLog δ κ S) (c : Command κ S) (w : Processing SharedLog δ) :
    Prop where
  /-- The attempts are counted in the answer. -/
  counted : counted (p.process c w).1 = Word32.wrap (p.tries c w)
  /-- There are at most as many attempts as batches that others have committed while the command was
  processed, and one. -/
  attempts : 1 ≤ p.tries c w ∧
    p.tries c w ≤ 1 + w.backing.store.rivalry (p.lastEnd c w).backing.store
  /-- Every attempt that meets a conflict has met such a commit of its own. -/
  conflicts : ∀ k < p.tries c w, p.Conflicts c k w →
    1 ≤ (p.startOf c k w).backing.store.rivalry (p.startOf c (k + 1) w).backing.store
  /-- If nobody else has committed anything, the first attempt is the last one and meets none. -/
  alone : w.backing.store.rivalry (p.lastEnd c w).backing.store = 0 →
    p.tries c w = 1 ∧ ¬ p.Conflicts c 0 w
  /-- If others have committed no more batches than there are retries, the command does not fail by a
  conflict. -/
  spared : w.backing.store.rivalry (p.lastEnd c w).backing.store ≤ p.maxRetries →
    ∀ err conflict, (p.process c w).1 = .error err → err.cause ≠ .conflict conflict
  /-- If the store does not fail of its own, it does not refuse a batch, neither for its numbers nor for
  a gap, and the check does not either, as long as there is room. -/
  saves : w.backing.store.Reliable → ∀ k < p.tries c w, p.HasRoom c (p.startOf c k w) →
    (∀ err, p.outcome c k w ≠ .error (.store err)) ∧
      ∀ cause, p.outcome c k w ≠ .error (.integrity cause)

theorem paid (hstore : p.repository.store = SharedLog.store) (c : Command κ S)
    (hw : w.backing.Numbered) : p.Paid c w := by
  have hends := p.endsAt_last c w
  obtain ⟨_, hpassed⟩ := startOf_passed hstore c hw.consistent hends.before
  have hlast := startOf_numbered hstore c (p.last c w) hw
  -- What others commit during the processing is what they commit before and during the last attempt.
  have hadd : w.backing.store.rivalry (p.lastEnd c w).backing.store
      = w.backing.store.rivalry (p.lastStart c w).backing.store
        + (p.lastStart c w).backing.store.rivalry (p.lastEnd c w).backing.store :=
    SharedLog.rivalry_add hpassed (attempt_ahead hstore c hlast.consistent)
  have hbefore : p.last c w ≤ w.backing.store.rivalry (p.lastStart c w).backing.store :=
    le_rivalry_startOf hstore hw hends.before
  have hpaid : ∀ k, p.Conflicts c k w → 1 ≤ (p.startOf c k w).backing.store.rivalry
      (p.attempt c (p.startOf c k w)).2.backing.store :=
    fun k hk => rivalry_of_conflict hstore (startOf_numbered hstore c k hw) hk
  have hpaidLast : p.Conflicts c (p.last c w) w →
      1 ≤ (p.lastStart c w).backing.store.rivalry (p.lastEnd c w).backing.store := hpaid _
  refine ⟨p.counted_process c w, ⟨Nat.succ_pos _, ?attempts⟩, ?conflicts, ?alone, ?spared, ?saves⟩
  case attempts =>
    rw [tries]
    omega
  case conflicts =>
    intro k _ hk
    rw [startOf_succ]
    exact hpaid k hk
  case alone =>
    intro hnone
    have hzero : p.last c w = 0 := by omega
    refine ⟨by rw [tries, hzero], fun hconflict => ?_⟩
    rw [← hzero] at hconflict
    have := hpaidLast hconflict
    omega
  case spared =>
    -- If all attempts have met a conflict, others have committed too many batches.
    intro hfew err conflict herr hcause
    rw [process_eq] at herr
    obtain ⟨_, _, _, hfailed | ⟨conflict', hmet, _⟩⟩ := conclude_eq_error herr
    · exact ne_conflict_of_attempt hfailed conflict hcause
    · have hconflict : p.Conflicts c (p.last c w) w := ⟨conflict', hmet⟩
      have hmost : p.mostRetries ≤ p.last c w :=
        Nat.not_lt.1 fun hlt => hends.final hlt hconflict
      have := p.maxRetries_le_mostRetries
      have := hpaidLast hconflict
      omega
  case saves =>
    intro hreliable k hk hroom
    have hbefore : ∀ j < k, p.Conflicts c j w := fun j hj => hends.before j (by rw [tries] at hk; omega)
    obtain ⟨_, hpassed'⟩ := startOf_passed hstore c hw.consistent hbefore
    exact attempt_ne_store hstore (startOf_numbered hstore c k hw)
      ((hpassed'.later hw.consistent).reliable hreliable) hroom

end Processor

/-- **Every conflict is paid for by another writer.** A command is processed on a log and snapshots that
any saves and loads have left, while other writers commit what they like before every step
(`Backing.shared`). Then (`Processor.Paid`) there are at most as many attempts as batches committed by
others in the meantime (`SharedLog.rivalry`), and one: each attempt that `Conflicts` has met such a commit.
In no case does a batch of the command leave a gap. In `Course.conflicts_cost` others may change the
snapshots as well. -/
theorem Processor.conflicts_are_paid {δ κ S : Type} [DecidableEq κ] {p : Processor SharedLog δ κ S}
    (hstore : p.repository.store = SharedLog.store) {limit : Nat} {start : Instant}
    {steps : List (LoadStep κ)} {ahead : List Happening} {w : Processing SharedLog δ}
    (hw : w.backing = (LoadStep.runAll p.types steps (Backing.fresh limit start)).shared ahead)
    (c : Command κ S) : p.Paid c w := by
  have hfilled := (LoadStep.filled_runAll (S := fun _ => S) p.types limit start steps).numbered
  refine paid hstore c ?_
  rw [hw]
  exact ⟨hfilled.1, hfilled.2⟩

set_option maxRecDepth 10000 in
/-- The deposit that meets another deposit is tried twice, for the one batch of the other writer. -/
theorem Processor.conflicts_are_paid_contested :
    Sample.teller.tries Sample.deposit Sample.contested = 2 ∧
    Sample.contested.backing.store.rivalry
      (Sample.teller.lastEnd Sample.deposit Sample.contested).backing.store = 1 ∧
    Sample.teller.Paid Sample.deposit Sample.contested :=
  ⟨by decide +kernel, by decide +kernel, Processor.conflicts_are_paid rfl rfl Sample.deposit⟩

end Chronicle
