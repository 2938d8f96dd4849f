import Chronicle.Proofs.Command.Batches

namespace Chronicle

/-!
# What the metadata of a committed event say

An event gets metadata in three places, after its emitter has set what it likes: the root that emits
it marks it, the batch numbers and stamps it and fills in what the command has set, and the log
stamps it once more when it is saved.

* `Root.get?_mark`, `Batch.Stamp.get?_mark` — what is found under a key after the first two places, as
  a function of the key.
* `Event.Attested` — the six keys of the library tell where an event comes from and where it stands;
  every other key has the value of the emitter, or else the one of the command.
* `UnitOfWork.Traced.attested` — a stored batch has, of every root, the events that were emitted on it
  and taken, attested.
* `Processor.attests` — so it is for every command that succeeds.
-/

/-! ### Marks -/

/-- What a root sets under a key when it marks an event. -/
def Root.marks {S : Type} (T : AggregateType S) (r : Root S) (key : String) : Option String :=
  if key = Metadata.Key.rootType then some T.name
  else if key = Metadata.Key.root then some r.id
  else none

/-- The marks of a root replace what the emitter has set. -/
theorem Root.get?_mark {S : Type} (T : AggregateType S) (r : Root S) (e : Event) (key : String) :
    (r.mark T e).metadata.get? key = (r.marks T key).or (e.metadata.get? key) := by
  simp only [mark, marks, Event.metadata_withMetadata, Dict.get?_insert]
  split_ifs <;> rfl

/-- What numbering sets under a key. -/
def Batch.Stamp.numbers (s : Stamp) (sequence position : Int) (key : String) : Option String :=
  if key = Metadata.Key.time then some s.time.rfc3339
  else if key = Metadata.Key.batch then some s.batch.text
  else if key = Metadata.Key.position then some (toString position)
  else if key = Metadata.Key.sequence then some (toString sequence)
  else none

/-- Numbering replaces what the event has, and the command fills in what it has not. -/
theorem Batch.Stamp.get?_mark (s : Stamp) (sequence position : Int) (e : Event) (key : String) :
    (s.mark sequence position e).metadata.get? key
      = ((s.numbers sequence position key).or (e.metadata.get? key)).or (s.metadata.get? key) := by
  simp only [mark, numbers, Dict.get?_merge, Dict.get?_insert]
  split_ifs <;> rfl

namespace Metadata.Key

theorem not_mem_reserved_iff (key : String) : key ∉ reserved ↔ key ≠ root ∧ key ≠ sequence ∧
    key ≠ position ∧ key ≠ batch ∧ key ≠ time ∧ key ≠ rootType := by
  simp [reserved]

end Metadata.Key

section

variable {S : Type} (T : AggregateType S) (r : Root S) (s : Batch.Stamp) (sequence position : Int)
  (e : Event)

/-- Under a key that the library does not set there is what the emitter has set, or else what the
command has set. -/
theorem Batch.Stamp.get?_mark_of_not_reserved {key : String} (hkey : key ∉ Metadata.Key.reserved) :
    (s.mark sequence position (r.mark T e)).metadata.get? key
      = (e.metadata.get? key).or (s.metadata.get? key) := by
  obtain ⟨hroot, hsequence, hposition, hbatch, htime, htype⟩ :=
    (Metadata.Key.not_mem_reserved_iff key).1 hkey
  simp [s.get?_mark, numbers, Root.get?_mark, Root.marks, hroot, hsequence, hposition, hbatch, htime,
    htype]

/-- The root of the mark is kept, whatever else is set. -/
theorem Batch.Stamp.get?_root_mark : (s.mark sequence position (r.mark T e)).metadata.get?
    Metadata.Key.root = some r.id := by
  rw [s.get?_mark, Root.get?_mark]
  rfl

/-- The type of the mark is kept, whatever else is set. -/
theorem Batch.Stamp.get?_rootType_mark : (s.mark sequence position (r.mark T e)).metadata.get?
    Metadata.Key.rootType = some T.name := by
  rw [s.get?_mark, Root.get?_mark]
  rfl

theorem Batch.Stamp.get?_time_mark :
    (s.mark sequence position e).metadata.get? Metadata.Key.time = some s.time.rfc3339 := by
  rw [s.get?_mark]
  rfl

end

/-! ### Attested events -/

/-- The metadata of a stored event tell what is the case: it was emitted on the root of the emission,
it stands where it says, and it was numbered with the stamp. All other metadata are those of the
emitter, or else those of the stamp. -/
structure Event.Attested (s : Batch.Stamp) (log : Log) (type : String) (x : Emission) (e : Event) :
    Prop where
  /-- The event says what was emitted. -/
  content : e.content = x.event.content
  /-- It carries the id of the root it was emitted on. -/
  root : e.metadata.get? Metadata.Key.root = some x.root
  /-- It carries the type of that root. -/
  rootType : e.metadata.get? Metadata.Key.rootType = some type
  /-- It carries its place in the history of that root. -/
  sequence : ∃ n : Nat, (log.history x.root)[n]? = some e ∧
    e.metadata.get? Metadata.Key.sequence = some (toString (n : Int))
  /-- It carries its place in the log. -/
  position : ∃ i : Nat, log.events[i]? = some e ∧
    e.metadata.get? Metadata.Key.position = some (toString (i : Int))
  /-- It carries the id of the batch. -/
  batch : e.metadata.get? Metadata.Key.batch = some s.batch.text
  /-- It carries the time of the stamp. -/
  time : e.metadata.get? Metadata.Key.time = some s.time.rfc3339
  /-- Every other key has the value of the emitter, or else the one of the command, or none. -/
  others : ∀ key ∉ Metadata.Key.reserved,
    e.metadata.get? key = (x.event.metadata.get? key).or (s.metadata.get? key)

/-- What a log stamps has the texts of a position and of the batch. -/
theorem Log.get?_stamp {batch : Uuid} {place : Nat} {events : List Event} {e : Event}
    (he : e ∈ stamp batch place events) :
    (∃ i : Nat, e.metadata.get? Metadata.Key.position = some (toString (i : Int))) ∧
      e.metadata.get? Metadata.Key.batch = some batch.text := by
  obtain ⟨k, hk⟩ := List.getElem?_of_mem he
  refine ⟨⟨place + k, get?_position_stamp hk⟩, ?_⟩
  clear hk k
  induction events generalizing place with
  | nil => simp [stamp] at he
  | cons e₀ rest ih =>
    rcases List.mem_cons.1 he with rfl | he
    · simp
    · exact ih he

/-- A stamped event of a consistent log carries its place in the log. -/
theorem Log.Consistent.get?_position {log : Log} (hlog : log.Consistent) {e : Event}
    (he : e ∈ log.events)
    (hstamp : ∃ i : Nat, e.metadata.get? Metadata.Key.position = some (toString (i : Int))) :
    ∃ i : Nat, log.events[i]? = some e ∧
      e.metadata.get? Metadata.Key.position = some (toString (i : Int)) := by
  obtain ⟨i, hi⟩ := hstamp
  obtain ⟨j, hj⟩ := List.getElem?_of_mem he
  obtain ⟨value, hvalue, hread⟩ := (Event.readAs_eq_ok_iff _ _ _ _).1 (hlog.position hj)
  rw [hi, Option.some.injEq] at hvalue
  subst hvalue
  have hplace : (j : Int) = i := Numeral.eq_of_read?_toString hread
  exact ⟨j, hj, by rw [hi, hplace]⟩

/-- An event that was emitted, numbered and stored is attested. -/
theorem Event.attested_of_storedAs {S : Type} {T : AggregateType S} {r : Root S} {s : Batch.Stamp}
    {log : Log} {x : Emission} {e : Event} {sequence position : Int} (hlog : log.Consistent)
    (hroot : x.root = r.id)
    (hstored : StoredAs s.batch (s.mark sequence position (r.mark T x.event)) e)
    (he : e ∈ log.events)
    (hstamp : (∃ i : Nat, e.metadata.get? Metadata.Key.position = some (toString (i : Int))) ∧
      e.metadata.get? Metadata.Key.batch = some s.batch.text) : e.Attested s log T.name x := by
  have hkept := hstored.kept
  have hof : e.root = .ok x.root := by
    rw [Event.root_eq_ok_iff, hkept _ (by decide) (by decide), s.get?_root_mark, hroot]
  constructor
  case content =>
    show (e.tag, e.payload) = (x.event.tag, x.event.payload)
    rw [hstored.tag, hstored.payload]
    rfl
  case root => exact (Event.root_eq_ok_iff e x.root).1 hof
  case rootType => rw [hkept _ (by decide) (by decide), s.get?_rootType_mark]
  case sequence =>
    have hmem : e ∈ log.history x.root := Log.mem_history.2 ⟨he, hof⟩
    obtain ⟨n, hn⟩ := List.getElem?_of_mem hmem
    -- The log has accepted the number, so it is the place in the history.
    have hnumber : (n : Int) = sequence := s.sequence_mark (hstored.sequence_eq ▸ hlog.sequence hn)
    refine ⟨n, hn, ?_⟩
    rw [hkept _ (by decide) (by decide), s.get?_sequence_mark, hnumber]
  case position => exact hlog.get?_position he hstamp.1
  case batch => exact hstamp.2
  case time => rw [hkept _ (by decide) (by decide), s.get?_time_mark]
  case others =>
    intro key hkey
    obtain ⟨_, _, hposition, hbatch, _, _⟩ := (Metadata.Key.not_mem_reserved_iff key).1 hkey
    rw [hkept key hposition hbatch, s.get?_mark_of_not_reserved _ _ _ _ _ hkey]

/-! ### The batch of a unit of work -/

/-- Events of one root that are numbered and stored, one by one. -/
theorem Batch.Stamp.forall₂_markFrom {α : Type} {s : Stamp} {batch : Uuid} {f : α → Event}
    {sequence position : Int} {xs : List α} {block : List Event}
    (h : List.Forall₂ (Event.StoredAs batch) (s.markFrom sequence position (xs.map f)) block) :
    List.Forall₂ (fun x e => ∃ sequence position,
      Event.StoredAs batch (s.mark sequence position (f x)) e) xs block := by
  induction xs generalizing sequence position block with
  | nil =>
    obtain rfl : block = [] := List.forall₂_nil_left_iff.1 h
    exact .nil
  | cons x rest ih =>
    obtain ⟨e, later, hfirst, hrest, rfl⟩ := List.forall₂_cons_left_iff.1 h
    exact .cons ⟨_, _, hfirst⟩ (ih hrest)

namespace UnitOfWork

variable {κ S : Type} {types : κ → AggregateType S} {first : κ → String → Root S → Prop}
  {trace : List Emission} {u : UnitOfWork κ S}

/-- A stored batch has, of every root, the events that were emitted on it and taken, in order and
attested. -/
theorem Traced.attested (h : u.Traced types first trace) (howned : u.Owned) {log : Log}
    (hlog : log.Consistent) {s : Batch.Stamp} {position : Int} {place : Nat} {block : List Event}
    (hblock : block = Log.stamp s.batch place (Batch.number s position u.takePending.1))
    (hmem : ∀ e ∈ block, e ∈ log.events) (id : String) :
    List.Forall₂ (fun x e => ∃ kind root, u.roots.get? id = some (kind, root) ∧
        e.Attested s log (types kind).name x)
      ((trace.filter (Emission.isOn id)).filter Emission.accepted)
      (block.filter (Event.isOf id)) := by
  have hstored : List.Forall₂ (Event.StoredAs s.batch) (Batch.number s position u.takePending.1)
      block := hblock ▸ Log.forall₂_stamp _ _ _
  cases hget : u.roots.get? id with
  | none =>
    rw [howned.filter_eq_nil hstored hget, h.others id hget]
    exact .nil
  | some entry =>
    obtain ⟨kind, root⟩ := entry
    obtain ⟨r, _, hid, huncommitted, hemits⟩ := h.held id kind root hget
    obtain ⟨position', hfilter⟩ := howned.filter_number s position hget
    have hmine := Event.StoredAs.filter hstored id
    rw [hfilter, hemits.uncommitted.2.2.2, huncommitted, List.nil_append] at hmine
    have hone := Batch.Stamp.forall₂_markFrom hmine
    -- What is attested needs to know of the emission where it was made, and of the event where it is.
    have hon : ∀ x ∈ (trace.filter (Emission.isOn id)).filter Emission.accepted, x.root = r.id := by
      intro x hx
      rw [hid]
      exact (Emission.isOn_iff id x).1 (List.mem_filter.1 (List.mem_filter.1 hx).1).2
    have hin : ∀ e ∈ block.filter (Event.isOf id), e ∈ block := fun e he => (List.mem_filter.1 he).1
    have hboth := ((List.forall₂_and_left _ _).2 ⟨hon, hone⟩).flip
    refine (((List.forall₂_and_left _ _).2 ⟨hin, hboth⟩).imp ?_).flip
    rintro e x ⟨he, hroot, sequence, position, hevent⟩
    exact ⟨kind, root, rfl, Event.attested_of_storedAs hlog hroot hevent (hmem e he)
      (Log.get?_stamp (hblock ▸ he))⟩

end UnitOfWork

/-! ### The clock -/

section

variable {σ δ κ S : Type}

/-- A replay leaves the clock alone. -/
theorem Repository.now_hydrate (repo : Repository σ) (T : AggregateType S) (id : String) (bound : Int)
    (b : Backing σ) : (repo.hydrate T id bound b).2.now = b.now := by
  have hstart : (startingPoint T id bound b).2.now = b.now := by
    unfold startingPoint
    rcases b.cache.lookup T id bound b.now with ⟨_ | _, _⟩ <;> rfl
  rcases repo.hydrate_steps T id bound b with ⟨_, hfailed⟩ | ⟨_, root, n, _, _, hanswer⟩
  · rw [hfailed]
    exact hstart
  · rw [hanswer]
    unfold keep
    split_ifs <;> exact hstart

variable [DecidableEq κ]

/-- A program leaves the clock alone. -/
theorem Program.now_run (types : κ → AggregateType S) (repo : Repository σ) (program : Program κ S)
    (u : UnitOfWork κ S) (b : Backing σ) : (program.run types repo u b).2.2.now = b.now := by
  refine Program.run_induction (I := fun _ b' => b'.now = b.now) types repo ?_
    (fun _ _ _ _ h => h) program rfl
  intro mode kind id u b' h
  rw [UnitOfWork.acquire_backing]
  split_ifs
  · exact h
  · rw [Repository.now_hydrate, h]

namespace Processor

variable (p : Processor σ δ κ S)

/-- An attempt leaves the clock alone. -/
theorem now_attempt (c : Command κ S) (w : Processing σ δ) :
    (p.attempt c w).2.backing.now = w.backing.now := by
  have hrun := c.program.now_run p.types p.repository UnitOfWork.empty w.backing
  rcases p.attempt_steps c w with ⟨_, _, hattempt⟩ | ⟨_, _, hattempt⟩ | ⟨_, _, hattempt⟩
  · rw [hattempt]
    exact hrun
  · rw [hattempt]
    exact hrun
  · rw [hattempt]
    rcases p.commit_steps c.metadata _ (p.batchId w.numbered) _ with
      ⟨_, _, hcommit⟩ | ⟨_, _, ⟨_, _, hcommit⟩ | ⟨_, hcommit⟩⟩ <;>
    · rw [hcommit]
      exact hrun

theorem now_startOf (c : Command κ S) (k : Nat) (w : Processing σ δ) :
    (p.startOf c k w).backing.now = w.backing.now := by
  induction k generalizing w with
  | zero => rfl
  | succ k ih => exact (ih _).trans (p.now_attempt c w)

end Processor

end

/-! ### Attempts -/

/-- A save that commits answers the batch with the positions from the size of the log on. -/
theorem Log.save_eq_committed {log : Log} {batch : Uuid} {events block : List Event}
    (h : (log.save batch events).1 = .ok (.committed block)) :
    block = stamp batch log.size events := by
  cases events with
  | nil =>
    rw [save_nil] at h
    simpa [stamp, eq_comm] using h
  | cons e rest =>
    simp only [save, List.isEmpty_cons, Bool.false_eq_true, if_false] at h
    split at h
    · simp at h
    · split at h
      · simp at h
      · split at h
        · simp at h
        · simp at h
        · split at h
          · simp at h
          · simpa [eq_comm] using h

/-- Every program makes of its roots what its emissions say. -/
theorem Program.traced_run {σ κ S : Type} [DecidableEq κ] {types : κ → AggregateType S}
    {repo : Repository σ} (program : Program κ S) {trace : List Emission} {u : UnitOfWork κ S}
    {b : Backing σ} (h : u.Traced types (fun _ _ _ => True) trace) :
    (program.run types repo u b).2.1.Traced types (fun _ _ _ => True)
      (trace ++ program.emissions types repo u b) := by
  induction program generalizing trace u b with
  | done =>
    rw [emissions, List.append_nil]
    exact h
  | fail err =>
    rw [emissions, List.append_nil]
    exact h
  | acquire mode kind id next ih =>
    rw [emissions, ← List.append_assoc]
    exact ih _ (h.acquire repo mode kind id b fun _ _ _ _ _ => trivial)
  | emit id e next ih =>
    rw [emissions, ← List.append_assoc]
    exact ih _ (h.emit id e)

namespace Processor

variable {δ κ S : Type} [DecidableEq κ] {p : Processor SharedLog δ κ S}

omit [DecidableEq κ] in
/-- What is committed is the numbered batch, stamped by the log. -/
theorem commit_eq_committed (hstore : p.repository.store = SharedLog.store) {metadata : Metadata}
    {pending : List Pending} {batch : Uuid} {b : Backing SharedLog} {committed : Option Uuid}
    {block : List Event}
    (h : (p.commit metadata pending batch b).1 = .ok (.committed committed block)) :
    committed = some batch ∧ ∃ position place,
      block = Log.stamp batch place (Batch.number ⟨batch, b.now, metadata⟩ position pending) := by
  rcases p.commit_shared hstore metadata pending batch b with
    ⟨_, _, hcommit⟩ | ⟨_, _, hcommit⟩ | ⟨_, _, hcommit⟩ | ⟨_, hcommit⟩
  · simp [hcommit] at h
  · simp [hcommit] at h
  · simp [hcommit] at h
  · simp only [hcommit, Attempt.ofSave] at h
    split at h
    · simp at h
    · rename_i hsaved
      obtain ⟨rfl, rfl⟩ : some batch = committed ∧ _ = block := by simpa using h
      exact ⟨rfl, _, _, Log.save_eq_committed hsaved⟩
    · simp at h

/-- What an attempt commits is what it has emitted, numbered with the time of the clock and stamped by
the log. There is an id unless that is nothing. -/
theorem exists_stamp (hstore : p.repository.store = SharedLog.store) {c : Command κ S}
    {w : Processing SharedLog δ} {batch : Option Uuid} {block : List Event}
    (h : (p.attempt c w).1 = .ok (.committed batch block)) : ∃ batch' position place,
      (block ≠ [] → batch = some batch') ∧ block = Log.stamp batch' place
        (Batch.number ⟨batch', w.backing.now, c.metadata⟩ position (p.work c w).takePending.1) := by
  rcases p.attempt_steps c w with ⟨_, _, hattempt⟩ | ⟨_, hnone, hattempt⟩ | ⟨_, _, hattempt⟩
  · rw [hattempt] at h
    simp at h
  · rw [hattempt] at h
    obtain ⟨_, rfl⟩ : none = batch ∧ [] = block := by simpa using h
    refine ⟨.nil, 0, 0, by simp, ?_⟩
    unfold work
    rw [hnone]
    rfl
  · rw [hattempt] at h
    obtain ⟨hbatch, position, place, hblock⟩ := commit_eq_committed hstore h
    rw [c.program.now_run] at hblock
    exact ⟨_, position, place, fun _ => hbatch, hblock⟩

/-- What an attempt commits stands in the log that it leaves behind. -/
theorem mem_of_attempt (hstore : p.repository.store = SharedLog.store) {c : Command κ S}
    {w : Processing SharedLog δ} (hlog : w.backing.store.log.Consistent) {batch : Option Uuid}
    {block : List Event} (h : (p.attempt c w).1 = .ok (.committed batch block)) :
    (p.attempt c w).2.backing.store.log.Consistent ∧
      ∀ e ∈ block, e ∈ (p.attempt c w).2.backing.store.log.events := by
  obtain ⟨_, ⟨hnot, _⟩ | ⟨hnone, _, hpassed⟩ | ⟨batch', block', hsome, hcommits⟩⟩ :=
    attempt_cases hstore c hlog
  · exact absurd h (hnot _ _)
  · obtain ⟨_, rfl⟩ : batch = none ∧ block = [] := by simpa using h.symm.trans hnone
    exact ⟨(hpassed.grown hlog).log, by simp⟩
  · obtain ⟨_, rfl⟩ : batch = some batch' ∧ block = block' := by simpa using h.symm.trans hsome
    obtain ⟨_, _, _, hevents⟩ := hcommits.gains
    refine ⟨hcommits.log, fun e he => ?_⟩
    rw [hevents]
    exact List.mem_append_right _ he

/-- What a command that succeeds has committed, in its last attempt, is attested. -/
structure Attests (p : Processor SharedLog δ κ S) (c : Command κ S) (w : Processing SharedLog δ)
    (result : CommandResult) : Prop where
  /-- The last attempt is counted. -/
  attempts : result.attempts = Word32.wrap (p.last c w + 1)
  /-- Every event is one of a root. -/
  rooted : ∀ e ∈ result.events, ∃ id, e.root = .ok id
  /-- The events of a root are the ones that the attempt has emitted on it and that were not refused,
  in order. Each of them is attested for that root, the id of the batch, the time of the clock and
  the metadata of the command. -/
  events : ∀ id, List.Forall₂
    (fun x e => ∃ batch kind root, result.batch = some batch ∧
      (p.work c (p.lastStart c w)).roots.get? id = some (kind, root) ∧
      e.Attested ⟨batch, w.backing.now, c.metadata⟩
        (p.lastEnd c w).backing.store.log (p.types kind).name x)
    (((p.emissions c (p.lastStart c w)).filter (Emission.isOn id)).filter
      Emission.accepted)
    (result.events.filter (Event.isOf id))

/-- Whatever a command and its events set, what is committed is attested. -/
theorem attests (hstore : p.repository.store = SharedLog.store) (c : Command κ S)
    {w : Processing SharedLog δ} (hlog : w.backing.store.log.Consistent) {result : CommandResult}
    (hresult : (p.process c w).1 = .ok result) : p.Attests c w result := by
  rw [process_eq] at hresult
  obtain ⟨houtcome, hattempts, _, _⟩ := conclude_eq_ok hresult
  have hpassed : w.backing.store.Passed (p.lastStart c w).backing.store :=
    (startOf_passed hstore c hlog (p.endsAt_last c w).before).2
  have hnow : (p.lastStart c w).backing.now = w.backing.now := p.now_startOf c _ w
  generalize hstart : p.lastStart c w = start at *
  have howned : (p.work c start).Owned :=
    UnitOfWork.owned_empty.run p.types p.repository c.program start.backing
  have htraced : (p.work c start).Traced p.types (fun _ _ _ => True) (p.emissions c start) :=
    c.program.traced_run (UnitOfWork.Traced.empty p.types _)
  obtain ⟨batch, position, place, hbatch, hblock⟩ := exists_stamp hstore houtcome
  obtain ⟨hlog', hmem⟩ := mem_of_attempt hstore (hpassed.grown hlog).log houtcome
  rw [hnow] at hblock
  have hstored := hblock ▸ Log.forall₂_stamp batch place
    (Batch.number ⟨batch, w.backing.now, c.metadata⟩ position (p.work c start).takePending.1)
  constructor
  case attempts => exact hattempts
  case rooted =>
    intro e he
    obtain ⟨saved, hsaved, hkept⟩ := Event.StoredAs.exists_saved hstored he
    rw [UnitOfWork.takePending_fst] at hsaved
    obtain ⟨entry, _, hroot⟩ := howned.byId.exists_root hsaved
    exact ⟨entry.1, hkept.root_eq.trans hroot⟩
  case events =>
    intro id
    rw [hstart, lastEnd, hstart]
    have hattested := htraced.attested (s := ⟨batch, w.backing.now, c.metadata⟩) howned hlog' hblock
      hmem id
    have hin : ∀ e ∈ result.events.filter (Event.isOf id), result.batch = some batch :=
      fun e he => hbatch (List.ne_nil_of_mem (List.mem_filter.1 he).1)
    refine (((List.forall₂_and_left _ _).2 ⟨hin, hattested.flip⟩).imp ?_).flip
    rintro e x ⟨hsome, kind, root, hget, he⟩
    exact ⟨batch, kind, root, hsome, hget, he⟩

end Processor

end Chronicle
