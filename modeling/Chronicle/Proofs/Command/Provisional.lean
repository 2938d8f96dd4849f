import Chronicle.Proofs.Command.Noninterference
import Chronicle.Proofs.Log.Allocation

namespace Chronicle

/-!
# The positions of a numbered batch are provisional

A processor asks the store for the next position and numbers its batch from there. Another writer may be
faster, so the store gives out the positions anew when it saves.

* `Batch.sameButPlace_number` — batches that are numbered from two positions differ in nothing else.
* `EventStore.telling` — a store that tells other positions.
* `Processor.commit_telling`, `Processor.attempt_telling`, `Processor.processFrom_telling` — it is all
  the same to a commit, to an attempt and to a command.
* `Processor.provisional_positions` — positions in the batches that are saved are of no account to the
  stores of this library, and positions that are told are of no account to commands.
-/

/-! ### Batches -/

namespace Batch

variable (s : Stamp)

/-- Apart from the position, the mark of an event does not depend on it. -/
theorem Stamp.sameButPlace_mark (sequence position position' : Int) (e : Event) :
    (s.mark sequence position e).SameButPlace (s.mark sequence position' e) where
  tag := rfl
  payload := rfl
  kept := by
    intro key hposition _
    rw [get?_mark, get?_mark, numbers, numbers, if_neg hposition, if_neg hposition]

theorem Stamp.sameButPlace_markFrom (sequence position position' : Int) (events : List Event) :
    List.Forall₂ Event.SameButPlace (s.markFrom sequence position events)
      (s.markFrom sequence position' events) := by
  induction events generalizing sequence position position' with
  | nil => exact .nil
  | cons e rest ih => exact .cons (s.sameButPlace_mark _ _ _ e) (ih _ _ _)

/-- Batches that are numbered from two positions differ in nothing else. -/
theorem sameButPlace_number (position position' : Int) (pending : List Pending) :
    List.Forall₂ Event.SameButPlace (number s position pending) (number s position' pending) := by
  induction pending generalizing position position' with
  | nil => exact .nil
  | cons p rest ih => exact List.rel_append (s.sameButPlace_markFrom _ _ _ p.events) (ih _ _)

/-- Wherever a batch is numbered from, its positions follow one another, as words do. -/
theorem inLine_number (position : Int) (pending : List Pending) :
    InLine position (number s position pending) := by
  intro k e p he hp
  exact Except.ok.inj (hp.symm.trans (position_getElem?_number he))

theorem exists_position_of_mem_number {position : Int} {pending : List Pending} {e : Event}
    (he : e ∈ number s position pending) : ∃ p, e.position = .ok p := by
  obtain ⟨k, hk⟩ := List.getElem?_of_mem he
  exact ⟨_, position_getElem?_number hk⟩

/-- It does not matter to the check from which position a batch is numbered. -/
theorem checkIntegrity_number_congr (batch : Uuid) (position position' : Int)
    (pending : List Pending) : checkIntegrity batch (number s position' pending)
      = checkIntegrity batch (number s position pending) :=
  checkIntegrity_congr
    ((sameButPlace_number s position position' pending).imp fun _ _ hsame => hsame.sameNumber)
    (inLine_number s position pending) (inLine_number s position' pending)
    (fun _ he => exists_position_of_mem_number s he) (fun _ he => exists_position_of_mem_number s he)

end Batch

/-! ### Stores that tell other positions -/

section

variable {σ κ S : Type}

/-- The store, telling other positions: `tell` may go by its state and by what it would tell. -/
def EventStore.telling (store : EventStore σ) (tell : σ → Int → Int) : EventStore σ :=
  { store with nextPosition := fun s =>
      match store.nextPosition s with
      | (.ok position, s') => (.ok (tell s position), s')
      | (.error err, s') => (.error err, s') }

/-- The repository over the store that tells other positions. -/
def Repository.telling (repo : Repository σ) (tell : σ → Int → Int) : Repository σ :=
  { repo with store := repo.store.telling tell }

/-- Programs do not ask for positions. -/
theorem Program.run_telling [DecidableEq κ] (types : κ → AggregateType S) (repo : Repository σ)
    (tell : σ → Int → Int) (program : Program κ S) (u : UnitOfWork κ S) (b : Backing σ) :
    program.run types (repo.telling tell) u b = program.run types repo u b := by
  induction program generalizing u b with
  | done => rfl
  | fail err => rfl
  | acquire mode kind id next ih =>
    have hacquire : u.acquire types (repo.telling tell) mode kind id b
        = u.acquire types repo mode kind id b := rfl
    rw [Program.run, Program.run, hacquire]
    exact ih _ _ _
  | emit id e next ih =>
    rw [Program.run, Program.run]
    exact ih _ _ _

end

namespace Processor

variable {σ δ κ S : Type}

/-- The processor over the store that tells other positions. -/
def telling (p : Processor σ δ κ S) (tell : σ → Int → Int) : Processor σ δ κ S :=
  { p with repository := p.repository.telling tell }

/-- It does not matter to a commit which position it is told. -/
theorem commit_telling {p : Processor σ δ κ S} (hstore : p.repository.store.Allocates)
    (tell : σ → Int → Int) (pending : List Pending) (b : Backing σ) (metadata : Metadata)
    (batch : Uuid) :
    (p.telling tell).commit metadata pending batch b = p.commit metadata pending batch b := by
  have hnext : (p.telling tell).repository.store.nextPosition b.store
      = match p.repository.store.nextPosition b.store with
        | (.ok position, s) => (.ok (tell b.store position), s)
        | (.error err, s) => (.error err, s) := rfl
  unfold commit
  rw [hnext]
  obtain ⟨err | position, s⟩ := p.repository.store.nextPosition b.store
  · rfl
  · -- The batches pass the check alike, and the store saves them alike.
    have hcheck := Batch.checkIntegrity_number_congr ⟨batch, b.now, metadata⟩ batch position
      (tell b.store position) pending
    have hsave : (p.telling tell).repository.store.save batch
          (Batch.number ⟨batch, b.now, metadata⟩ (tell b.store position) pending) s
        = p.repository.store.save batch
          (Batch.number ⟨batch, b.now, metadata⟩ position pending) s :=
      hstore batch _ _ s (Batch.sameButPlace_number _ _ _ pending)
    simp only [hcheck, hsave]

variable [DecidableEq κ] {p : Processor σ δ κ S}

/-- It does not matter to an attempt which position it is told. -/
theorem attempt_telling (hstore : p.repository.store.Allocates) (tell : σ → Int → Int)
    (c : Command κ S) (w : Processing σ δ) : (p.telling tell).attempt c w = p.attempt c w := by
  have hrun : c.program.run (p.telling tell).types (p.telling tell).repository UnitOfWork.empty
      w.backing = c.program.run p.types p.repository UnitOfWork.empty w.backing :=
    c.program.run_telling p.types p.repository tell _ _
  unfold attempt
  rw [hrun]
  obtain ⟨_ | err, u, b⟩ := c.program.run p.types p.repository UnitOfWork.empty w.backing
  · simp only [commit_telling hstore]
    rfl
  · rfl

/-- It does not matter to a command which positions its attempts are told. -/
theorem processFrom_telling (hstore : p.repository.store.Allocates) (tell : σ → Int → Int)
    (c : Command κ S) (bound attempts : Nat) (w : Processing σ δ) :
    (p.telling tell).processFrom c bound attempts w = p.processFrom c bound attempts w := by
  have hretries : (p.telling tell).maxRetries = p.maxRetries := rfl
  induction bound generalizing attempts w with
  | zero =>
    unfold processFrom
    rw [attempt_telling hstore]
    rcases p.attempt c w with ⟨_ | _ | _, w'⟩
    · rfl
    · rfl
    · simp only [ite_self]
  | succ bound ih =>
    unfold processFrom
    rw [attempt_telling hstore]
    rcases p.attempt c w with ⟨_ | _ | _, w'⟩
    · rfl
    · rfl
    · simp only [hretries]
      split
      · rfl
      · exact ih (Word32.next attempts) w'

/-- It does not matter to commands which positions they are told. -/
theorem processAll_telling (hstore : p.repository.store.Allocates) (tell : σ → Int → Int)
    (commands : List (Command κ S)) (w : Processing σ δ) :
    (p.telling tell).processAll commands w = p.processAll commands w := by
  induction commands generalizing w with
  | nil => rfl
  | cons c rest ih =>
    have hfirst : (p.telling tell).process c w = p.process c w :=
      processFrom_telling hstore tell c p.mostRetries (Word32.next 0) w
    rw [processAll, processAll, hfirst]
    simp only [ih]

end Processor

/-- **Positions are given out by the store alone.** First, a log in any state that saves have left it in
does the same with two batches that are `Event.SameButPlace`, event by event, and it never finds fault
with the positions. Second, the stores of this library take no notice of positions in any state
(`EventStore.Allocates`). Third, with every store that takes no notice of them: if the store tells other
positions whenever it is asked for the next one (`Processor.telling`), whichever these are, any commands
are answered the same, by the same number of attempts, and leave the same behind. -/
theorem Processor.provisional_positions :
    (∀ (calls : List Save) (batch : Uuid) (events events' : List Event),
      List.Forall₂ Event.SameButPlace events events' →
        let log := (Log.saveAll calls Log.empty).2
        Log.store.save batch events' log = Log.store.save batch events log ∧
          ∀ batch' expected actual positions, (Log.store.save batch events log).1
            ≠ .error (.integrity (.nonSequentialPosition batch' expected actual positions))) ∧
    (Log.store.Allocates ∧ SharedLog.store.Allocates ∧ ScriptedStore.store.Allocates) ∧
    ∀ (σ δ κ S : Type) [DecidableEq κ] (p : Processor σ δ κ S) (tell : σ → Int → Int)
        (commands : List (Command κ S)) (w : Processing σ δ), p.repository.store.Allocates →
      (p.telling tell).processAll commands w = p.processAll commands w := by
  refine ⟨?_, ⟨Log.allocates_store, SharedLog.allocates_store, ScriptedStore.allocates_store⟩, ?_⟩
  · intro calls batch events events' h log
    exact ⟨Log.allocates_store batch events events' log h, log.save_ne_position batch events⟩
  · intro σ δ κ S _ p tell commands w hstore
    exact processAll_telling hstore tell commands w

namespace Sample

/-- Positions that have nothing to do with the log: they are so large that a batch of several events goes
on from the least word. -/
def madeUp (s : SharedLog) (_ : Int) : Int := Word64.greatest - s.ahead.length

end Sample

set_option maxRecDepth 10000 in
/-- A deposit that meets another deposit, and a new counter, are stored in the log by the number of
attempts they need and behind the events that stand there, whatever positions they are told. -/
theorem Processor.provisional_positions_made_up :
    let commands := [Sample.clerkDeposit.command, Sample.increment.command]
    let done := Sample.scribe.processAll commands Sample.disputed
    (Sample.scribe.telling Sample.madeUp).processAll commands Sample.disputed = done ∧
      (Log.store.save .nil [(Event.new "Deposited" (Sample.deposited.encode 7)).withMetadata
          Metadata.Key.position "seven"] done.2.backing.store.log
        = Log.store.save .nil [Event.new "Deposited" (Sample.deposited.encode 7)]
          done.2.backing.store.log) ∧
      done.1.map (fun answer => answer.toOption.map fun r => (r.attempts, r.position))
        = [some (2, some 3), some (1, some 5)] := by
  intro commands done
  have hpositions := Processor.provisional_positions
  refine ⟨?_, ?_, by decide +kernel⟩
  · exact hpositions.2.2 _ _ _ _ Sample.scribe Sample.madeUp commands Sample.disputed
      SharedLog.allocates_store
  · refine hpositions.2.1.1 .nil _ _ _ (.cons ⟨rfl, rfl, fun key hkey _ => ?_⟩ .nil)
    rw [Event.metadata_withMetadata, Dict.get?_insert, if_neg hkey]

end Chronicle
