import Chronicle.Proofs.Command.Acquiring
import Chronicle.Proofs.Command.Attempts

namespace Chronicle

/-!
# Commands are numbered as the check wants it

* `UnitOfWork.pendingById` — what has been emitted, with the ids of the roots. In a unit of work, every
  root is there once and has events of its own only.
* `UnitOfWork.NumberedAs` — a batch is accepted by the integrity check, and what is read from its events
  is what they have been numbered with.
* `Processor.overflows` — an attempt needs a number that is no word.
* `Processor.batch_numbered` — every unit of work is numbered so, whatever its roots and events are and
  whatever the store says, unless a number is no word. So no command fails by the check.
-/

/-! ### Numbers that are words -/

namespace Batch

instance (position : Int) (pending : List Pending) : Decidable (InRange position pending) :=
  decidable_of_iff
    ((∀ p ∈ pending, ∀ k < p.events.length, Word64.Fits (p.sequence + 1 + k)) ∧
      ∀ k < (pending.flatMap Pending.events).length, Word64.Fits (position + k))
    ⟨fun h => ⟨h.1, h.2⟩, fun h => ⟨h.sequence, h.position⟩⟩

end Batch

/-! ### What is taken out of a unit of work -/

namespace UnitOfWork

variable {κ S : Type} {u : UnitOfWork κ S}

/-- What has been emitted on the roots with events, by the ids of the roots. -/
def pendingById (u : UnitOfWork κ S) : List (String × Pending) :=
  (u.roots.entries.map fun entry => (entry.1, pendingOf entry.2.2)).filter fun entry =>
    !entry.2.events.isEmpty

theorem takePending_fst (u : UnitOfWork κ S) : u.takePending.1 = u.pendingById.map Prod.snd := by
  simp [takePending, pendingById, Table.values, List.filter_map, Function.comp_def]

theorem mem_pendingById {id : String} {p : Pending} : (id, p) ∈ u.pendingById ↔
    ∃ kind root, u.roots.get? id = some (kind, root) ∧ p = pendingOf root ∧
      root.uncommitted ≠ [] := by
  unfold pendingById
  rw [List.mem_filter, List.mem_map]
  constructor
  · rintro ⟨⟨⟨id', kind, root⟩, hentry, heq⟩, hsome⟩
    cases heq
    exact ⟨kind, root, (Table.get?_eq_some_iff _ _ _).2 hentry, rfl, by simpa [pendingOf] using hsome⟩
  · rintro ⟨kind, root, hget, rfl, hne⟩
    exact ⟨⟨(id, kind, root), (Table.get?_eq_some_iff _ _ _).1 hget, rfl⟩,
      by simpa [pendingOf] using hne⟩

/-- What is taken out is there root by root, every root once and with its own events. -/
theorem Owned.byId (h : u.Owned) : Batch.ById u.pendingById where
  nodup := by
    have hsub : (u.pendingById.map Prod.fst).Sublist
        ((u.roots.entries.map fun entry => (entry.1, pendingOf entry.2.2)).map Prod.fst) :=
      List.filter_sublist.map _
    rw [List.map_map] at hsub
    exact u.roots.nodup_keys.sublist hsub
  owned := by
    rintro ⟨id, p⟩ hentry e he
    obtain ⟨kind, root, hget, rfl, _⟩ := mem_pendingById.1 hentry
    obtain ⟨hid, howned⟩ := h hget
    rw [← hid]
    exact howned e he

/-- The events of a root in the batch are its uncommitted events, numbered from its own number on. -/
theorem Owned.filter_number (h : u.Owned) (s : Batch.Stamp) (position : Int) {id : String} {kind : κ}
    {root : Root S} (hget : u.roots.get? id = some (kind, root)) :
    ∃ position', (Batch.number s position u.takePending.1).filter (Event.isOf id)
      = s.markFrom (root.sequence + 1) position' root.uncommitted := by
  have hby := h.byId
  rw [takePending_fst]
  by_cases hnone : root.uncommitted = []
  · -- A root without uncommitted events has none in the batch.
    have hnot : id ∉ u.pendingById.map Prod.fst := by
      intro hid
      obtain ⟨⟨_, p⟩, hentry, rfl⟩ := List.mem_map.1 hid
      obtain ⟨_, root', hget', _, hne⟩ := mem_pendingById.1 hentry
      rw [hget] at hget'
      cases hget'
      exact hne hnone
    exact ⟨position, by rw [Batch.filter_number_of_notMem hby hnot, hnone]; rfl⟩
  · exact Batch.filter_number s position hby (mem_pendingById.2 ⟨kind, root, hget, rfl, hnone⟩)

/-! ### The batch -/

/-- A batch is accepted by the integrity check, and what is read from its events is what they were to
be numbered with. -/
structure NumberedAs (u : UnitOfWork κ S) (s : Batch.Stamp) (position : Int) (batch : List Event) :
    Prop where
  /-- The check accepts the batch. -/
  accepted : Batch.checkIntegrity s.batch batch = .ok ()
  /-- The positions are the ones from the told one on, in batch order. -/
  positions : batch.map Event.position
    = (List.range batch.length).map fun k : Nat => .ok (position + k)
  /-- The sequence numbers of every root at hand are the ones after its own, as many as it has
  uncommitted events. -/
  sequences : ∀ id kind root, u.roots.get? id = some (kind, root) →
    (batch.filter (Event.isOf id)).map Event.sequence
      = (List.range root.uncommitted.length).map fun k : Nat => .ok (root.sequence + 1 + k)
  /-- Every event carries the id of the batch and the id of a root at hand. -/
  members : ∀ e ∈ batch, e.batchId = .ok s.batch ∧ ∃ id ∈ u.roots.keys, e.root = .ok id

/-- Items that are read as their places say are read as a range. -/
theorem map_eq_range {α β : Type} {f : α → β} {g : Nat → β} {l : List α}
    (h : ∀ (k : Nat) (a : α), l[k]? = some a → f a = g k) :
    l.map f = (List.range l.length).map g := by
  refine List.ext_getElem (by simp) fun k hk _ => ?_
  rw [List.length_map] at hk
  rw [List.getElem_map, List.getElem_map, List.getElem_range]
  exact h k _ (List.getElem?_eq_getElem hk)

/-- What is emitted on roots of one's own is numbered as the check wants it, unless a number is no
word. -/
theorem Owned.numberedAs (h : u.Owned) (s : Batch.Stamp) {position : Int}
    (hrange : Batch.InRange position u.takePending.1) :
    u.NumberedAs s position (Batch.number s position u.takePending.1) := by
  have hby := h.byId
  rw [takePending_fst] at hrange ⊢
  refine ⟨Batch.checkIntegrity_number s.batch hby hrange, ?positions, ?sequences, ?members⟩
  case positions => exact map_eq_range fun k e hk => hrange.position_getElem? hk
  case sequences =>
    intro id kind root hget
    obtain ⟨_, hfilter⟩ := h.filter_number s position hget
    rw [takePending_fst] at hfilter
    have hlength := congrArg List.length hfilter
    rw [Batch.Stamp.length_markFrom] at hlength
    rw [← hlength]
    refine map_eq_range fun k e hk => ?_
    -- There is an event of the root, so the root is one of those that are numbered.
    have hsome : root.uncommitted ≠ [] := by
      intro hnone
      rw [hfilter, hnone] at hk
      cases hk
    exact hrange.sequence_getElem? hby (mem_pendingById.2 ⟨kind, root, hget, rfl, hsome⟩) hk
  case members =>
    intro e he
    obtain ⟨⟨id, p⟩, hentry, hroot⟩ := hby.exists_root he
    obtain ⟨_, _, _, _, _, _, rfl⟩ := Batch.mem_number he
    obtain ⟨kind, root, hget, _⟩ := mem_pendingById.1 hentry
    refine ⟨s.batchId_mark _ _ _, id, ?_, hroot⟩
    exact List.mem_map_of_mem ((Table.get?_eq_some_iff _ _ _).1 hget)

end UnitOfWork

/-! ### Attempts -/

namespace Processor

variable {σ δ κ S : Type} [DecidableEq κ] (p : Processor σ δ κ S) (c : Command κ S)

/-- The attempt that starts in a state needs a number that is no word. -/
def overflows (w : Processing σ δ) : Bool :=
  let ran := c.program.run p.types p.repository UnitOfWork.empty w.backing
  match ran.1, (p.repository.store.nextPosition ran.2.2.store).1 with
  | none, .ok position => !decide (Batch.InRange position ran.2.1.takePending.1)
  | _, _ => false

variable {p c}

/-- An attempt whose numbers are words does not fail by the check. -/
theorem attempt_ne_integrity {w : Processing σ δ} (h : p.overflows c w = false) (cause : BatchError) :
    (p.attempt c w).1 ≠ .error (.integrity cause) := by
  have howned := UnitOfWork.owned_empty.run p.types p.repository c.program w.backing
  rcases p.attempt_steps c w with ⟨err, _, hattempt⟩ | ⟨_, _, hattempt⟩ | ⟨hran, _, hattempt⟩
  · rw [hattempt]
    rcases err with _ | (_ | _) <;> exact nofun
  · rw [hattempt]
    exact nofun
  · rw [hattempt]
    simp only
    rcases p.commit_steps c.metadata _ (p.batchId w.numbered) _ with
      ⟨_, _, hcommit⟩ | ⟨position, hnext, ⟨err, hrefused, _⟩ | ⟨_, hcommit⟩⟩
    · rw [hcommit]
      exact nofun
    · -- The batch passes the check, so it has not been refused.
      simp only [overflows, hran, hnext, Bool.not_eq_false', decide_eq_true_eq] at h
      have haccepted := fun time =>
        (howned.numberedAs ⟨p.batchId w.numbered, time, c.metadata⟩ h).accepted
      cases hrefused.symm.trans (haccepted _)
    · rw [hcommit]
      unfold Attempt.ofSave
      split <;> exact nofun

end Processor

/-- **No batch of a command breaks the rules.** Whatever a program loads, creates and emits with any
store, and whatever the store says, the batch, the time and the metadata of the command are: the batch that
`Batch.number` makes is accepted by `Batch.checkIntegrity`, and reading it gives back the positions from
the told one on, for each root the sequence numbers after its own, and the id of the batch
(`UnitOfWork.NumberedAs`). So `Processor.process` never fails by the check. What is left aside is that a
number is needed that is no word (`Batch.InRange`, `Processor.overflows`). -/
theorem Processor.batch_numbered {σ δ κ S : Type} [DecidableEq κ] :
    (∀ (types : κ → AggregateType S) (repo : Repository σ) (program : Program κ S) (b : Backing σ)
        (s : Batch.Stamp) (position : Int),
      let u := (program.run types repo UnitOfWork.empty b).2.1
      Batch.InRange position u.takePending.1 →
        u.NumberedAs s position (Batch.number s position u.takePending.1)) ∧
    ∀ (p : Processor σ δ κ S) (c : Command κ S) (w : Processing σ δ),
      (∀ k ≤ p.last c w, p.overflows c (p.startOf c k w) = false) →
        ∀ err cause, (p.process c w).1 = .error err → err.cause ≠ .integrity cause := by
  constructor
  · intro types repo program b s position u hrange
    exact (UnitOfWork.owned_empty.run types repo program b).numberedAs s hrange
  · intro p c w hwords err cause herr
    rw [process_eq] at herr
    obtain ⟨_, _, _, hfailed | ⟨conflict, _, hconflict⟩⟩ := conclude_eq_error herr
    · intro hcause
      exact attempt_ne_integrity (hwords _ (Nat.le_refl _)) cause (hcause ▸ hfailed)
    · rw [hconflict]
      exact nofun

namespace Sample

/-- A transfer between two accounts, whose events and metadata claim other roots, numbers and
batches. -/
def forged : Command Kind State :=
  let claim (e : Event) := (e.withMetadata Metadata.Key.root "c").withMetadata
    Metadata.Key.sequence "17"
  deedsCommand "transfer"
    [⟨.get, .account, "a", [claim (Event.new "Withdrawn" (withdrawn.encode 3))]⟩,
      ⟨.load, .account, "b", [claim (Event.new "Deposited" (deposited.encode 2)),
        claim (Event.new "Deposited" (deposited.encode 1))]⟩]
    none (Dict.empty.insert Metadata.Key.batch "none")

end Sample

set_option maxRecDepth 10000 in
/-- The claims of a forged transfer do not get through. -/
theorem Processor.batch_numbered_forged :
    let u := (Sample.forged.program.run Sample.aggregateType ⟨SharedLog.store, 1⟩ UnitOfWork.empty
      Sample.contested.backing).2.1
    let s : Batch.Stamp := ⟨.nil, ⟨0, 0⟩, Sample.forged.metadata⟩
    (u.takePending.1.flatMap Pending.events).length = 3 ∧
    u.NumberedAs s 4 (Batch.number s 4 u.takePending.1) ∧
    ∀ err cause, (Sample.teller.process Sample.forged Sample.contested).1 = .error err →
      err.cause ≠ .integrity cause :=
  have hnumbered := @Processor.batch_numbered SharedLog Unit Sample.Kind Sample.State _
  ⟨by decide +kernel, hnumbered.1 _ _ _ _ _ _ (by decide +kernel),
    hnumbered.2 _ _ _ (by decide +kernel)⟩

end Chronicle
