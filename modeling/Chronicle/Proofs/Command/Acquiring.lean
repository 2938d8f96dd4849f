import Chronicle.Proofs.Command.Loads
import Chronicle.Proofs.Replay.Numbers

namespace Chronicle

/-!
# What an acquisition does, with any store

* `Repository.hydrate_created` — what a repository finds has nothing to do with creations.
* `UnitOfWork.created?` — the root that an acquisition creates, if it creates one.
* `UnitOfWork.acquire_cases` — an acquisition keeps the roots at hand, or it adds one root that was
  not at hand, which the repository has found or which was created.
* `UnitOfWork.get?_emit` — an emission changes one of the roots at hand.
* `Program.run_induction` — what every acquisition and every emission keeps, a program keeps.
* `UnitOfWork.Owned` — the roots at hand are under their own ids, and so are their events.
-/

/-! ### Acquisitions -/

section

variable {σ S : Type}

/-- A replay has nothing to do with creations. -/
theorem Root.replayFrom_created (T : AggregateType S) (creation : Root S → Script S) (bound : Int)
    (n : Nat) (r : Root S) (events : EventStream) :
    r.replayFrom { T with created := creation } bound n events = r.replayFrom T bound n events := by
  induction events generalizing n r with
  | nil => rfl
  | cons item rest ih =>
    cases item with
    | error err => rfl
    | ok e =>
      simp only [replayFrom, ih]
      rfl

theorem Repository.hydrate_created (repo : Repository σ) (T : AggregateType S)
    (creation : Root S → Script S) (id : String) (bound : Int) (b : Backing σ) :
    repo.hydrate { T with created := creation } id bound b = repo.hydrate T id bound b := by
  have hstart : startingPoint { T with created := creation } id bound b
      = startingPoint T id bound b := rfl
  unfold hydrate
  simp only [Root.replayFrom_created, hstart]
  rfl

end

/-- A created root is what the script of its type has made of the root without history. -/
theorem Repository.create_eq {S : Type} {T : AggregateType S} {id : String} {root : Root S}
    (h : create T id = .ok root) :
    (T.created (Root.new T id)).run T (Root.new T id) = (root, none) := by
  unfold create at h
  simp only at h
  split at h
  · rename_i hrun
    cases h
    exact hrun
  · cases h

namespace UnitOfWork

variable {σ κ S : Type} [DecidableEq κ] {types : κ → AggregateType S} {repo : Repository σ}

/-- The root that an acquisition creates: it is to be loaded, it is not at hand, it has no history,
and its script does not give up. -/
def created? (types : κ → AggregateType S) (repo : Repository σ) (mode : Acquisition) (kind : κ)
    (id : String) (u : UnitOfWork κ S) (b : Backing σ) : Option (Root S) :=
  match u.roots.get? id, mode, (repo.hydrate (types kind) id Repository.latest b).1 with
  | none, .load, .ok none => (Repository.create (types kind) id).toOption
  | _, _, _ => none

/-- The state after an acquisition of a root that is not at hand is the one after a replay. -/
theorem acquire_backing (mode : Acquisition) (kind : κ) (id : String) (u : UnitOfWork κ S)
    (b : Backing σ) : (u.acquire types repo mode kind id b).2.2
      = if (u.roots.get? id).isSome then b
        else (repo.hydrate (types kind) id Repository.latest b).2 := by
  have hbound : mode.request.bound = Repository.latest := by cases mode <;> rfl
  unfold acquire
  cases hget : u.roots.get? id with
  | some entry =>
    obtain ⟨held, root⟩ := entry
    simp only
    split <;> rfl
  | none =>
    simp only [fetch_eq_load, Repository.load_eq, hbound]
    generalize repo.hydrate (types kind) id Repository.latest b = found
    obtain ⟨_ | _ | root, b'⟩ := found
    · rfl
    · simp only
      rcases mode.request.absent (types kind) id with _ | _ | _ <;> rfl
    · rfl

/-- An acquisition leaves the roots at hand as they are, or it adds one that was not at hand: the
repository has found it, or it has no history and was created. -/
theorem acquire_cases (types : κ → AggregateType S) (repo : Repository σ) (mode : Acquisition)
    (kind : κ) (id : String) (u : UnitOfWork κ S) (b : Backing σ) :
    ((u.acquire types repo mode kind id b).2.1 = u ∧ u.created? types repo mode kind id b = none ∧
      (u.roots.get? id = none → ∀ root, (u.acquire types repo mode kind id b).1 ≠ .ok (some root))) ∨
    ∃ root, u.roots.get? id = none ∧
      (u.acquire types repo mode kind id b).1 = .ok (some root) ∧
      (u.acquire types repo mode kind id b).2.1 = ⟨u.roots.insert id (kind, root)⟩ ∧
      ((u.created? types repo mode kind id b = none ∧
          (repo.hydrate (types kind) id Repository.latest b).1 = .ok (some root)) ∨
        (u.created? types repo mode kind id b = some root ∧ mode = .load ∧
          (repo.hydrate (types kind) id Repository.latest b).1 = .ok none ∧
          Repository.create (types kind) id = .ok root)) := by
  have hbound : mode.request.bound = Repository.latest := by cases mode <;> rfl
  unfold acquire created?
  cases hget : u.roots.get? id with
  | some entry =>
    obtain ⟨held, root⟩ := entry
    dsimp only
    split <;> exact .inl ⟨rfl, rfl, fun h => by cases h⟩
  | none =>
    simp only [fetch_eq_load, Repository.load_eq, hbound]
    generalize repo.hydrate (types kind) id Repository.latest b = found
    obtain ⟨err | _ | root, b'⟩ := found
    · exact .inl ⟨rfl, by cases mode <;> rfl, fun _ _ h => by cases h⟩
    · cases mode with
      | get => exact .inl ⟨rfl, rfl, fun _ _ h => by cases h⟩
      | tryGet => exact .inl ⟨rfl, rfl, fun _ _ h => by cases h⟩
      | load =>
        cases hcreate : Repository.create (types kind) id with
        | error err =>
          simp only [Acquisition.request, LoadRequest.absent, hcreate]
          exact .inl ⟨rfl, rfl, fun _ _ h => by cases h⟩
        | ok root =>
          refine .inr ⟨root, ?_⟩
          simp [Acquisition.request, LoadRequest.absent, hcreate, Except.map, Except.toOption]
    · refine .inr ⟨root, ?_⟩
      cases mode <;> simp

end UnitOfWork

/-! ### Emissions -/

section

variable {κ S : Type} {u : UnitOfWork κ S}

/-- An emission changes the root under its id only. -/
theorem UnitOfWork.get?_emit (types : κ → AggregateType S) (id id' : String) (e : Event) :
    (u.emit types id e).2.roots.get? id'
      = if id' = id then (u.roots.get? id).map fun r => (r.1, (r.2.emit (types r.1) e).1)
        else u.roots.get? id' := by
  unfold emit
  cases hget : u.roots.get? id with
  | none =>
    by_cases hid : id' = id
    · rw [if_pos hid, hid]
      exact hget
    · rw [if_neg hid]
  | some entry => exact Table.get?_insert _ _ _ _

theorem UnitOfWork.keys_emit (types : κ → AggregateType S) (id : String) (e : Event) :
    (u.emit types id e).2.roots.keys = u.roots.keys := by
  unfold emit
  cases hget : u.roots.get? id with
  | none => rfl
  | some entry =>
    have hold : id ∈ u.roots.keys := List.mem_map_of_mem ((Table.get?_eq_some_iff _ _ _).1 hget)
    exact (Table.keys_insert _ _ _).trans (if_pos hold)

end

/-! ### Programs -/

section

variable {σ κ S : Type} [DecidableEq κ] (types : κ → AggregateType S) (repo : Repository σ)

/-- What every acquisition and every emission keeps, a program keeps. -/
theorem Program.run_induction {I : UnitOfWork κ S → Backing σ → Prop}
    (acquire : ∀ mode kind id u b, I u b →
      I (u.acquire types repo mode kind id b).2.1 (u.acquire types repo mode kind id b).2.2)
    (emit : ∀ id e u b, I u b → I (u.emit types id e).2 b) (program : Program κ S)
    {u : UnitOfWork κ S} {b : Backing σ} (h : I u b) :
    I (program.run types repo u b).2.1 (program.run types repo u b).2.2 := by
  induction program generalizing u b with
  | done => exact h
  | fail err => exact h
  | acquire mode kind id next ih => exact ih _ (acquire mode kind id u b h)
  | emit id e next ih => exact ih _ (emit id e u b h)

end

/-! ### Whose events the roots at hand have -/

namespace UnitOfWork

variable {κ S : Type} {u : UnitOfWork κ S}

/-- Every root at hand is under its own id, and its uncommitted events carry it. -/
def Owned (u : UnitOfWork κ S) : Prop :=
  ∀ ⦃id : String⦄ ⦃kind : κ⦄ ⦃root : Root S⦄, u.roots.get? id = some (kind, root) →
    root.id = id ∧ root.Owned

theorem owned_empty : (empty : UnitOfWork κ S).Owned := by
  intro id kind root h
  cases h

theorem Owned.insert (h : u.Owned) (kind : κ) {root : Root S} (hroot : root.Owned) :
    Owned ⟨u.roots.insert root.id (kind, root)⟩ := by
  intro id kind' root' hget
  rw [Table.get?_insert] at hget
  split at hget
  · rename_i hid
    cases hget
    exact ⟨hid.symm, hroot⟩
  · exact h hget

theorem Owned.emit (h : u.Owned) (types : κ → AggregateType S) (id : String) (e : Event) :
    (u.emit types id e).2.Owned := by
  unfold UnitOfWork.emit
  cases hget : u.roots.get? id with
  | none => exact h
  | some entry =>
    obtain ⟨kind, root⟩ := entry
    obtain ⟨hid, howned⟩ := h hget
    have hafter := h.insert kind (howned.emit (T := types kind) e)
    rwa [Root.id_emit, hid] at hafter

variable {σ : Type} [DecidableEq κ]

/-- A root that is found has nothing uncommitted, and a created one has marked what it has emitted. -/
theorem Owned.acquire (h : u.Owned) (types : κ → AggregateType S) (repo : Repository σ)
    (mode : Acquisition) (kind : κ) (id : String) (b : Backing σ) :
    (u.acquire types repo mode kind id b).2.1.Owned := by
  rcases u.acquire_cases types repo mode kind id b with
    ⟨hsame, _, _⟩ | ⟨root, _, _, hadded, ⟨_, hfound⟩ | ⟨_, _, _, hcreated⟩⟩
  · rw [hsame]
    exact h
  · obtain ⟨hid, huncommitted, _⟩ := Repository.hydrate_eq_ok hfound
    have howned : root.Owned := by
      intro e he
      rw [huncommitted] at he
      cases he
    rw [hadded, ← hid]
    exact h.insert kind howned
  · obtain ⟨hid, _, howned⟩ := Repository.create_eq_ok hcreated
    rw [hadded, ← hid]
    exact h.insert kind howned

/-- Over a log, an acquisition leaves the roots at hand as they are, or it adds one with events of its
own only, which is numbered like its history. -/
theorem acquire_numbered (types : κ → AggregateType S) (repo : Repository σ) {log : Log} {b : Backing σ}
    (hlog : log.Consistent) (hcache : b.cache.Numbered log) (mode : Acquisition) (kind : κ) (id : String)
    {store : σ} {fault : Option Fault} (hload : ∀ first, repo.store.load id first b.store
      = (Fault.read fault (log.load id first), store)) (u : UnitOfWork κ S) :
    (u.acquire types repo mode kind id b).2.1 = u ∨
    ∃ root, u.roots.get? id = none ∧
      (u.acquire types repo mode kind id b).2.1 = ⟨u.roots.insert root.id (kind, root)⟩ ∧
      root.Owned ∧ root.sequence + 1 = (log.history root.id).length := by
  have hall := hlog.filter_upTo_latest id
  obtain ⟨answer, cache, hhydrate, _, hfound, hnone⟩ :=
    Repository.hydrate_numbers repo hlog hcache (types kind) id _ hload
  rcases u.acquire_cases types repo mode kind id b with
    ⟨hsame, _, _⟩ | ⟨root, hget, _, hadded, ⟨_, hroot⟩ | ⟨_, _, hroot, hcreate⟩⟩
  · exact .inl hsame
  · -- The repository has found the root.
    obtain ⟨hid, huncommitted, _⟩ := Repository.hydrate_eq_ok hroot
    have hnumbered := hfound root (by rw [← hroot, hhydrate])
    have howned : root.Owned := by
      intro e he
      rw [huncommitted] at he
      cases he
    exact .inr ⟨root, hget, by rw [hadded, hid], howned, by rw [hnumbered.sequence, hall, hid]⟩
  · -- The root has been created, and the log has no event of it.
    obtain ⟨hid, hsequence, howned⟩ := Repository.create_eq_ok hcreate
    have hempty := hnone (by rw [← hroot, hhydrate])
    refine .inr ⟨root, hget, by rw [hadded, hid], howned, ?_⟩
    rw [hsequence, hid, ← hall, hempty]
    rfl

/-- Whatever a program does, the events are those of the roots that have emitted them. -/
theorem Owned.run (h : u.Owned) (types : κ → AggregateType S) (repo : Repository σ)
    (program : Program κ S) (b : Backing σ) : (program.run types repo u b).2.1.Owned :=
  Program.run_induction (I := fun u _ => u.Owned) types repo
    (fun mode kind id _ b h => h.acquire types repo mode kind id b)
    (fun id e _ _ h => h.emit types id e) program h

end UnitOfWork

end Chronicle
