import Chronicle.Command.Program
import Chronicle.Proofs.Replay.Loading

namespace Chronicle

/-!
# What a command has loaded

* `Root.Owned` — all uncommitted events of a root carry its id.
* `Loaded` — a root as a command got it from the repository, and the log it was loaded from.
* `Program.loads` — the loads of a command, in order, while other writers use the log.
* `Working` — the invariant of a command that is executed: the roots at hand are the loaded ones with
  more uncommitted events, and every load shows what the log of its time says.
* `Working.run` — every command keeps it.
-/

/-! ### Uncommitted events -/

namespace Root

variable {S : Type} {T : AggregateType S}

/-- All uncommitted events carry the id of the root. -/
def Owned (r : Root S) : Prop := ∀ e ∈ r.uncommitted, e.root = .ok r.id

theorem owned_new (T : AggregateType S) (id : String) : (new T id).Owned := by
  intro e he
  cases he

/-- An emitted event carries the mark of the root that emits it. -/
theorem root_mark (T : AggregateType S) (r : Root S) (e : Event) :
    (r.mark T e).root = .ok r.id := by
  unfold mark Event.root
  rw [Event.require_withMetadata_of_ne _ _ (by decide), Event.require_withMetadata_self]

theorem Owned.emit {r : Root S} (h : r.Owned) (e : Event) : (r.emit T e).1.Owned := by
  intro e' he'
  rw [id_emit]
  rw [uncommitted_emit] at he'
  split at he'
  · rcases List.mem_append.1 he' with he' | he'
    · exact h e' he'
    · rw [List.mem_singleton.1 he']
      exact r.root_mark T e
  · exact h e' he'

/-- A script marks what it emits. -/
theorem Owned.run {r : Root S} (h : r.Owned) (script : Script S) : (script.run T r).1.Owned := by
  induction script generalizing r with
  | done => exact h
  | fail err => exact h
  | emit e next ih => exact ih _ _ (h.emit e)

end Root

/-! ### Loads -/

/-- The request of a repository that an acquisition makes. -/
def Acquisition.request : Acquisition → LoadRequest
  | load => .loadOrCreate
  | get => .get
  | tryGet => .tryGet

theorem UnitOfWork.fetch_eq_load {σ S : Type} (repo : Repository σ) (T : AggregateType S)
    (mode : Acquisition) (id : String) (b : Backing σ) :
    fetch repo T mode id b = repo.load T id mode.request b := by
  cases mode <;> rfl

/-- A created root has no number yet, and its uncommitted events are its own. -/
theorem Repository.create_eq_ok {S : Type} {T : AggregateType S} {id : String} {root : Root S}
    (h : create T id = .ok root) :
    root.id = id ∧ root.sequence = Root.noNumber ∧ root.Owned := by
  have hid := (T.created (Root.new T id)).id_run T (Root.new T id)
  have hsequence := (T.created (Root.new T id)).sequence_run T (Root.new T id)
  have howned := (Root.owned_new T id).run (T := T) (T.created (Root.new T id))
  unfold create at h
  simp only at h
  split at h
  · rename_i created hrun
    cases h
    rw [hrun] at hid hsequence howned
    exact ⟨hid, hsequence, howned⟩
  · cases h

/-- A root that the log answers is what its history makes, or it has no history and was created. -/
theorem Log.answer_cases {S : Type} {T : AggregateType S} {id : String} {mode : Acquisition}
    {log : Log} {root : Root S} (hlog : log.Consistent)
    (h : log.answer T id mode.request = .ok (some root)) :
    Root.ofHistory T id (log.history id) = .ok root ∨
      log.history id = [] ∧ Repository.create T id = .ok root := by
  have hbound : mode.request.bound = Repository.latest := by cases mode <;> rfl
  have hall : (log.history id).filter (Event.upTo mode.request.bound) = log.history id := by
    rw [hbound, hlog.filter_upTo_latest]
  unfold answer replay at h
  rw [hall] at h
  cases hhistory : log.history id with
  | nil =>
    rw [hhistory] at h
    cases mode with
    | get => cases h
    | tryGet => cases h
    | load =>
      cases hcreate : Repository.create T id with
      | error err =>
        simp only [LoadRequest.absent, Acquisition.request, hcreate] at h
        cases h
      | ok created =>
        simp only [LoadRequest.absent, Acquisition.request, hcreate] at h
        cases h
        exact .inr ⟨rfl, rfl⟩
  | cons e rest =>
    rw [hhistory] at h
    cases hr : Root.ofHistory T id (e :: rest) with
    | error err =>
      simp only [hr] at h
      cases h
    | ok r =>
      simp only [hr] at h
      cases h
      exact .inl rfl

/-- A root that the log answers is numbered like its history, and its uncommitted events are its
own. -/
theorem Log.answer_eq_ok {S : Type} {T : AggregateType S} {id : String} {mode : Acquisition}
    {log : Log} {root : Root S} (hlog : log.Consistent)
    (h : log.answer T id mode.request = .ok (some root)) :
    root.id = id ∧ root.sequence + 1 = (log.history id).length ∧ root.Owned := by
  rcases answer_cases hlog h with hroot | ⟨hhistory, hroot⟩
  · obtain ⟨hid, hsequence, huncommitted, _⟩ := Root.ofHistory_eq_ok hroot
    refine ⟨hid, by omega, ?_⟩
    intro e he
    rw [huncommitted] at he
    cases he
  · obtain ⟨hid, hsequence, howned⟩ := Repository.create_eq_ok hroot
    refine ⟨hid, ?_, howned⟩
    rw [hsequence, hhistory]
    rfl

/-! ### Loading while others write -/

section

variable {κ : Type} {S : κ → Type} {types : ∀ k, AggregateType (S k)} {b : Backing SharedLog}

/-- Other writers leave the snapshots right. -/
theorem Backing.Sound.turn (hb : b.Sound types b.store.log) :
    b.Sound types b.store.turn.2.log := by
  have hgrown := SharedLog.grown_turn hb.consistent
  exact ⟨hgrown.log, hb.cache.mono hb.consistent hgrown.log hgrown.kept⟩

/-- A load that succeeds answers what the log says at that moment. -/
theorem Repository.load_shared {repo : Repository SharedLog} (hstore : repo.store = SharedLog.store)
    (hb : b.Sound types b.store.log) (hfaithful : AggregateType.Faithful types) (k : κ)
    (id : String) (request : LoadRequest) :
    ∃ answer cache, repo.load (types k) id request b
        = (answer, { b with store := b.store.turn.2, cache }) ∧
      cache.Sound types b.store.turn.2.log ∧
      ∀ root, answer = .ok root → b.store.turn.2.log.answer (types k) id request = .ok root := by
  have hload : ∀ first, repo.store.load id first b.store
      = (Fault.read b.store.turn.1 (b.store.turn.2.log.load id first), b.store.turn.2) := by
    intro first
    rw [hstore]
    rfl
  obtain ⟨answer, cache, hhydrate, hcache, hanswer⟩ :=
    hydrate_cases repo hb.turn hfaithful k id request.bound hload
  rw [load_eq, hhydrate]
  refine ⟨_, cache, rfl, hcache, ?_⟩
  rcases hanswer with rfl | ⟨_, err, rfl⟩
  · exact fun _ h => h
  · exact fun _ h => by cases h

end

/-! ### The loads of a command -/

/-- A root as a command got it from the repository. -/
structure Loaded (κ S : Type) where
  /-- What was to become of a root without history. -/
  mode : Acquisition
  /-- The kind of the root. -/
  kind : κ
  /-- The id of the root. -/
  id : String
  /-- The root. -/
  root : Root S
  /-- The log at that moment. -/
  log : Log

section

variable {κ S : Type} [DecidableEq κ] (types : κ → AggregateType S) (repo : Repository SharedLog)

/-- The load that an acquisition makes: none if the root is at hand already, if there is no root, or
if something fails. -/
def UnitOfWork.loads (mode : Acquisition) (kind : κ) (id : String) (u : UnitOfWork κ S)
    (b : Backing SharedLog) : List (Loaded κ S) :=
  match u.roots.get? id, u.acquire types repo mode kind id b with
  | none, (.ok (some root), _, b) => [⟨mode, kind, id, root, b.store.log⟩]
  | _, _ => []

/-- The loads of a command that is executed, in order. -/
def Program.loads : Program κ S → UnitOfWork κ S → Backing SharedLog → List (Loaded κ S)
  | done, _, _ => []
  | fail _, _, _ => []
  | acquire mode kind id next, u, b =>
    u.loads types repo mode kind id b ++
      match u.acquire types repo mode kind id b with
      | (answer, u, b) => loads (next answer) u b
  | emit id e next, u, b =>
    match u.emit types id e with
    | (answer, u) => loads (next answer) u b

/-- The log of a load says what the load answered. -/
structure Loaded.Right (l : Loaded κ S) : Prop where
  /-- The log is consistent. -/
  consistent : l.log.Consistent
  /-- The root is the answer of the log. -/
  answer : l.log.answer (types l.kind) l.id l.mode.request = .ok (some l.root)

/-- The state of a command that is executed: the roots at hand are the loaded ones, with more
uncommitted events. -/
structure Working (loads : List (Loaded κ S)) (u : UnitOfWork κ S) (b : Backing SharedLog) :
    Prop where
  /-- The log is consistent, and the snapshots reflect it. -/
  sound : b.Sound (S := fun _ => S) types b.store.log
  /-- Every load shows what the log said, and the log has only grown since. -/
  right : ∀ l ∈ loads, l.Right types ∧ l.log.Extends b.store.log
  /-- The roots at hand were loaded, and their uncommitted events are their own. -/
  held : ∀ {id : String} {kind : κ} {root : Root S}, u.roots.get? id = some (kind, root) →
    (∃ l ∈ loads, l.id = id) ∧ root.id = id ∧ root.Owned
  /-- The loaded roots are at hand under the numbers they had. -/
  kept : ∀ l ∈ loads, ∃ root, u.roots.get? l.id = some (l.kind, root) ∧
    root.sequence = l.root.sequence

end

namespace Working

variable {κ S : Type} {types : κ → AggregateType S} {loads : List (Loaded κ S)}
  {u : UnitOfWork κ S} {b : Backing SharedLog}

theorem empty (hb : b.Sound (S := fun _ => S) types b.store.log) :
    Working types [] UnitOfWork.empty b where
  sound := hb
  right _ hl := by cases hl
  held h := by cases h
  kept _ hl := by cases hl

/-- What becomes of the log behind its events and of the snapshots does not matter to the roots at
hand. -/
theorem passed (h : Working types loads u b) {b' : Backing SharedLog}
    (hb' : b'.Sound (S := fun _ => S) types b'.store.log)
    (hext : b.store.log.Extends b'.store.log) : Working types loads u b' where
  sound := hb'
  right l hl := by
    obtain ⟨hright, hgrown⟩ := h.right l hl
    exact ⟨hright, hgrown.trans hext⟩
  held := h.held
  kept := h.kept

/-- A root that was not at hand has been loaded. -/
theorem load (h : Working types loads u b) {l : Loaded κ S} (hget : u.roots.get? l.id = none)
    (hright : l.Right types) (hlog : l.log.Extends b.store.log) :
    Working types (loads ++ [l]) ⟨u.roots.insert l.id (l.kind, l.root)⟩ b where
  sound := h.sound
  right l' hl' := by
    rcases List.mem_append.1 hl' with hl' | hl'
    · exact h.right l' hl'
    · rw [List.mem_singleton.1 hl']
      exact ⟨hright, hlog⟩
  held := by
    intro id kind root hroot
    rw [Table.get?_insert] at hroot
    split at hroot
    · rename_i hid
      cases hroot
      obtain ⟨hroot, _, howned⟩ := Log.answer_eq_ok hright.consistent hright.answer
      exact ⟨⟨l, by simp, hid.symm⟩, hroot.trans hid.symm, howned⟩
    · obtain ⟨⟨l', hl', hid⟩, hrest⟩ := h.held hroot
      exact ⟨⟨l', List.mem_append_left _ hl', hid⟩, hrest⟩
  kept := by
    intro l' hl'
    rw [Table.get?_insert]
    rcases List.mem_append.1 hl' with hl' | hl'
    · obtain ⟨root, hroot, hsequence⟩ := h.kept l' hl'
      -- The new root was not at hand, so it is none of those that were loaded before.
      have hne : l'.id ≠ l.id := by
        intro hid
        rw [hid, hget] at hroot
        cases hroot
      rw [if_neg hne]
      exact ⟨root, hroot, hsequence⟩
    · rw [List.mem_singleton.1 hl', if_pos rfl]
      exact ⟨l.root, rfl, rfl⟩

/-- An emitted event changes neither the id nor the number of its root. -/
theorem emit (h : Working types loads u b) (id : String) (e : Event) :
    Working types loads (u.emit types id e).2 b := by
  unfold UnitOfWork.emit
  cases hget : u.roots.get? id with
  | none => exact h
  | some entry =>
    obtain ⟨kind, root⟩ := entry
    obtain ⟨hloaded, hid, howned⟩ := h.held hget
    refine ⟨h.sound, h.right, ?_, ?_⟩
    · intro id' kind' root' hroot'
      rw [Table.get?_insert] at hroot'
      split at hroot'
      · rename_i hid'
        cases hroot'
        exact ⟨hid' ▸ hloaded, by rw [Root.id_emit, hid, hid'], howned.emit e⟩
      · exact h.held hroot'
    · intro l hl
      obtain ⟨root', hroot', hsequence⟩ := h.kept l hl
      rw [Table.get?_insert]
      split
      · rename_i hid'
        rw [hid', hget] at hroot'
        cases hroot'
        exact ⟨_, rfl, (Root.sequence_emit _ _ _).trans hsequence⟩
      · exact ⟨root', hroot', hsequence⟩

variable [DecidableEq κ] {repo : Repository SharedLog}

/-- An acquisition uses the root at hand, or it loads it. -/
theorem acquire (hstore : repo.store = SharedLog.store)
    (hfaithful : AggregateType.Faithful (S := fun _ => S) types) (h : Working types loads u b)
    (mode : Acquisition) (kind : κ) (id : String) :
    Working types (loads ++ u.loads types repo mode kind id b)
      (u.acquire types repo mode kind id b).2.1 (u.acquire types repo mode kind id b).2.2 := by
  unfold UnitOfWork.loads UnitOfWork.acquire
  cases hget : u.roots.get? id with
  | some entry =>
    obtain ⟨heldKind, root⟩ := entry
    simp only [List.append_nil]
    split <;> exact h
  | none =>
    obtain ⟨answer, cache, hload, hcache, hright⟩ :=
      Repository.load_shared hstore h.sound hfaithful kind id mode.request
    have hturn : Working types loads u { b with store := b.store.turn.2, cache } :=
      h.passed ⟨h.sound.turn.consistent, hcache⟩ (SharedLog.grown_turn h.sound.consistent).kept
    simp only [UnitOfWork.fetch_eq_load, hload]
    rcases answer with err | _ | root
    · simpa only [List.append_nil] using hturn
    · simpa only [List.append_nil] using hturn
    · exact hturn.load hget ⟨hturn.sound.consistent, hright _ rfl⟩ (Log.Extends.refl _)

/-- Every command keeps the roots at hand in step with its loads. -/
theorem run (hstore : repo.store = SharedLog.store)
    (hfaithful : AggregateType.Faithful (S := fun _ => S) types) (program : Program κ S)
    (h : Working types loads u b) :
    Working types (loads ++ program.loads types repo u b) (program.run types repo u b).2.1
      (program.run types repo u b).2.2 := by
  -- The induction is on the program, after any loads that were made before.
  induction program generalizing loads u b with
  | done =>
    rw [Program.loads, List.append_nil]
    exact h
  | fail err =>
    rw [Program.loads, List.append_nil]
    exact h
  | acquire mode kind id next ih =>
    have hacquired := h.acquire hstore hfaithful mode kind id
    rw [Program.loads, ← List.append_assoc]
    exact ih _ hacquired
  | emit id e next ih => exact ih _ (h.emit id e)

end Working

end Chronicle
