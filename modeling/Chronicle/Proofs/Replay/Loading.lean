import Chronicle.Proofs.Log.Shared
import Chronicle.Proofs.Replay.Snapshots

namespace Chronicle

/-!
# Loading with and without snapshots

* `LoadRequest` — the ways to load a root; `Log.answer` is what the log alone says to each.
* `Backing.Sound` — a consistent log, and snapshots that reflect it.
* `Repository.hydrate_cases` — a replay that starts from a sound snapshot is a replay of the whole
  history up to the bound, unless the store fails.
* `LoadStep` — saves, loads, lookups, trims, changes of the limit and of the time, in any order.
* `Backing.snapshots_invisible` — after any such steps every load answers what the log alone says.
-/

/-! ### Requests -/

/-- The ways to load a root. -/
inductive LoadRequest where
  /-- The whole history, which has to exist. -/
  | get
  /-- The whole history, if it exists. -/
  | tryGet
  /-- The history up to a position, which has to exist. -/
  | getAt (bound : Int)
  /-- The history up to a position, if it exists. -/
  | tryGetAt (bound : Int)
  /-- The whole history; the root is created if there is none. -/
  | loadOrCreate

namespace LoadRequest

/-- The position up to which the request asks for the history. -/
def bound : LoadRequest → Int
  | getAt bound | tryGetAt bound => bound
  | get | tryGet | loadOrCreate => Repository.latest

/-- The answer to the request where there is no history. -/
def absent {S : Type} (T : AggregateType S) (id : String) :
    LoadRequest → Except RepositoryError (Option (Root S))
  | get | getAt _ => .error (.notFound T.name id)
  | tryGet | tryGetAt _ => .ok none
  | loadOrCreate => (Repository.create T id).map some

end LoadRequest

/-- What the log alone says to a request. -/
def Log.answer {S : Type} (T : AggregateType S) (id : String) (request : LoadRequest) (log : Log) :
    Except RepositoryError (Option (Root S)) :=
  match log.replay T id request.bound with
  | .error err => .error err
  | .ok none => request.absent T id
  | .ok (some root) => .ok (some root)

namespace Repository

variable {σ : Type}

/-- Load a root as a request asks for it. -/
def load {S : Type} (repo : Repository σ) (T : AggregateType S) (id : String) :
    LoadRequest → Backing σ → Except RepositoryError (Option (Root S)) × Backing σ
  | .get, b => let (root, b) := repo.get T id b; (root.map some, b)
  | .tryGet, b => repo.tryGet T id b
  | .getAt bound, b => let (root, b) := repo.getAt T id bound b; (root.map some, b)
  | .tryGetAt bound, b => repo.tryGetAt T id bound b
  | .loadOrCreate, b => let (root, b) := repo.loadOrCreate T id b; (root.map some, b)

/-- Every request hydrates the root once and then treats its absence in its own way. -/
theorem load_eq {S : Type} (repo : Repository σ) (T : AggregateType S) (id : String)
    (request : LoadRequest) (b : Backing σ) :
    repo.load T id request b = (match (repo.hydrate T id request.bound b).1 with
      | .error err => .error err
      | .ok none => request.absent T id
      | .ok (some root) => .ok (some root), (repo.hydrate T id request.bound b).2) := by
  cases request with
  | get | getAt bound =>
    simp only [load, get, getAt, LoadRequest.bound, LoadRequest.absent]
    rcases repo.hydrate T id _ b with ⟨_ | _ | root, b'⟩ <;> rfl
  | tryGet | tryGetAt bound =>
    simp only [load, tryGet, tryGetAt, LoadRequest.bound, LoadRequest.absent]
    rcases repo.hydrate T id _ b with ⟨_ | _ | root, b'⟩ <;> rfl
  | loadOrCreate =>
    simp only [load, loadOrCreate, LoadRequest.bound, LoadRequest.absent]
    rcases repo.hydrate T id _ b with ⟨_ | _ | root, b'⟩ <;> rfl

end Repository

/-! ### Hydrating from a sound cache -/

section

variable {σ κ : Type} {S : κ → Type}

/-- The log is consistent, and every snapshot reflects it. -/
structure Backing.Sound (types : ∀ k, AggregateType (S k)) (log : Log) (b : Backing σ) : Prop where
  /-- The log is consistent. -/
  consistent : log.Consistent
  /-- Every snapshot reflects the log. -/
  cache : b.cache.Sound types log

/-- A replay up to a bound may start from a root: the events that come next in the history lead from
it to the same root as the whole history does. -/
structure Repository.StartsFrom (types : ∀ k, AggregateType (S k)) (log : Log) (k : κ) (id : String)
    (bound : Int) (start : Root (S k)) : Prop where
  /-- The events that come next are in order. -/
  order : Event.InOrder (start.sequence + 1) (log.load id (start.sequence + 1))
  /-- They complete the replay. -/
  replay : Root.ofHistory (types k) id ((log.history id).filter (Event.upTo bound))
    = ((log.load id (start.sequence + 1)).filter (Event.upTo bound)).foldlM
        (Root.advance (types k)) start

end

/-- A replay does not miss what a broken stream leaves out, or it says that the stream is broken. -/
theorem Root.replayFrom_breakOff {S : Type} (r : Root S) (T : AggregateType S) (bound : Int)
    (n : Nat) (events : List Event) (item : BrokenItem) :
    r.replayFrom T bound n (ScriptedStore.breakOff events (some item))
        = r.replayFrom T bound n (events.map .ok) ∨
      r.replayFrom T bound n (ScriptedStore.breakOff events (some item))
        = .error (.store item.error) := by
  have h := r.replayFrom_broken (T := T) bound n ((events.take item.place).map .ok)
    ((events.drop item.place).map .ok) item.error
  rwa [← List.map_append, List.take_append_drop] at h

namespace Repository

variable {σ κ : Type} {S : κ → Type} {types : ∀ k, AggregateType (S k)} {log : Log} {b : Backing σ}

/-- A replay may start from the root that the history up to an earlier position makes. -/
theorem StartsFrom.of_ofHistory (hlog : log.Consistent) {k : κ} {id : String} {cutoff bound : Int}
    {root : Root (S k)}
    (hmade : Root.ofHistory (types k) id ((log.history id).filter (Event.upTo cutoff)) = .ok root)
    (hle : cutoff ≤ bound) : StartsFrom types log k id bound root := by
  have horder := hlog.inOrder id
  -- The root has seen the first `n` events, and `n` is the next sequence number.
  generalize hn : ((log.history id).filter (Event.upTo cutoff)).length = n
  have hsequence : root.sequence + 1 = n := by
    rw [(Root.ofHistory_eq_ok hmade).2.1, hn]
    omega
  have hn' : n ≤ (log.history id).length := hn ▸ List.length_filter_le _ _
  have hload : log.load id (root.sequence + 1) = (log.history id).drop n := by
    rw [hlog.load_eq, hsequence, Int.toNat_natCast]
  constructor
  · rw [hload, hsequence]
    simpa using horder.drop n hn'
  · rw [hload, horder.filter_upTo hle, hn, Root.ofHistory_append, hmade]
    rfl

/-- A replay starts from a root without history or from a snapshot, and may do so. -/
theorem startingPoint_spec (hb : b.Sound types log) (hfaithful : AggregateType.Faithful types)
    (k : κ) (id : String) (bound : Int) :
    ∃ start cache, startingPoint (types k) id bound b = (start, { b with cache }) ∧
      cache.Sound types log ∧ StartsFrom types log k id bound start := by
  obtain ⟨hlog, hcache⟩ := hb
  have hwithin := SnapshotCache.within_lookup hcache.keyed (types k) id bound b.now
  unfold startingPoint
  rcases SnapshotCache.lookup_cases (types k) id bound b.now b.cache with
    h | ⟨cutoff, s, root, hs, hle, hroot, h⟩
  · rw [h]
    refine ⟨_, _, rfl, hcache, ?_, ?_⟩
    · rw [hlog.load_eq]
      exact hlog.inOrder id
    · rw [hlog.load_eq]
      rfl
  · rw [h] at hwithin ⊢
    refine ⟨_, _, rfl, hcache.within hwithin, ?_⟩
    obtain ⟨writer, htype, hreflects⟩ := hcache.reflects hs
    have hcutoff : s.cutoff ≤ bound := hcache.keyed hs ▸ hle
    exact .of_ofHistory hlog (hreflects.toRoot?_eq hfaithful htype hroot) hcutoff

/-- A root that is put in the cache after its replay leaves the cache sound. -/
theorem keep_spec (repo : Repository σ) (hlog : log.Consistent) (hcache : b.cache.Sound types log)
    {k : κ} {id : String} {bound : Int} {r : Root (S k)}
    (hr : Root.ofHistory (types k) id ((log.history id).filter (Event.upTo bound)) = .ok r)
    (replayed : Nat) : ∃ cache, repo.keep (types k) r replayed b = { b with cache } ∧
      cache.Sound types log := by
  unfold keep
  split
  · exact ⟨_, rfl, hcache.put hlog hr b.now⟩
  · exact ⟨_, rfl, hcache⟩

/-- If the events that are read lead where the history leads, the root is the replay of the log. -/
theorem hydrate_eq_replay (repo : Repository σ) (hlog : log.Consistent) {k : κ} {id : String}
    {bound : Int} {start : Root (S k)} {cache : SnapshotCache} {store : σ} {stream : EventStream}
    (hstart : startingPoint (types k) id bound b = (start, { b with cache }))
    (hcache : cache.Sound types log) (hfrom : StartsFrom types log k id bound start)
    (hload : repo.store.load id (start.sequence + 1) b.store = (.ok stream, store))
    (hstream : start.replayFrom (types k) bound 0 stream
      = start.replayFrom (types k) bound 0 ((log.load id (start.sequence + 1)).map .ok)) :
    ∃ cache', repo.hydrate (types k) id bound b
        = (log.replay (types k) id bound, { b with store, cache := cache' }) ∧
      cache'.Sound types log := by
  -- Both sides are now what the next events make of the starting point.
  rw [Log.replay_eq, hfrom.replay]
  unfold hydrate
  simp only [hstart, hload, hstream, Root.replayFrom_eq hfrom.order]
  cases hr : ((log.load id (start.sequence + 1)).filter (Event.upTo bound)).foldlM
      (Root.advance (types k)) start with
  | error err => exact ⟨cache, rfl, hcache⟩
  | ok root =>
    simp only [Except.map]
    cases hhistory : root.hasHistory with
    | false => exact ⟨cache, rfl, hcache⟩
    | true =>
      obtain ⟨cache', hkeep, hcache'⟩ := keep_spec (b := { b with store, cache }) repo hlog hcache
        (hfrom.replay.trans hr) (0 + _)
      exact ⟨cache', by simp only [if_true]; rw [hkeep], hcache'⟩

/-- A replay that starts from a sound snapshot is a replay of the whole history up to the bound. If
the store fails, the replay may fail too, but it never leads to another root. -/
theorem hydrate_cases (repo : Repository σ) (hb : b.Sound types log)
    (hfaithful : AggregateType.Faithful types) (k : κ) (id : String) (bound : Int) {store : σ}
    {fault : Option Fault} (hload : ∀ first, repo.store.load id first b.store
      = (Fault.read fault (log.load id first), store)) :
    ∃ answer cache, repo.hydrate (types k) id bound b = (answer, { b with store, cache }) ∧
      cache.Sound types log ∧ (answer = log.replay (types k) id bound ∨
        fault ≠ none ∧ ∃ err, answer = .error (.store err)) := by
  obtain ⟨start, cache, hstart, hcache, hfrom⟩ := startingPoint_spec hb hfaithful k id bound
  have hread := hload (start.sequence + 1)
  cases fault with
  | none =>
    obtain ⟨cache', hhydrate, hcache'⟩ :=
      hydrate_eq_replay repo hb.consistent hstart hcache hfrom hread rfl
    exact ⟨_, cache', hhydrate, hcache', .inl rfl⟩
  | some fault =>
    cases fault with
    | refused err =>
      refine ⟨.error (.store err), cache, ?_, hcache, .inr ⟨nofun, err, rfl⟩⟩
      unfold hydrate
      simp only [hstart, hread, Fault.read]
    | broken item =>
      rcases start.replayFrom_breakOff (types k) bound 0 (log.load id (start.sequence + 1)) item
        with h | h
      · obtain ⟨cache', hhydrate, hcache'⟩ :=
          hydrate_eq_replay repo hb.consistent hstart hcache hfrom hread h
        exact ⟨_, cache', hhydrate, hcache', .inl rfl⟩
      · refine ⟨.error (.store item.error), cache, ?_, hcache, .inr ⟨nofun, item.error, rfl⟩⟩
        unfold hydrate
        simp only [hstart, hread, Fault.read, h]

/-- A load from the log with a sound cache answers what the log alone says. -/
theorem load_eq_answer {b : Backing Log} (hb : b.Sound types b.store)
    (hfaithful : AggregateType.Faithful types) (threshold : Nat) (k : κ) (id : String)
    (request : LoadRequest) :
    ∃ cache, load ⟨Log.store, threshold⟩ (types k) id request b
        = (b.store.answer (types k) id request, { b with cache }) ∧ cache.Sound types b.store := by
  have hload : ∀ first, Log.store.load id first b.store
      = (Fault.read none (b.store.load id first), b.store) := fun _ => rfl
  obtain ⟨answer, cache, hhydrate, hcache, hanswer | ⟨hnone, _⟩⟩ :=
    hydrate_cases ⟨Log.store, threshold⟩ hb hfaithful k id request.bound hload
  · refine ⟨cache, ?_, hcache⟩
    rw [load_eq, hhydrate, hanswer]
    rfl
  · exact absurd rfl hnone

end Repository

/-! ### Runs -/

section

variable {κ : Type} {S : κ → Type} (types : ∀ k, AggregateType (S k))

/-- What may happen to a log and a snapshot cache: saves, loads by repositories of any threshold,
lookups, trims, changes of the limit and of the time. -/
inductive LoadStep (κ : Type) where
  /-- A batch is saved, or rejected. -/
  | save (s : Save)
  /-- A root is loaded. -/
  | load (threshold : Nat) (kind : κ) (id : String) (request : LoadRequest)
  /-- A snapshot is looked up. -/
  | lookup (kind : κ) (id : String) (bound : Int)
  /-- The cache is trimmed. -/
  | trim
  /-- The limit of the cache changes. -/
  | setLimit (limit : Nat)
  /-- The clock is set. -/
  | setClock (now : Instant)

/-- The log, the cache and the time after a step. -/
def LoadStep.run : LoadStep κ → Backing Log → Backing Log
  | .save s, b => { b with store := (b.store.save s.batch s.events).2 }
  | .load threshold kind id request, b =>
    (Repository.load ⟨Log.store, threshold⟩ (types kind) id request b).2
  | .lookup kind id bound, b => { b with cache := (b.cache.lookup (types kind) id bound b.now).2 }
  | .trim, b => { b with cache := b.cache.trim b.now }
  | .setLimit limit, b => { b with cache := b.cache.setLimit limit b.now }
  | .setClock now, b => { b with now }

/-- The log, the cache and the time after steps. -/
def LoadStep.runAll (steps : List (LoadStep κ)) (b : Backing Log) : Backing Log :=
  steps.foldl (fun b step => step.run types b) b

/-- Nothing has happened yet: the log and the cache are empty. -/
def Backing.fresh (limit : Nat) (now : Instant) : Backing Log where
  store := Log.empty
  cache := SnapshotCache.new limit
  now := now

theorem Backing.sound_fresh (limit : Nat) (now : Instant) :
    (Backing.fresh limit now).Sound types (Backing.fresh limit now).store where
  consistent := Log.consistent_empty
  cache := SnapshotCache.sound_new types _ limit

variable {types}

/-- Every step keeps the snapshots right. -/
theorem LoadStep.sound_run (hfaithful : AggregateType.Faithful types) {b : Backing Log}
    (hb : b.Sound types b.store) (step : LoadStep κ) :
    (step.run types b).Sound types (step.run types b).store := by
  have hload := Repository.load_eq_answer hb hfaithful
  obtain ⟨hlog, hcache⟩ := hb
  cases step with
  | save s =>
    have hext : b.store.Extends (b.store.save s.batch s.events).2 :=
      ⟨_, (hlog.save_spec s).1.symm⟩
    exact ⟨hlog.save _ _, hcache.mono hlog (hlog.save _ _) hext⟩
  | load threshold kind id request =>
    obtain ⟨cache, hload, hcache'⟩ := hload threshold kind id request
    show Backing.Sound types (Repository.load _ _ _ _ _).2.store (Repository.load _ _ _ _ _).2
    rw [hload]
    exact ⟨hlog, hcache'⟩
  | lookup kind id bound =>
    exact ⟨hlog, hcache.within (SnapshotCache.within_lookup hcache.keyed _ _ _ _)⟩
  | trim => exact ⟨hlog, hcache.within (SnapshotCache.within_trim _ _)⟩
  | setLimit limit => exact ⟨hlog, hcache.within (SnapshotCache.within_setLimit _ _ _)⟩
  | setClock now => exact ⟨hlog, hcache⟩

/-- Any steps keep the snapshots right. -/
theorem LoadStep.sound_runAll (hfaithful : AggregateType.Faithful types) (steps : List (LoadStep κ))
    {b : Backing Log} (hb : b.Sound types b.store) :
    (runAll types steps b).Sound types (runAll types steps b).store := by
  induction steps generalizing b with
  | nil => exact hb
  | cons step rest ih => exact ih (LoadStep.sound_run hfaithful hb step)

/-- Any steps only make the log grow. -/
theorem LoadStep.extends_runAll (hfaithful : AggregateType.Faithful types)
    (steps : List (LoadStep κ)) {b : Backing Log} (hb : b.Sound types b.store) :
    b.store.Extends (runAll types steps b).store := by
  induction steps generalizing b with
  | nil => exact .refl _
  | cons step rest ih =>
    have hstep : b.store.Extends (step.run types b).store := by
      cases step with
      | save s => exact ⟨_, (hb.consistent.save_spec s).1.symm⟩
      | load threshold kind id request =>
        obtain ⟨_, hload, _⟩ := Repository.load_eq_answer hb hfaithful threshold kind id request
        show b.store.Extends (Repository.load _ _ _ _ _).2.store
        rw [hload]
        exact .refl _
      | lookup kind id bound => exact .refl _
      | trim => exact .refl _
      | setLimit limit => exact .refl _
      | setClock now => exact .refl _
    exact hstep.trans (ih (LoadStep.sound_run hfaithful hb step))

/-- **Snapshots are invisible.** Take a log and a snapshot cache that were empty, whatever has been
saved, loaded, looked up and trimmed since (`LoadStep.runAll`), with any limits and thresholds and at any
times: `Repository.load` answers what `Log.answer` makes of the log alone, which is also what it answers
with the empty cache `SnapshotCache.new 0`. All that is assumed of the types is that a stored state that
can be read is the state that was stored (`AggregateType.Faithful`). -/
theorem Backing.snapshots_invisible (hfaithful : AggregateType.Faithful types) (limit : Nat)
    (start : Instant) (steps : List (LoadStep κ)) (threshold : Nat) (k : κ) (id : String)
    (request : LoadRequest) :
    let b := LoadStep.runAll types steps (Backing.fresh limit start)
    let repo : Repository Log := ⟨Log.store, threshold⟩
    (repo.load (types k) id request b).1 = b.store.answer (types k) id request ∧
      (repo.load (types k) id request b).1
        = (repo.load (types k) id request { b with cache := SnapshotCache.new 0 }).1 := by
  intro b repo
  have hb : b.Sound types b.store :=
    LoadStep.sound_runAll hfaithful steps (Backing.sound_fresh types limit start)
  obtain ⟨_, hload, _⟩ := Repository.load_eq_answer hb hfaithful threshold k id request
  -- A cache that holds nothing is sound too.
  have huncached := Repository.load_eq_answer (b := { b with cache := SnapshotCache.new 0 })
    ⟨hb.consistent, SnapshotCache.sound_new types _ 0⟩ hfaithful threshold k id request
  obtain ⟨_, hload', _⟩ := huncached
  exact ⟨by rw [hload], by rw [hload, hload']⟩

end

/-- Deposits are saved and loaded, so that the cache has snapshots of two types for one root. -/
def Sample.depositSteps : List (LoadStep Sample.Kind) :=
  [.save ⟨.nil, Log.empty.continuation "a" "Deposited" (Sample.deposited.encode 5) 3⟩,
   .load 1 .account "a" (.getAt 1),
   .save ⟨.nil, (Log.empty.continuation "a" "Deposited" (Sample.deposited.encode 5) 4).drop 3⟩,
   .load 1 .counter "a" .get]

set_option maxRecDepth 10000 in
/-- With two snapshots in the cache, an account is loaded at position 2: `SnapshotCache.lookup` finds it
as it was at 1, and it is still what its deposits make of it. -/
theorem Backing.snapshots_invisible_deposits :
    let b := LoadStep.runAll Sample.aggregateType Sample.depositSteps (Backing.fresh 10 ⟨0, 0⟩)
    let repo : Repository Log := ⟨Log.store, 1⟩
    b.cache.count = 2 ∧
    (b.cache.lookup (Sample.aggregateType .account) "a" 2 b.now).1.map Root.sequence = some 1 ∧
    (repo.load (Sample.aggregateType .account) "a" (.getAt 2) b).1
        = b.store.answer (Sample.aggregateType .account) "a" (.getAt 2) ∧
      (repo.load (Sample.aggregateType .account) "a" (.getAt 2) b).1
        = (repo.load (Sample.aggregateType .account) "a" (.getAt 2)
            { b with cache := SnapshotCache.new 0 }).1 :=
  ⟨by decide +kernel, by decide +kernel, Backing.snapshots_invisible Sample.faithful_aggregateType
    10 ⟨0, 0⟩ Sample.depositSteps 1 .account "a" (.getAt 2)⟩

end Chronicle
