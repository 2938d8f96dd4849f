import Chronicle.Proofs.Command.Loads

namespace Chronicle

/-!
# Roots that are put into the snapshot cache by hand

Application code may put a root that it holds into the snapshot cache. The cache stores the state of
the root as it is then, under the numbers of the last committed event. What was emitted in between
is in the state and not in the numbers.

* `Root.Made` — a root is what its history makes up to its cutoff. Every root with history that a log
  answers is (`Log.made_of_answer`), and it stays so when the log grows (`Root.Made.mono`).
* `SnapshotCache.put_congr` — all that the cache looks at in a root.
* `HoldStep` — roots are loaded and held, emitted on and put into the cache, between the steps that a
  log and a cache may make anyway (`LoadStep`).
* `Holding.Tidy` — whenever a root is put in, its state is stored as it was when it was loaded.
* `Holding.kept_snapshots_invisible` — after tidy steps every load answers what the log alone says.
* `Repository.getAt_put` — a root that is put in comes back with the state it was put in with. So
  whenever it is not the state it was loaded with, the next load at its cutoff is wrong, and
  `Holding.kept_snapshots_visible` shows such a load.
-/

/-! ### Roots made by their history -/

section

variable {κ S : Type} {T : AggregateType S} {log log' : Log} {r : Root S}

/-- The root is what its history makes up to its cutoff. -/
def Root.Made (T : AggregateType S) (log : Log) (r : Root S) : Prop :=
  Root.ofHistory T r.id ((log.history r.id).filter (Event.upTo r.cutoff)) = .ok r

/-- A replay up to a bound makes a root that is cut at its last event, not at the bound. -/
theorem Root.made_of_ofHistory {id : String} {bound : Int} (hlog : log.Consistent)
    (h : Root.ofHistory T id ((log.history id).filter (Event.upTo bound)) = .ok r)
    (hhistory : r.hasHistory = true) : r.Made T log := by
  have hid : r.id = id := (Root.ofHistory_eq_ok h).1
  unfold Root.Made
  rw [hid]
  exact Root.ofHistory_cutoff hlog hlog (.refl _) h hhistory

/-- Later commits are behind the cutoff. -/
theorem Root.Made.mono (h : r.Made T log) (hhistory : r.hasHistory = true) (hlog : log.Consistent)
    (hlog' : log'.Consistent) (hext : log.Extends log') : r.Made T log' :=
  Root.ofHistory_cutoff hlog hlog' hext h hhistory

/-- A root with history that a log answers is made by its history. -/
theorem Log.made_of_answer {id : String} {request : LoadRequest} (hlog : log.Consistent)
    (h : log.answer T id request = .ok (some r)) (hhistory : r.hasHistory = true) :
    r.Made T log := by
  unfold answer at h
  rw [Log.replay_eq] at h
  rcases hr : Root.ofHistory T id ((log.history id).filter (Event.upTo request.bound)) with
    err | made
  · simp [hr, Except.map] at h
  · simp only [hr, Except.map] at h
    by_cases hmade : made.hasHistory = true
    · simp only [hmade, if_true] at h
      obtain rfl : made = r := by simpa using h
      exact Root.made_of_ofHistory hlog hr hhistory
    · -- Nothing was replayed, so the root was created, and a created root has no history.
      simp only [hmade] at h
      cases request with
      | loadOrCreate =>
        have hcreated : Repository.create T id = .ok r := by
          rcases hcreate : Repository.create T id with err | created
          · simp [LoadRequest.absent, hcreate, Except.map] at h
          · simpa [LoadRequest.absent, hcreate, Except.map] using h
        rw [Root.hasHistory, (Repository.create_eq_ok hcreated).2.1] at hhistory
        simp at hhistory
      | _ => simp [LoadRequest.absent] at h

end

/-! ### What the cache looks at -/

/-- All that the cache looks at in a root: its id, its numbers, and the form of its state. -/
structure Root.SameSnapshot {S : Type} (T : AggregateType S) (r r' : Root S) : Prop where
  /-- The id is the same. -/
  id : r'.id = r.id
  /-- The sequence number is the same. -/
  sequence : r'.sequence = r.sequence
  /-- The cutoff is the same. -/
  cutoff : r'.cutoff = r.cutoff
  /-- The stored form of the state is the same. -/
  state : T.encode r'.state = T.encode r.state

/-- The cache does not see what is uncommitted. -/
theorem SnapshotCache.put_congr {S : Type} {T : AggregateType S} {r r' : Root S}
    (h : r.SameSnapshot T r') (c : SnapshotCache) (now : Instant) :
    c.put T r' now = c.put T r now := by
  have hhistory : r'.hasHistory = r.hasHistory := by simp only [Root.hasHistory, h.sequence]
  have hsnapshot : Snapshot.ofRoot? T r' now = Snapshot.ofRoot? T r now := by
    simp only [Snapshot.ofRoot?, h.sequence, h.cutoff, h.state]
  unfold put putAt accept
  rw [hhistory, hsnapshot, h.id]

/-- A root without history is not put in. -/
theorem SnapshotCache.put_of_not_hasHistory {S : Type} {T : AggregateType S} {r : Root S}
    (h : r.hasHistory = false) (c : SnapshotCache) (now : Instant) : c.put T r now = c := by
  simp [put, putAt, accept, h]

/-! ### Holding roots -/

/-- A root that application code holds. -/
structure Held {κ : Type} (S : κ → Type) where
  /-- The kind of the root. -/
  kind : κ
  /-- The root as it was loaded. -/
  loaded : Root (S kind)
  /-- The root as it is now. -/
  root : Root (S kind)

namespace Held

variable {κ : Type} {S : κ → Type} (types : ∀ k, AggregateType (S k))

/-- The root is the loaded one, with whatever was emitted on it, and the loaded one is made by its
history. -/
structure Right (log : Log) (h : Held S) : Prop where
  /-- The id is the same. -/
  id : h.root.id = h.loaded.id
  /-- The sequence number is the same. -/
  sequence : h.root.sequence = h.loaded.sequence
  /-- The cutoff is the same. -/
  cutoff : h.root.cutoff = h.loaded.cutoff
  /-- If it has history, its history has made it. -/
  made : h.loaded.hasHistory = true → h.loaded.Made (types h.kind) log

/-- The state is stored as it was when the root was loaded. -/
def Unchanged (h : Held S) : Prop :=
  (types h.kind).encode h.root.state = (types h.kind).encode h.loaded.state

/-- Emit on the root what application code emits on a root of its kind. -/
def act (script : ∀ k, Script (S k)) (h : Held S) : Held S :=
  { h with root := ((script h.kind).run (types h.kind) h.root).1 }

variable {types} {log log' : Log} {h : Held S}

/-- A state that is the same is stored in the same way. -/
theorem unchanged_of_state (hstate : h.root.state = h.loaded.state) : h.Unchanged types := by
  rw [Unchanged, hstate]

theorem Right.mono (hright : h.Right types log) (hlog : log.Consistent) (hlog' : log'.Consistent)
    (hext : log.Extends log') : h.Right types log' where
  id := hright.id
  sequence := hright.sequence
  cutoff := hright.cutoff
  made hhistory := (hright.made hhistory).mono hhistory hlog hlog' hext

/-- What is emitted changes the state only. -/
theorem Right.act (hright : h.Right types log) (script : ∀ k, Script (S k)) :
    (h.act types script).Right types log where
  id := by simpa [Held.act] using hright.id
  sequence := by simpa [Held.act] using hright.sequence
  cutoff := by simpa [Held.act] using hright.cutoff
  made := hright.made

/-- A root that has not changed may be put in. -/
theorem Right.put (hright : h.Right types log) (hunchanged : h.Unchanged types)
    (hlog : log.Consistent) {c : SnapshotCache} (hc : c.Sound types log) (now : Instant) :
    (c.put (types h.kind) h.root now).Sound types log := by
  have hsame : h.loaded.SameSnapshot (types h.kind) h.root :=
    ⟨hright.id, hright.sequence, hright.cutoff, hunchanged⟩
  rw [SnapshotCache.put_congr hsame]
  by_cases hhistory : h.loaded.hasHistory = true
  · exact hc.put hlog (hright.made hhistory) now
  · rw [SnapshotCache.put_of_not_hasHistory (by simpa using hhistory)]
    exact hc

end Held

/-- A log with its snapshots, and the roots that application code holds. -/
structure Holding {κ : Type} (S : κ → Type) where
  /-- The log, the cache and the time. -/
  backing : Backing Log
  /-- The roots, in the order in which they were loaded. -/
  held : List (Held S)

/-- What may happen to a log, its snapshots and the roots that application code holds. -/
inductive HoldStep {κ : Type} (S : κ → Type) where
  /-- The log and the cache make a step of their own. -/
  | other (step : LoadStep κ)
  /-- A root is loaded, and held if there is one. -/
  | hold (threshold : Nat) (kind : κ) (id : String) (request : LoadRequest)
  /-- Events are emitted on a root that is held. -/
  | act (place : Nat) (script : ∀ k, Script (S k))
  /-- A root that is held is put into the cache. -/
  | put (place : Nat)

section

variable {κ : Type} {S : κ → Type} (types : ∀ k, AggregateType (S k))

/-- What a step makes of the log, its snapshots and the roots that are held. -/
def HoldStep.run : HoldStep S → Holding S → Holding S
  | other step, w => { w with backing := step.run types w.backing }
  | hold threshold kind id request, w =>
    match Repository.load ⟨Log.store, threshold⟩ (types kind) id request w.backing with
    | (.ok (some root), backing) => ⟨backing, w.held ++ [⟨kind, root, root⟩]⟩
    | (_, backing) => { w with backing }
  | act place script, w => { w with held := w.held.modify place (Held.act types script) }
  | put place, w =>
    match w.held[place]? with
    | none => w
    | some h => { w with
        backing.cache := w.backing.cache.put (types h.kind) h.root w.backing.now }

/-- What steps make of the log, its snapshots and the roots that are held. -/
def HoldStep.runAll (steps : List (HoldStep S)) (w : Holding S) : Holding S :=
  steps.foldl (fun w step => step.run types w) w

/-- If the step puts in a root, its state is stored as it was when it was loaded. -/
def HoldStep.Tidy (w : Holding S) : HoldStep S → Prop
  | put place => ∀ h ∈ w.held[place]?, h.Unchanged types
  | other _ | hold _ _ _ _ | act _ _ => True

namespace Holding

/-- Nothing has happened yet, and nothing is held. -/
def fresh (limit : Nat) (now : Instant) : Holding S := ⟨Backing.fresh limit now, []⟩

/-- Every root that is put in has the state it was loaded with. -/
def Tidy : List (HoldStep S) → Holding S → Prop
  | [], _ => True
  | step :: rest, w => step.Tidy types w ∧ Tidy rest (step.run types w)

/-- The snapshots reflect the log, and so do the numbers of the roots that are held. -/
structure Sound (w : Holding S) : Prop where
  /-- The log is consistent, and every snapshot reflects it. -/
  backing : w.backing.Sound types w.backing.store
  /-- Every root that is held comes from the log. -/
  held : ∀ h ∈ w.held, h.Right types w.backing.store

variable {types}

theorem sound_fresh (limit : Nat) (now : Instant) : (fresh limit now : Holding S).Sound types where
  backing := Backing.sound_fresh types limit now
  held h hh := by simp [fresh] at hh

/-- Every tidy step keeps the snapshots right. -/
theorem Sound.run (hfaithful : AggregateType.Faithful types) {w : Holding S} (hw : w.Sound types)
    {step : HoldStep S} (htidy : step.Tidy types w) : (step.run types w).Sound types := by
  cases step with
  | other step =>
    have hb : (step.run types w.backing).Sound types (step.run types w.backing).store :=
      LoadStep.sound_run hfaithful hw.backing step
    have hext : w.backing.store.Extends (step.run types w.backing).store :=
      LoadStep.extends_runAll hfaithful [step] hw.backing
    exact ⟨hb, fun h hh => (hw.held h hh).mono hw.backing.consistent hb.consistent hext⟩
  | hold threshold kind id request =>
    obtain ⟨cache, hload, hcache⟩ :=
      Repository.load_eq_answer hw.backing hfaithful threshold kind id request
    have hb : Backing.Sound types w.backing.store { w.backing with cache } :=
      ⟨hw.backing.consistent, hcache⟩
    simp only [HoldStep.run, hload]
    split
    · rename_i root backing heq
      obtain ⟨hanswer, rfl⟩ := Prod.mk.inj heq
      refine ⟨hb, fun h hh => ?_⟩
      rcases List.mem_append.1 hh with hh | hh
      · exact hw.held h hh
      · obtain rfl : h = ⟨kind, root, root⟩ := by simpa using hh
        exact ⟨rfl, rfl, rfl, Log.made_of_answer hw.backing.consistent hanswer⟩
    · rename_i heq
      obtain ⟨_, rfl⟩ := Prod.mk.inj heq
      exact ⟨hb, hw.held⟩
  | act place script =>
    refine ⟨hw.backing, fun h hh => ?_⟩
    obtain ⟨i, hi⟩ := List.getElem?_of_mem hh
    simp only [HoldStep.run, List.getElem?_modify] at hi
    obtain ⟨h₀, hh₀, rfl⟩ := Option.map_eq_some_iff.1 hi
    have hright : h₀.Right types w.backing.store := hw.held h₀ (List.mem_of_getElem? hh₀)
    show Held.Right types w.backing.store _
    by_cases hplace : place = i
    · simpa [hplace] using hright.act script
    · simpa [hplace] using hright
  | put place =>
    simp only [HoldStep.run]
    split
    · exact hw
    · rename_i h hh
      have hcache := (hw.held h (List.mem_of_getElem? hh)).put (htidy h hh) hw.backing.consistent
        hw.backing.cache w.backing.now
      exact ⟨⟨hw.backing.consistent, hcache⟩, hw.held⟩

/-- Any tidy steps keep the snapshots right. -/
theorem Sound.runAll (hfaithful : AggregateType.Faithful types) {steps : List (HoldStep S)}
    {w : Holding S} (hw : w.Sound types) (htidy : Tidy types steps w) :
    (HoldStep.runAll types steps w).Sound types := by
  induction steps generalizing w with
  | nil => exact hw
  | cons step rest ih => exact ih (hw.run hfaithful htidy.1) htidy.2

/-- **Snapshots put in by hand are invisible, if the roots have not changed.** Take a log and a
snapshot cache that were empty. Whatever has been saved and loaded since, whatever was emitted on
roots that are held, and whichever of them have been put into the cache (`HoldStep.runAll`): if the state
of each was stored as it was when the root was loaded (`Tidy`), `Repository.load` answers what `Log.answer`
makes of the log alone, which is also what it answers with `SnapshotCache.new 0`. -/
theorem kept_snapshots_invisible (hfaithful : AggregateType.Faithful types) (limit : Nat)
    (start : Instant) (steps : List (HoldStep S)) (htidy : Tidy types steps (fresh limit start))
    (threshold : Nat) (k : κ) (id : String) (request : LoadRequest) :
    let b := (HoldStep.runAll types steps (fresh limit start)).backing
    let repo : Repository Log := ⟨Log.store, threshold⟩
    (repo.load (types k) id request b).1 = b.store.answer (types k) id request ∧
      (repo.load (types k) id request b).1
        = (repo.load (types k) id request { b with cache := SnapshotCache.new 0 }).1 := by
  intro b repo
  have hb : b.Sound types b.store := ((sound_fresh limit start).runAll hfaithful htidy).backing
  obtain ⟨_, hload, _⟩ := Repository.load_eq_answer hb hfaithful threshold k id request
  -- A cache that holds nothing is sound too.
  have huncached := Repository.load_eq_answer (b := { b with cache := SnapshotCache.new 0 })
    ⟨hb.consistent, SnapshotCache.sound_new types _ 0⟩ hfaithful threshold k id request
  obtain ⟨_, hload', _⟩ := huncached
  exact ⟨by rw [hload], by rw [hload, hload']⟩

end Holding

end

/-- An account is loaded with two of its three deposits and put into the cache after a note was
emitted on it, which no account reads. The deposit that is emitted next is not put in. -/
def Sample.tidySteps : List (HoldStep fun _ : Sample.Kind => Sample.State) :=
  [.other (.save ⟨.nil, Log.empty.continuation "a" "Deposited" (Sample.deposited.encode 5) 3⟩),
   .hold 1 .account "a" (.getAt 1),
   .act 0 fun _ => .emit (Event.new "Noted" .null) fun _ _ => .done,
   .put 0,
   .act 0 fun _ => .emit (Event.new "Deposited" (Sample.deposited.encode 5)) fun _ _ => .done]

set_option maxRecDepth 10000 in
/-- With that snapshot, an account is still what its three deposits make of it. -/
theorem Holding.kept_snapshots_invisible_noted :
    let b := (HoldStep.runAll Sample.aggregateType Sample.tidySteps
      (Holding.fresh 10 ⟨0, 0⟩)).backing
    let repo : Repository Log := ⟨Log.store, 9⟩
    b.cache.count = 1 ∧
      (repo.load (Sample.aggregateType .account) "a" .get b).1
        = b.store.answer (Sample.aggregateType .account) "a" .get ∧
      (repo.load (Sample.aggregateType .account) "a" .get b).1
        = (repo.load (Sample.aggregateType .account) "a" .get
            { b with cache := SnapshotCache.new 0 }).1 := by
  have hput : ∀ h ∈ (HoldStep.runAll Sample.aggregateType (Sample.tidySteps.take 3)
      (Holding.fresh 10 ⟨0, 0⟩)).held[0]?, h.root.state = h.loaded.state := by decide +kernel
  exact ⟨by decide +kernel, Holding.kept_snapshots_invisible Sample.faithful_aggregateType 10 ⟨0, 0⟩
    Sample.tidySteps ⟨trivial, trivial, trivial, fun h hh => Held.unchanged_of_state (hput h hh),
      trivial, trivial⟩ 9 .account "a" .get⟩

/-! ### What comes back -/

/-- The snapshot that is cut at the position that is asked for is the newest one. -/
theorem SnapshotCache.newest?_eq_some {bound : Int} {entries : List (Int × Snapshot)} {s : Snapshot}
    (hnodup : (entries.map Prod.fst).Nodup) (hkeyed : ∀ e ∈ entries, e.2.cutoff = e.1)
    (hs : (bound, s) ∈ entries) : newest? bound entries = some s := by
  induction entries with
  | nil => simp at hs
  | cons e rest ih =>
    obtain ⟨cutoff, s₀⟩ := e
    simp only [List.map_cons, List.nodup_cons] at hnodup
    have hrest : ∀ e ∈ rest, e.2.cutoff = e.1 := fun e he => hkeyed e (List.mem_cons_of_mem _ he)
    rcases List.mem_cons.1 hs with heq | hs
    · obtain ⟨rfl, rfl⟩ := Prod.mk.inj heq
      rcases hnewest : newest? bound rest with _ | best
      · simp [newest?, hnewest]
      · -- The others are cut earlier: no two of them are cut at the same position.
        obtain ⟨cutoff, hbest, hle⟩ := mem_of_newest? hnewest
        have hne : cutoff ≠ bound := by
          rintro rfl
          exact hnodup.1 (List.mem_map_of_mem hbest)
        have hlt : best.cutoff < bound := by
          rw [hrest _ hbest]
          show cutoff < bound
          omega
        simp [newest?, hnewest, hlt]
    · have hsame : s.cutoff = bound := hrest _ hs
      have hlt : ¬ (cutoff ≤ bound ∧ s.cutoff < cutoff) := by omega
      simp only [newest?, ih hnodup.2 hrest hs, hlt, if_false]

/-- If there is room for the snapshot of a root, the cache gives the root back as it was put in. -/
theorem SnapshotCache.lookup_put {S : Type} {T : AggregateType S} {r : Root S} {c : SnapshotCache}
    (hkeyed : c.Keyed) (hhistory : r.hasHistory = true) (hroom : c.count < c.limit)
    (hvacant : (c.ofRoot r.id).contains r.cutoff = false)
    (hread : (T.encode r.state).bind T.decode = some r.state) (now now' : Instant) :
    ((c.put T r now).lookup T r.id r.cutoff now').1 = some r.drained := by
  obtain ⟨data, hdata, hstate⟩ := Option.bind_eq_some_iff.1 hread
  have hactive : c.isDisabled = false := by
    simp only [isDisabled, decide_eq_false_iff_not]
    omega
  -- The new snapshot needs no trim, so it is kept under its cutoff.
  have hput : c.put T r now = { c with
      entries := c.entries.insert r.id ((c.ofRoot r.id).insert r.cutoff
        ⟨T.name, r.sequence, r.cutoff, data, 0, now.micros⟩)
      count := c.count + 1 } := by
    have hfits : c.count + 1 ≤ c.limit := hroom
    simp [put, putAt, accept, store, trimAt, hactive, hhistory, Snapshot.ofRoot?, hdata, hvacant,
      hfits]
  have hmem := (Table.mem_entries_insert (c.ofRoot r.id) r.cutoff r.cutoff
    ⟨T.name, r.sequence, r.cutoff, data, 0, now.micros⟩ _).2 (.inl ⟨rfl, rfl⟩)
  have hnewest := newest?_eq_some (Table.nodup_keys _) (fun e he => ?_) hmem
  · have hroot : (c.put T r now).ofRoot r.id = (c.ofRoot r.id).insert r.cutoff
        ⟨T.name, r.sequence, r.cutoff, data, 0, now.micros⟩ := by
      rw [hput, ofRoot, Table.get?_insert_self]
      rfl
    simp [lookup, hroot, hnewest, Snapshot.toRoot?, hstate, Root.drained]
  · rcases (Table.mem_entries_insert _ _ _ _ _).1 he with ⟨hcutoff, hs⟩ | ⟨_, hold⟩
    · rw [hs, hcutoff]
    · exact hkeyed hold

/-- Nothing comes next in the history up to the cutoff of a root that is held: a replay from it ends
where it starts. -/
theorem Held.Right.replayFrom_drained {κ : Type} {S : κ → Type} {types : ∀ k, AggregateType (S k)}
    {log : Log} {h : Held S} (hright : h.Right types log) (hlog : log.Consistent)
    (hhistory : h.loaded.hasHistory = true) :
    h.root.drained.replayFrom (types h.kind) h.loaded.cutoff 0
      ((log.load h.loaded.id (h.root.drained.sequence + 1)).map .ok) = .ok (h.root.drained, 0) := by
  have hmade := hright.made hhistory
  have hfrom := Repository.StartsFrom.of_ofHistory hlog hmade (Int.le_refl _)
  have hnil : (log.load h.loaded.id (h.loaded.sequence + 1)).filter
      (Event.upTo h.loaded.cutoff) = [] := by
    have hlength := (Root.foldlM_advance_eq_ok (hfrom.replay.symm.trans hmade)).2.1
    apply List.eq_nil_of_length_eq_zero
    omega
  have hsequence : h.root.drained.sequence = h.loaded.sequence := hright.sequence
  rw [hsequence, Root.replayFrom_eq (by simpa [hsequence] using hfrom.order), hnil]
  rfl

/-- A replay starts from the snapshot that the cache finds. -/
theorem Repository.startingPoint_of_lookup {σ S : Type} {T : AggregateType S} {id : String}
    {bound : Int} {b : Backing σ} {root : Root S}
    (h : (b.cache.lookup T id bound b.now).1 = some root) :
    ∃ cache, startingPoint T id bound b = (root, { b with cache }) := by
  unfold startingPoint
  rcases hfound : b.cache.lookup T id bound b.now with ⟨found, cache⟩
  obtain rfl : found = some root := by rw [← h, hfound]
  exact ⟨cache, rfl⟩

/-- **What is put into the cache comes back.** If there is room for the snapshot of a root that is
held, a load at its cutoff answers the root as it was put in, while the log alone says the root that
was loaded. -/
theorem Repository.getAt_put {κ : Type} {S : κ → Type} {types : ∀ k, AggregateType (S k)}
    {b : Backing Log} (hb : b.Sound types b.store) {h : Held S} (hright : h.Right types b.store)
    (hhistory : h.loaded.hasHistory = true) (hroom : b.cache.count < b.cache.limit)
    (hvacant : (b.cache.ofRoot h.loaded.id).contains h.loaded.cutoff = false)
    (hread : ((types h.kind).encode h.root.state).bind (types h.kind).decode = some h.root.state)
    (threshold : Nat) :
    (Repository.load ⟨Log.store, threshold⟩ (types h.kind) h.loaded.id (.getAt h.loaded.cutoff)
        { b with cache := b.cache.put (types h.kind) h.root b.now }).1 = .ok (some h.root.drained) ∧
      b.store.answer (types h.kind) h.loaded.id (.getAt h.loaded.cutoff) = .ok (some h.loaded) := by
  constructor
  · -- The snapshot is found, and nothing is replayed on it.
    have hhistory' : h.root.drained.hasHistory = true := by
      simpa [Root.hasHistory, Root.drained, hright.sequence] using hhistory
    have hlookup := SnapshotCache.lookup_put (r := h.root) hb.cache.keyed hhistory' hroom
      (by simpa [hright.id, hright.cutoff] using hvacant) hread b.now b.now
    rw [hright.id, hright.cutoff] at hlookup
    obtain ⟨cache, hstart⟩ := startingPoint_of_lookup
      (b := { b with cache := b.cache.put (types h.kind) h.root b.now }) hlookup
    have hload : ∀ first, Log.store.load h.loaded.id first b.store
        = (.ok ((b.store.load h.loaded.id first).map .ok), b.store) := fun _ => rfl
    rw [load_eq]
    simp only [LoadRequest.bound, hydrate, hstart, hload,
      hright.replayFrom_drained hb.consistent hhistory, hhistory', if_true]
  · simp only [Log.answer, LoadRequest.bound, Log.replay_eq]
    rw [hright.made hhistory]
    simp [Except.map, hhistory]

/-- An account with one deposit is loaded and held, another deposit is emitted on it, and it is put
into the cache. -/
def Sample.phantomSteps : List (HoldStep fun _ : Sample.Kind => Sample.State) :=
  [.other (.save ⟨.nil, Log.empty.continuation "a" "Deposited" (Sample.deposited.encode 5) 1⟩),
   .hold 1 .account "a" .get,
   .act 0 fun _ => .emit (Event.new "Deposited" (Sample.deposited.encode 5)) fun _ _ => .done,
   .put 0]

set_option maxRecDepth 10000 in
/-- A deposit that was never committed is in the balance, and after it has been committed it is there
twice. -/
theorem Holding.kept_snapshots_visible :
    let repo : Repository Log := ⟨Log.store, 1⟩
    let w := HoldStep.runAll Sample.aggregateType Sample.phantomSteps (Holding.fresh 10 ⟨0, 0⟩)
    let w' := HoldStep.run Sample.aggregateType (.other (.save ⟨.nil,
      (Log.empty.continuation "a" "Deposited" (Sample.deposited.encode 5) 2).drop 1⟩)) w
    let balance := fun (answer : Except RepositoryError (Option (Root Sample.State))) =>
      answer.toOption.join.map Root.state
    balance (repo.load (Sample.aggregateType .account) "a" .get w.backing).1
        = some (.account 10) ∧
      balance (w.backing.store.answer (Sample.aggregateType .account) "a" .get)
        = some (.account 5) ∧
      balance (repo.load (Sample.aggregateType .account) "a" .get w'.backing).1
        = some (.account 15) ∧
      balance (w'.backing.store.answer (Sample.aggregateType .account) "a" .get)
        = some (.account 10) := by
  decide +kernel

end Chronicle
