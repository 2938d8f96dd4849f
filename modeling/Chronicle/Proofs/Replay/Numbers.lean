import Chronicle.Proofs.Replay.Loading

namespace Chronicle

/-!
# Numbers of roots and snapshots, whatever their states are

* `Repository.hydrate_eq_ok` — a root that a repository finds, with any store, has the wanted id and
  history, and nothing uncommitted.
* `Root.NumberedBy` — the numbers of a root are those of its last event.
* `SnapshotCache.Numbered` — the numbers of every snapshot are those of the history up to its cutoff.
  Nothing is said about the states, so nothing is asked of the types.
* `Repository.hydrate_numbers` — a replay that starts from such a snapshot goes on to the end of the
  history, or up to its bound.
* `SnapshotCache.Filled` — a cache that has got its contents from loads, at any moments in which the
  log was as it is or shorter.
-/

/-! ### Roots that a repository finds -/

section

variable {σ S : Type} {T : AggregateType S} {id : String} {bound : Int} {b : Backing σ}

/-- A replay leaves the id and the uncommitted events alone. -/
theorem Root.replayFrom_eq_ok {n n' : Nat} {r r' : Root S} {events : EventStream}
    (h : r.replayFrom T bound n events = .ok (r', n')) :
    r'.id = r.id ∧ r'.uncommitted = r.uncommitted := by
  induction events generalizing n r with
  | nil =>
    cases h
    exact ⟨rfl, rfl⟩
  | cons item rest ih =>
    rcases item with err | e
    · cases h
    · unfold replayFrom at h
      split at h
      · cases h
      · split at h
        · cases h
          exact ⟨rfl, rfl⟩
        · split at h
          · cases h
          · split at h
            · cases h
            · split at h
              · cases h
              · rename_i r₁ hr
                obtain ⟨hid, huncommitted⟩ := ih h
                unfold replay at hr
                split at hr
                · cases hr
                  exact ⟨hid, huncommitted⟩
                · cases hr

namespace Repository

/-- A replay starts from a root with the wanted id and nothing uncommitted. -/
theorem startingPoint_fst (T : AggregateType S) (id : String) (bound : Int) (b : Backing σ) :
    (startingPoint T id bound b).1.id = id ∧ (startingPoint T id bound b).1.uncommitted = [] := by
  unfold startingPoint
  rcases SnapshotCache.lookup_cases T id bound b.now b.cache with h | ⟨_, s, root, _, _, hroot, h⟩
  · rw [h]
    exact ⟨rfl, rfl⟩
  · rw [h]
    unfold Snapshot.toRoot? at hroot
    split at hroot
    · obtain ⟨_, _, rfl⟩ := Option.map_eq_some_iff.1 hroot
      exact ⟨rfl, rfl⟩
    · cases hroot

/-- A replay reads the events after its starting point and applies them, unless it fails. -/
theorem hydrate_steps (repo : Repository σ) (T : AggregateType S) (id : String) (bound : Int)
    (b : Backing σ) :
    let start := startingPoint T id bound b
    let loaded := repo.store.load id (start.1.sequence + 1) start.2.store
    (∃ err, repo.hydrate T id bound b = (.error err, { start.2 with store := loaded.2 })) ∨
    ∃ stream root n, loaded.1 = .ok stream ∧ start.1.replayFrom T bound 0 stream = .ok (root, n) ∧
      repo.hydrate T id bound b
        = if root.hasHistory then
            (.ok (some root), repo.keep T root n { start.2 with store := loaded.2 })
          else (.ok none, { start.2 with store := loaded.2 }) := by
  unfold hydrate
  rcases startingPoint T id bound b with ⟨start, b₀⟩
  simp only
  rcases repo.store.load id (start.sequence + 1) b₀.store with ⟨err | stream, store⟩
  · exact .inl ⟨_, rfl⟩
  · simp only
    rcases hreplay : start.replayFrom T bound 0 stream with err | ⟨root, n⟩
    · exact .inl ⟨_, rfl⟩
    · exact .inr ⟨stream, root, n, rfl, hreplay, rfl⟩

/-- A root that is found has the wanted id and history, and nothing uncommitted. -/
theorem hydrate_eq_ok {repo : Repository σ} {root : Root S}
    (h : (repo.hydrate T id bound b).1 = .ok (some root)) :
    root.id = id ∧ root.uncommitted = [] ∧ root.hasHistory = true := by
  obtain ⟨hid, huncommitted⟩ := startingPoint_fst T id bound b
  rcases repo.hydrate_steps T id bound b with ⟨err, hfailed⟩ | ⟨_, r, _, _, hreplay, hanswer⟩
  · rw [hfailed] at h
    cases h
  · obtain ⟨hid', huncommitted'⟩ := Root.replayFrom_eq_ok hreplay
    rw [hanswer] at h
    split at h
    · rename_i hhistory
      cases h
      exact ⟨hid'.trans hid, huncommitted'.trans huncommitted, hhistory⟩
    · cases h

end Repository

end

/-! ### Numbers -/

section

variable {S : Type} {T : AggregateType S} {log log' : Log} {id : String}

/-- The root has been made by so many events, and is cut at the last one. -/
structure Root.NumberedBy (events : List Event) (r : Root S) : Prop where
  /-- The root is numbered like the last event. -/
  sequence : r.sequence + 1 = events.length
  /-- The root is cut at the last event. -/
  cutoff : ∀ last, events.getLast? = some last → last.position = .ok r.cutoff

theorem Root.numberedBy_new (T : AggregateType S) (id : String) : (new T id).NumberedBy [] where
  sequence := rfl
  cutoff := by simp

/-- More events go on from there. -/
theorem Root.NumberedBy.advance {events later : List Event} {r r' : Root S} (h : r.NumberedBy events)
    (hr : later.foldlM (Root.advance T) r = .ok r') : r'.NumberedBy (events ++ later) := by
  obtain ⟨_, hsequence, _, hcutoff⟩ := Root.foldlM_advance_eq_ok hr
  refine ⟨?_, fun last hlast => ?_⟩
  · rw [hsequence, List.length_append]
    have := h.sequence
    omega
  · rcases List.eq_nil_or_concat later with rfl | ⟨_, _, rfl⟩
    · cases hr
      rw [List.append_nil] at hlast
      exact h.cutoff last hlast
    · rw [List.getLast?_append_of_ne_nil _ (by simp)] at hlast
      exact hcutoff last hlast

/-- The root has history if it has been made by an event. -/
theorem Root.NumberedBy.hasHistory_iff {events : List Event} {r : Root S} (h : r.NumberedBy events) :
    r.hasHistory = true ↔ events ≠ [] := by
  rw [hasHistory, decide_eq_true_eq, ← List.length_pos_iff]
  have := h.sequence
  unfold noNumber
  omega

/-- A root with history is numbered by the history up to its cutoff, also when the log has grown. -/
theorem Root.NumberedBy.mono {bound : Int} {r : Root S}
    (h : r.NumberedBy ((log.history id).filter (Event.upTo bound))) (hhistory : r.hasHistory = true)
    (hlog : log.Consistent) (hlog' : log'.Consistent) (hext : log.Extends log') :
    r.NumberedBy ((log'.history id).filter (Event.upTo r.cutoff)) := by
  have hlast := List.getLast?_eq_some_getLast (h.hasHistory_iff.1 hhistory)
  have hposition := h.cutoff _ hlast
  have hmem := (List.mem_filter.1 (List.mem_of_getLast? hlast)).1
  have hlt := hlog.position_lt_size (Log.mem_history.1 hmem).1 hposition
  rw [hlog'.filter_upTo_extends hext hlt, (hlog.inOrder id).filter_upTo_last hlast hposition]
  exact h

/-- A snapshot has the numbers that the history of a root up to its cutoff gives. -/
structure Snapshot.NumberedIn (log : Log) (id : String) (s : Snapshot) : Prop where
  /-- It is numbered like the last event. -/
  sequence : s.sequence + 1 = ((log.history id).filter (Event.upTo s.cutoff)).length
  /-- It is cut at the last event. -/
  cutoff : ∃ last, ((log.history id).filter (Event.upTo s.cutoff)).getLast? = some last ∧
    last.position = .ok s.cutoff

namespace Snapshot.NumberedIn

variable {s s' : Snapshot}

theorem sameContent (h : s.NumberedIn log id) (hsame : s.SameContent s') : s'.NumberedIn log id := by
  constructor
  · rw [hsame.sequence, hsame.cutoff]
    exact h.sequence
  · rw [hsame.cutoff]
    exact h.cutoff

/-- Later commits are behind the cutoff. -/
theorem mono (h : s.NumberedIn log id) (hlog : log.Consistent) (hlog' : log'.Consistent)
    (hext : log.Extends log') : s.NumberedIn log' id := by
  obtain ⟨last, hlast, hposition⟩ := h.cutoff
  have hmem := (List.mem_filter.1 (List.mem_of_getLast? hlast)).1
  have hlt := hlog.position_lt_size (Log.mem_history.1 hmem).1 hposition
  have hsame := hlog'.filter_upTo_extends hext hlt id
  exact ⟨by rw [hsame]; exact h.sequence, last, by rw [hsame]; exact hlast, hposition⟩

/-- The snapshot of a root that has been replayed up to some bound. -/
theorem of_root (hlog : log.Consistent) {bound : Int} {r : Root S}
    (h : r.NumberedBy ((log.history id).filter (Event.upTo bound))) (hhistory : r.hasHistory = true)
    (hsequence : s.sequence = r.sequence) (hcutoff : s.cutoff = r.cutoff) : s.NumberedIn log id := by
  have hne := h.hasHistory_iff.1 hhistory
  have hlast := List.getLast?_eq_some_getLast hne
  have hposition := h.cutoff _ hlast
  -- The snapshot is cut at the last event that was replayed, not at the bound.
  have hsame := (hlog.inOrder id).filter_upTo_last hlast hposition
  rw [← hcutoff] at hsame hposition
  exact ⟨by rw [hsame, hsequence]; exact h.sequence, _, by rw [hsame]; exact hlast, hposition⟩

end Snapshot.NumberedIn

end

namespace SnapshotCache

variable {S : Type} {log log' : Log} {c c' : SnapshotCache}

/-- Every snapshot has the numbers of the history up to its cutoff. -/
structure Numbered (log : Log) (c : SnapshotCache) : Prop where
  /-- Every snapshot is kept under its own cutoff. -/
  keyed : c.Keyed
  /-- Every snapshot is numbered like the history of its root up to its cutoff. -/
  numbered : ∀ {id : String} {cutoff : Int} {s : Snapshot}, c.Holds id cutoff s → s.NumberedIn log id

theorem numbered_new (log : Log) (limit : Nat) : (new limit).Numbered log where
  keyed _ _ _ h := absurd h (not_holds_new _ _ _ _)
  numbered h := absurd h (not_holds_new _ _ _ _)

theorem Numbered.within (h : c.Numbered log) (hwithin : c'.Within c) : c'.Numbered log where
  keyed := h.keyed.within hwithin
  numbered := by
    intro id cutoff s' hs'
    obtain ⟨s, hs, hsame⟩ := hwithin hs'
    exact (h.numbered hs).sameContent hsame

theorem Numbered.mono (h : c.Numbered log) (hlog : log.Consistent) (hlog' : log'.Consistent)
    (hext : log.Extends log') : c.Numbered log' where
  keyed := h.keyed
  numbered hs := (h.numbered hs).mono hlog hlog' hext

/-- A root that a replay has numbered can be put in. -/
theorem Numbered.put (h : c.Numbered log) (hlog : log.Consistent) {T : AggregateType S} {id : String}
    {bound : Int} {r : Root S} (hid : r.id = id)
    (hr : r.NumberedBy ((log.history id).filter (Event.upTo bound))) (now : Instant) :
    (c.put T r now).Numbered log where
  keyed := by
    intro id' cutoff s hs
    rcases holds_of_holds_put hs with hs | ⟨_, _, hcutoff, _⟩
    · exact h.keyed hs
    · exact hcutoff.symm
  numbered := by
    intro id' cutoff s hs
    rcases holds_of_holds_put hs with hs | ⟨hs, hid', _, hhistory⟩
    · exact h.numbered hs
    · obtain ⟨_, _, rfl⟩ := Option.map_eq_some_iff.1 hs
      rw [hid', hid]
      exact .of_root hlog hr hhistory rfl rfl

end SnapshotCache

/-! ### Replays -/

namespace Repository

variable {σ S : Type} {log : Log} {b : Backing σ}

/-- A replay starts from a root without history or from a snapshot; either way, the events that come
next complete the history up to the bound. -/
theorem startingPoint_numbers (hlog : log.Consistent) (hcache : b.cache.Numbered log)
    (T : AggregateType S) (id : String) (bound : Int) :
    ∃ start cache earlier, startingPoint T id bound b = (start, { b with cache }) ∧
      cache.Numbered log ∧ start.NumberedBy earlier ∧
      (log.history id).filter (Event.upTo bound)
        = earlier ++ (log.load id (start.sequence + 1)).filter (Event.upTo bound) ∧
      Event.InOrder (start.sequence + 1) (log.load id (start.sequence + 1)) := by
  have horder := hlog.inOrder id
  have hwithin := SnapshotCache.within_lookup hcache.keyed T id bound b.now
  unfold startingPoint
  rcases SnapshotCache.lookup_cases T id bound b.now b.cache with
    h | ⟨cutoff, s, root, hs, hle, hroot, h⟩
  · rw [h]
    refine ⟨_, _, [], rfl, hcache, Root.numberedBy_new T id, ?_, ?_⟩
    · rw [hlog.load_eq]
      rfl
    · rw [hlog.load_eq]
      exact horder
  · rw [h] at hwithin ⊢
    have hnumbered := hcache.numbered hs
    obtain ⟨hsequence, hcutoff⟩ : root.sequence = s.sequence ∧ root.cutoff = s.cutoff := by
      unfold Snapshot.toRoot? at hroot
      split at hroot
      · obtain ⟨_, _, rfl⟩ := Option.map_eq_some_iff.1 hroot
        exact ⟨rfl, rfl⟩
      · cases hroot
    -- The snapshot has seen the first `n` events, and `n` is the next sequence number.
    generalize hn : ((log.history id).filter (Event.upTo s.cutoff)).length = n
    have hnext : root.sequence + 1 = n := by rw [hsequence, hnumbered.sequence, hn]
    have hn' : n ≤ (log.history id).length := hn ▸ List.length_filter_le _ _
    have hload : log.load id (root.sequence + 1) = (log.history id).drop n := by
      rw [hlog.load_eq, hnext, Int.toNat_natCast]
    refine ⟨_, _, (log.history id).filter (Event.upTo s.cutoff), rfl, hcache.within hwithin,
      ⟨by rw [hnext, hn], fun last hlast => ?_⟩, ?_, ?_⟩
    · obtain ⟨last', hlast', hposition⟩ := hnumbered.cutoff
      cases hlast.symm.trans hlast'
      rw [hposition, hcutoff]
    · rw [hload, ← hn]
      exact horder.filter_upTo (hcache.keyed hs ▸ hle)
    · rw [hload, hnext]
      simpa using horder.drop n hn'

/-- What a repository finds is numbered by the history up to the bound, and it finds nothing only if
there is no such event. If the store fails, there may be an error instead. -/
theorem hydrate_numbers (repo : Repository σ) (hlog : log.Consistent) (hcache : b.cache.Numbered log)
    (T : AggregateType S) (id : String) (bound : Int) {store : σ} {fault : Option Fault}
    (hload : ∀ first, repo.store.load id first b.store
      = (Fault.read fault (log.load id first), store)) :
    ∃ answer cache, repo.hydrate T id bound b = (answer, { b with store, cache }) ∧
      cache.Numbered log ∧
      (∀ root, answer = .ok (some root) →
        root.NumberedBy ((log.history id).filter (Event.upTo bound))) ∧
      (answer = .ok none → (log.history id).filter (Event.upTo bound) = []) := by
  obtain ⟨start, cache, earlier, hstart, hcache', hnumbered, hcomplete, horder⟩ :=
    startingPoint_numbers hlog hcache T id bound
  have hsteps := repo.hydrate_steps T id bound b
  have hid := (startingPoint_fst T id bound b).1
  simp only [hstart, hload] at hsteps hid
  rcases hsteps with ⟨err, hfailed⟩ | ⟨stream, root, n, hstream, hreplay, hanswer⟩
  · exact ⟨_, cache, hfailed, hcache', nofun, nofun⟩
  · -- What the stream leaves out, the replay has not needed.
    have hfull : start.replayFrom T bound 0 ((log.load id (start.sequence + 1)).map .ok)
        = .ok (root, n) := by
      rcases fault with _ | ⟨err⟩ | ⟨item⟩
      · cases hstream
        exact hreplay
      · cases hstream
      · cases hstream
        rcases start.replayFrom_breakOff T bound 0 (log.load id (start.sequence + 1)) item with h | h
        · rwa [h] at hreplay
        · rw [h] at hreplay
          cases hreplay
    have hroot : root.NumberedBy ((log.history id).filter (Event.upTo bound)) := by
      rw [Root.replayFrom_eq horder] at hfull
      rw [hcomplete]
      cases hadvance : ((log.load id (start.sequence + 1)).filter (Event.upTo bound)).foldlM
          (Root.advance T) start with
      | error err =>
        rw [hadvance] at hfull
        cases hfull
      | ok r =>
        rw [hadvance] at hfull
        cases hfull
        exact hnumbered.advance hadvance
    split at hanswer
    · have hkept : ∃ cache', repo.keep T root n { b with store, cache }
          = { b with store, cache := cache' } ∧ cache'.Numbered log := by
        unfold keep
        split
        · exact ⟨_, rfl, hcache'.put hlog ((Root.replayFrom_eq_ok hreplay).1.trans hid) hroot b.now⟩
        · exact ⟨_, rfl, hcache'⟩
      obtain ⟨cache', hkeep, hnumbered'⟩ := hkept
      rw [hkeep] at hanswer
      refine ⟨_, cache', hanswer, hnumbered', fun root' h => ?_, nofun⟩
      cases h
      exact hroot
    · rename_i hhistory
      refine ⟨_, cache, hanswer, hcache', nofun, fun _ => ?_⟩
      by_contra hne
      exact hhistory (hroot.hasHistory_iff.2 hne)

end Repository

/-! ### Caches that loads have filled -/

section

variable {κ : Type} {S : κ → Type} (types : ∀ k, AggregateType (S k))

/-- A cache may be in a state while the log is in a state: it was empty when the log was, the log has
grown, and the cache has been looked up and trimmed, and has got roots that were loaded with a cache
of this sort. Nothing is said about who does so, or in which order. -/
inductive SnapshotCache.Filled : Log → SnapshotCache → Prop
  /-- There is nothing yet. -/
  | new (limit : Nat) : Filled Log.empty (SnapshotCache.new limit)
  /-- A batch is saved, or rejected. -/
  | save {log : Log} {c : SnapshotCache} (s : Save) : Filled log c →
      Filled (log.save s.batch s.events).2 c
  /-- A snapshot is looked up. -/
  | lookup {log : Log} {c : SnapshotCache} (kind : κ) (id : String) (bound : Int) (now : Instant) :
      Filled log c → Filled log (c.lookup (types kind) id bound now).2
  /-- The cache is trimmed. -/
  | trim {log : Log} {c : SnapshotCache} (now : Instant) : Filled log c → Filled log (c.trim now)
  /-- The limit of the cache changes. -/
  | setLimit {log : Log} {c : SnapshotCache} (limit : Nat) (now : Instant) : Filled log c →
      Filled log (c.setLimit limit now)
  /-- A root that was loaded is put in. The load may have met an earlier log, and have used another
  cache, or this one as it was then. -/
  | put {log : Log} {c : SnapshotCache} {b : Backing Log} {threshold : Nat} {kind : κ} {id : String}
      {bound : Int} {root : Root (S kind)} (now : Instant) : Filled log c → b.store.Extends log →
      Filled b.store b.cache →
      (Repository.hydrate ⟨Log.store, threshold⟩ (types kind) id bound b).1 = .ok (some root) →
      Filled log (c.put (types kind) root now)

namespace SnapshotCache.Filled

variable {types} {log : Log} {c : SnapshotCache}

/-- Such a cache is numbered by the log. -/
theorem numbered (h : Filled types log c) : log.Consistent ∧ c.Numbered log := by
  induction h with
  | new limit => exact ⟨Log.consistent_empty, numbered_new _ limit⟩
  | save s _ ih =>
    obtain ⟨hlog, hcache⟩ := ih
    exact ⟨hlog.save _ _, hcache.mono hlog (hlog.save _ _) ⟨_, (hlog.save_spec s).1.symm⟩⟩
  | lookup kind id bound now _ ih =>
    exact ⟨ih.1, ih.2.within (within_lookup ih.2.keyed _ _ _ _)⟩
  | trim now _ ih => exact ⟨ih.1, ih.2.within (within_trim _ _)⟩
  | setLimit limit now _ ih => exact ⟨ih.1, ih.2.within (within_setLimit _ _ _)⟩
  | @put log c b threshold kind id bound root now _ hext _ hroot ih ihload =>
    obtain ⟨hlog, hcache⟩ := ih
    have hload : ∀ first, Log.store.load id first b.store
        = (Fault.read none (b.store.load id first), b.store) := fun _ => rfl
    obtain ⟨answer, _, hhydrate, _, hnumbers, _⟩ := Repository.hydrate_numbers
      ⟨Log.store, threshold⟩ ihload.1 ihload.2 (types kind) id bound hload
    have hanswer : answer = .ok (some root) := by rw [← hroot, hhydrate]
    obtain ⟨hid, _, hhistory⟩ := Repository.hydrate_eq_ok hroot
    exact ⟨hlog,
      hcache.put hlog hid ((hnumbers root hanswer).mono hhistory ihload.1 hlog hext) now⟩

/-- A cache without snapshots is of this sort too. -/
theorem uncached (h : Filled types log c) (limit : Nat) :
    Filled types log (SnapshotCache.new limit) := by
  induction h with
  | new _ => exact .new limit
  | save s _ ih => exact ih.save s
  | lookup _ _ _ _ _ ih => exact ih
  | trim _ _ ih => exact ih
  | setLimit _ _ _ ih => exact ih
  | put _ _ _ _ _ ih _ => exact ih

/-- If stored states are read as they were stored, every snapshot reflects the log. -/
theorem sound (hfaithful : AggregateType.Faithful types) (h : Filled types log c) :
    c.Sound types log := by
  induction h with
  | new limit => exact sound_new types _ limit
  | save s h ih =>
    have hlog := h.numbered.1
    exact ih.mono hlog (hlog.save _ _) ⟨_, (hlog.save_spec s).1.symm⟩
  | lookup kind id bound now _ ih => exact ih.within (within_lookup ih.keyed _ _ _ _)
  | trim now _ ih => exact ih.within (within_trim _ _)
  | setLimit limit now _ ih => exact ih.within (within_setLimit _ _ _)
  | @put log c b threshold kind id bound root now h hext hload hroot ih ihload =>
    have hlog := h.numbered.1
    have hearlier := hload.numbered.1
    have hanswers : ∀ first, Log.store.load id first b.store
        = (Fault.read none (b.store.load id first), b.store) := fun _ => rfl
    obtain ⟨answer, _, hhydrate, _, hanswer | ⟨hnone, _⟩⟩ := Repository.hydrate_cases
      ⟨Log.store, threshold⟩ ⟨hearlier, ihload⟩ hfaithful kind id bound hanswers
    · have hreplay : b.store.replay (types kind) id bound = .ok (some root) := by
        rw [← hanswer, ← hroot, hhydrate]
      have hmade := Log.ofHistory_of_replay hreplay
      obtain ⟨_, _, hhistory⟩ := Repository.hydrate_eq_ok hroot
      exact ih.put hlog (Root.ofHistory_cutoff hearlier hlog hext hmade hhistory) now
    · exact absurd rfl hnone

/-- Saves do not touch the cache. -/
theorem saveAll (h : Filled types log c) (calls : List Save) :
    Filled types (log.saveAll calls).2 c := by
  induction calls generalizing log with
  | nil => exact h
  | cons s rest ih => exact ih (h.save s)

/-- A replay looks up a snapshot and may put in what it has found. -/
theorem hydrate {b : Backing Log} (h : Filled types b.store b.cache) (threshold : Nat) (kind : κ)
    (id : String) (bound : Int) :
    Filled types (Repository.hydrate ⟨Log.store, threshold⟩ (types kind) id bound b).2.store
      (Repository.hydrate ⟨Log.store, threshold⟩ (types kind) id bound b).2.cache := by
  obtain ⟨start, hstart⟩ : ∃ start, Repository.startingPoint (types kind) id bound b
      = (start, { b with cache := (b.cache.lookup (types kind) id bound b.now).2 }) := by
    unfold Repository.startingPoint
    rcases b.cache.lookup (types kind) id bound b.now with ⟨_ | root, cache⟩ <;> exact ⟨_, rfl⟩
  have hlookup := h.lookup kind id bound b.now
  have hsteps := Repository.hydrate_steps ⟨Log.store, threshold⟩ (types kind) id bound b
  simp only [hstart] at hsteps
  rcases hsteps with ⟨err, hfailed⟩ | ⟨stream, root, n, _, _, hanswer⟩
  · rw [hfailed]
    exact hlookup
  · split at hanswer
    · have hfound : (Repository.hydrate ⟨Log.store, threshold⟩ (types kind) id bound b).1
          = .ok (some root) := by rw [hanswer]
      rw [hanswer]
      unfold Repository.keep
      split
      · exact hlookup.put b.now (.refl _) h hfound
      · exact hlookup
    · rw [hanswer]
      exact hlookup

end SnapshotCache.Filled

/-- The caches that come about by saves, loads, lookups, trims and changes of the limit are such. -/
theorem LoadStep.filled_runAll (limit : Nat) (start : Instant) (steps : List (LoadStep κ)) :
    SnapshotCache.Filled types (runAll types steps (Backing.fresh limit start)).store
      (runAll types steps (Backing.fresh limit start)).cache := by
  -- Every step keeps such a cache such.
  have hrun : ∀ (step : LoadStep κ) (b : Backing Log), SnapshotCache.Filled types b.store b.cache →
      SnapshotCache.Filled types (step.run types b).store (step.run types b).cache := by
    intro step b h
    cases step with
    | save s => exact h.save s
    | load threshold kind id request =>
      have hload := h.hydrate threshold kind id request.bound
      have hrun : (LoadStep.load threshold kind id request).run types b
          = (Repository.hydrate ⟨Log.store, threshold⟩ (types kind) id request.bound b).2 := by
        show (Repository.load _ _ _ _ _).2 = _
        rw [Repository.load_eq]
      rw [hrun]
      exact hload
    | lookup kind id bound => exact h.lookup kind id bound b.now
    | trim => exact h.trim b.now
    | setLimit limit => exact h.setLimit limit b.now
    | setClock now => exact h
  have hall : ∀ b : Backing Log, SnapshotCache.Filled types b.store b.cache →
      SnapshotCache.Filled types (runAll types steps b).store (runAll types steps b).cache := by
    induction steps with
    | nil => exact fun b h => h
    | cons step rest ih => exact fun b h => ih _ (hrun step b h)
  exact hall _ (.new limit)

end

end Chronicle
