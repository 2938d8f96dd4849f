import Chronicle.Proofs.Snapshot.Trimming

namespace Chronicle

/-!
# Calls of a snapshot cache

A call reads a clock that may run while it works: a put reads it for the snapshot and then for each
pass of its trim.

* `SnapshotCache.Keyed.lookup_of_newest` — what a lookup makes of the newest snapshot up to its
  bound.
* `CacheCall`, `TimedCall` — what may be done to a cache, and with which clock.
* `CacheCall.found` — the cache as a call leaves it to its trim; `CacheCall.run_eq_trimAt` says that
  the trim is all that is left to do.
* `TimedCall.settled_runAll` — after any calls the cache is settled.
* `TimedCall.size_runAll` — the size after any calls, and what a further call does to it.
-/

/-- The snapshot of a root has its numbers, and its state as it is stored. -/
theorem Snapshot.ofRoot?_eq_some {S : Type} {T : AggregateType S} {r : Root S} {now : Instant}
    {s : Snapshot} (h : Snapshot.ofRoot? T r now = some s) : s.type = T.name ∧
      s.sequence = r.sequence ∧ s.cutoff = r.cutoff ∧ T.encode r.state = some s.data := by
  obtain ⟨data, hdata, rfl⟩ := Option.map_eq_some_iff.1 h
  exact ⟨rfl, rfl, rfl, hdata⟩

namespace SnapshotCache

variable {S : Type} {c c' : SnapshotCache} {T : AggregateType S} {id : String} {bound : Int}
  {s : Snapshot}

/-! ### Putting in -/

/-- What is put in is the snapshot of the root. -/
theorem accept_eq_some {r : Root S} {now : Instant} (h : c.accept T r now = some c') :
    ∃ s, Snapshot.ofRoot? T r now = some s ∧ c' = c.store r.id s := by
  unfold accept at h
  split at h
  · cases h
  · obtain ⟨s, hs, rfl⟩ := Option.map_eq_some_iff.1 h
    exact ⟨s, hs, rfl⟩

/-- A root with history is put in if the cache is not disabled. -/
theorem accept_eq_store {r : Root S} {now : Instant} (hlimit : c.limit ≠ 0)
    (hhistory : r.hasHistory = true) (hs : Snapshot.ofRoot? T r now = some s) :
    c.accept T r now = some (c.store r.id s) := by
  rw [accept, if_neg (by simp [isDisabled, hlimit, hhistory]), hs, Option.map_some]

/-! ### Looking up -/

/-- A lookup reads the newest snapshot up to its bound. If it can be read, it is used once more;
otherwise nothing is found. -/
theorem Keyed.lookup_of_newest (hkeyed : c.Keyed) (h : c.Newest id bound s) (T : AggregateType S)
    (now : Instant) : c.lookup T id bound now = match s.toRoot? T id with
      | none => (none, c)
      | some root => (some root, c.used id s now) := by
  simp only [lookup, hkeyed.newest?_eq_some_iff.2 h]
  rfl

/-- A lookup finds nothing if there is no snapshot up to its bound. -/
theorem lookup_of_forall_eq_none (h : ∀ cutoff, cutoff ≤ bound → c.kept? id cutoff = none)
    (T : AggregateType S) (now : Instant) : c.lookup T id bound now = (none, c) := by
  simp only [lookup, newest?_ofRoot_eq_none_iff.2 h]

/-- A root has a newest snapshot up to a bound, or it has none up to the bound. -/
theorem Keyed.newest_or_none (hkeyed : c.Keyed) (id : String) (bound : Int) :
    (∃ s, c.Newest id bound s) ∨ ∀ cutoff, cutoff ≤ bound → c.kept? id cutoff = none := by
  cases h : newest? bound (c.ofRoot id).entries with
  | none => exact .inr (newest?_ofRoot_eq_none_iff.1 h)
  | some s => exact .inl ⟨s, hkeyed.newest?_eq_some_iff.1 h⟩

/-- A lookup changes nothing, or it uses a snapshot that is kept. -/
theorem Keyed.lookup_snd_cases (hkeyed : c.Keyed) (T : AggregateType S) (id : String) (bound : Int)
    (now : Instant) : (c.lookup T id bound now).2 = c ∨
      ∃ s, c.kept? id s.cutoff = some s ∧ (c.lookup T id bound now).2 = c.used id s now := by
  rcases hkeyed.newest_or_none id bound with ⟨s, hs⟩ | hnone
  · rw [hkeyed.lookup_of_newest hs]
    cases s.toRoot? T id with
    | none => exact .inl rfl
    | some root => exact .inr ⟨s, hs.kept, rfl⟩
  · rw [lookup_of_forall_eq_none hnone]
    exact .inl rfl

/-! ### Orderly and settled caches -/

theorem settled_new (limit : Nat) : (new limit).Settled where
  keyed _ _ _ h := absurd h (not_holds_new _ _ _ _)
  count_eq := rfl
  occupied _ _ h := by cases h
  idle := rfl
  within := Nat.zero_le _

/-- A snapshot that comes in leaves the cache orderly. -/
theorem Orderly.store (hc : c.Orderly) (id : String) (s : Snapshot) : (c.store id s).Orderly where
  keyed := hc.keyed.store id s
  count_eq := by
    have hlength := length_all_store c id s
    have hcount := hc.count_eq
    omega
  occupied id' t ht := by
    unfold SnapshotCache.store at ht
    split at ht
    · exact hc.occupied id' t ht
    · rw [Table.get?_insert] at ht
      split at ht
      · cases ht
        exact Table.isEmpty_insert _ _ _
      · exact hc.occupied id' t ht
  idle := by
    rw [trimming_store]
    exact hc.idle

/-- A snapshot that is used leaves the cache settled. -/
theorem Settled.used (hc : c.Settled) (h : c.kept? id s.cutoff = some s) (now : Instant) :
    (c.used id s now).Settled where
  keyed id' cutoff s' hs' := by
    rw [← kept?_eq_some_iff, kept?_used] at hs'
    split at hs'
    · rename_i hself
      cases hs'
      exact hself.2.symm
    · exact hc.keyed.cutoff_eq hs'
  count_eq := hc.count_eq.trans (length_all_used (by simp [h]) now).symm
  occupied id' t ht := by
    unfold SnapshotCache.used at ht
    rw [Table.get?_insert] at ht
    split at ht
    · cases ht
      exact Table.isEmpty_insert _ _ _
    · exact hc.occupied id' t ht
  idle := hc.idle
  within := hc.within

end SnapshotCache

/-! ### Calls -/

/-- What may be done to a snapshot cache. -/
inductive CacheCall {κ : Type} (S : κ → Type) where
  /-- A root is put in. -/
  | put (kind : κ) (root : Root (S kind))
  /-- A snapshot is looked up. -/
  | get (kind : κ) (id : String) (bound : Int)
  /-- The limit changes. -/
  | setLimit (limit : Nat)

/-- A call, and what the clock shows each time that the call reads it. -/
structure TimedCall {κ : Type} (S : κ → Type) where
  /-- The readings of the clock. -/
  clock : Nat → Instant
  /-- The call. -/
  call : CacheCall S

section

variable {κ : Type} {S : κ → Type} (types : ∀ k, AggregateType (S k))

namespace CacheCall

/-- The cache after a call. -/
def run (clock : Nat → Instant) : CacheCall S → SnapshotCache → SnapshotCache
  | put kind root, c => c.putAt (types kind) root clock
  | get kind id bound, c => (c.lookup (types kind) id bound (clock 0)).2
  | setLimit limit, c => c.setLimitAt limit clock

/-- The cache as a call leaves it to its trim, with what it has put in or changed. -/
def found (clock : Nat → Instant) : CacheCall S → SnapshotCache → SnapshotCache
  | put kind root, c => (c.accept (types kind) root (clock 0)).getD c
  | get kind id bound, c => (c.lookup (types kind) id bound (clock 0)).2
  | setLimit limit, c => { c with limit }

/-- The clock as the trim of a call finds it. -/
def trimClock (clock : Nat → Instant) : CacheCall S → Nat → Instant
  | put _ _ => SnapshotCache.later clock
  | get _ _ _ | setLimit _ => clock

@[simp] theorem trimClock_still (now : Instant) (call : CacheCall S) :
    call.trimClock (fun _ => now) = fun _ => now := by
  cases call <;> rfl

variable {types} {c : SnapshotCache}

/-- A trim finds an orderly cache. -/
theorem orderly_found (hc : c.Settled) (clock : Nat → Instant) (call : CacheCall S) :
    (call.found types clock c).Orderly := by
  cases call with
  | put kind root =>
    rw [found]
    cases haccept : c.accept (types kind) root (clock 0) with
    | none => exact hc.toOrderly
    | some c' =>
      obtain ⟨s, _, rfl⟩ := SnapshotCache.accept_eq_some haccept
      exact hc.toOrderly.store root.id s
  | get kind id bound =>
    rw [found]
    rcases hc.keyed.lookup_snd_cases (types kind) id bound (clock 0) with h | ⟨s, hs, h⟩
    · rw [h]
      exact hc.toOrderly
    · rw [h]
      exact (hc.used hs _).toOrderly
  | setLimit limit => exact ⟨⟨hc.keyed, hc.count_eq⟩, hc.occupied, hc.idle⟩

/-- After what it puts in or changes, a call only trims. -/
theorem run_eq_trimAt (hc : c.Settled) (clock : Nat → Instant) (call : CacheCall S) :
    call.run types clock c = (call.found types clock c).trimAt (call.trimClock clock) := by
  cases call with
  | put kind root =>
    rw [run, found, SnapshotCache.putAt]
    cases c.accept (types kind) root (clock 0) with
    | none => exact (SnapshotCache.trimAt_of_le hc.within _).symm
    | some c' => rfl
  | get kind id bound =>
    rw [run, found]
    rcases hc.keyed.lookup_snd_cases (types kind) id bound (clock 0) with h | ⟨s, _, h⟩
    · rw [h, SnapshotCache.trimAt_of_le hc.within]
    · rw [h, SnapshotCache.trimAt_of_le (c := c.used id s (clock 0)) hc.within]
  | setLimit limit => rfl

/-- A call leaves the cache settled. -/
theorem settled_run (hc : c.Settled) (clock : Nat → Instant) (call : CacheCall S) :
    (call.run types clock c).Settled := by
  rw [run_eq_trimAt hc]
  exact (orderly_found hc clock call).settled_trimAt _

end CacheCall

namespace TimedCall

/-- The cache after calls, one after the other. -/
def runAll (calls : List (TimedCall S)) (c : SnapshotCache) : SnapshotCache :=
  calls.foldl (fun c t => t.call.run types t.clock c) c

theorem runAll_concat (calls : List (TimedCall S)) (t : TimedCall S) (c : SnapshotCache) :
    runAll types (calls ++ [t]) c = t.call.run types t.clock (runAll types calls c) := by
  simp [runAll]

/-- Any calls leave the cache settled. -/
theorem settled_runAll {c : SnapshotCache} (hc : c.Settled) (calls : List (TimedCall S)) :
    (runAll types calls c).Settled := by
  induction calls generalizing c with
  | nil => exact hc
  | cons t rest ih => exact ih (CacheCall.settled_run hc t.clock t.call)

/-- **The size is the number of snapshots, and a trim removes at most a pass too many.** After any
calls on a cache that began empty (`runAll`), `size` is the number of the snapshots in `all`, each in a
`place` of its own, every root that has an entry has a snapshot, no trim is under way, and the limit is
met. A further call leaves the cache as its trim finds it (`CacheCall.found`), if that is within the limit.
Otherwise the loop of the trim (`SnapshotCache.Loops`) ends, in one way only, and it ends within the limit,
but not below what one pass leaves of a cache that is one above it: `limit + 1 - max 10 (limit / 10)`. -/
theorem size_runAll (limit : Nat) (calls : List (TimedCall S)) :
    let c := runAll types calls (SnapshotCache.new limit)
    (c.size = c.all.length ∧ (c.all.map SnapshotCache.place).Nodup) ∧
    (∀ id t, c.entries.get? id = some t → t.isEmpty = false) ∧
    c.trimming = false ∧
    c.size ≤ c.limit ∧
    ∀ (clock : Nat → Instant) (call : CacheCall S),
      let found := call.found types clock c
      let after := call.run types clock c
      let Ends := SnapshotCache.Loops (call.trimClock clock)
      found.size = found.all.length ∧ after.limit = found.limit ∧
      (found.size ≤ found.limit → after = found) ∧
      (found.limit < found.size →
        (∃ passes left, Ends passes { found with trimming := true } left ∧ after = left.swept ∧
          passes ≤ found.size - found.limit ∧
          ∀ passes' left', Ends passes' { found with trimming := true } left' →
            passes' = passes ∧ left' = left) ∧
        found.limit + 1 - max 10 (found.limit / 10) ≤ after.size ∧ after.size ≤ found.limit) := by
  intro c
  have hc : c.Settled := settled_runAll types (SnapshotCache.settled_new limit) calls
  refine ⟨⟨hc.count_eq, SnapshotCache.nodup_all hc.keyed⟩, hc.occupied, hc.idle, hc.within,
    fun clock call => ?_⟩
  intro found after Ends
  have hfound : found.Orderly := CacheCall.orderly_found hc clock call
  have hafter : after = found.trimAt (call.trimClock clock) := CacheCall.run_eq_trimAt hc clock call
  have hleft := hfound.left_trimAt (call.trimClock clock)
  have hthinned := hfound.thinned_trimAt (call.trimClock clock)
  rw [← hafter] at hleft hthinned
  refine ⟨hfound.count_eq, hthinned.limit, fun hle => ?_, fun hlt => ⟨?_, ?_, hleft.le_limit⟩⟩
  · rw [hafter, SnapshotCache.trimAt_of_le hle]
  · obtain ⟨passes, left, hmost, hloops, hswept⟩ := hfound.loops_trimAt hlt (call.trimClock clock)
    exact ⟨passes, left, hloops, hafter.trans hswept, hmost, fun _ _ h => hloops.unique h⟩
  · rw [Nat.max_comm]
    exact hleft.le_count hlt

end TimedCall

end

end Chronicle
