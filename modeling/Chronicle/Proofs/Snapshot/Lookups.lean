import Chronicle.Proofs.Snapshot.Calls
import Mathlib.Data.List.Induction

namespace Chronicle

/-!
# What lookups find

* `SnapshotCache.Finds` — what a lookup is to find, told by the snapshots that are kept.
* `CacheCall.kept_run` — a snapshot that is kept after a call was kept before it with the same
  content, or the call has put it in where none was.
* `TimedCall.Origin` — the put that a snapshot comes from: none was kept in its place before, and
  one with its content has been kept ever since. After any calls every snapshot has one
  (`TimedCall.origin_runAll`).
* `TimedCall.lookups_runAll` — lookups, puts and contents after any calls.
-/

theorem Snapshot.SameContent.trans {s s' s'' : Snapshot} (h : s.SameContent s')
    (h' : s'.SameContent s'') : s.SameContent s'' where
  type := h'.type.trans h.type
  sequence := h'.sequence.trans h.sequence
  cutoff := h'.cutoff.trans h.cutoff
  data := h'.data.trans h.data

namespace SnapshotCache

variable {S : Type} {c : SnapshotCache} {T : AggregateType S} {id : String} {cutoff : Int}
  {s : Snapshot}

/-- A snapshot is used once more, and nothing else changes. -/
structure Uses (id : String) (s : Snapshot) (now : Instant) (c c' : SnapshotCache) : Prop where
  /-- Only this snapshot changes, and of it only the record of its use. -/
  kept : ∀ id' cutoff, c'.kept? id' cutoff = if id' = id ∧ cutoff = s.cutoff
    then some { s with hits := s.hits + 1, lastHit := now.micros } else c.kept? id' cutoff
  /-- The number of snapshots is the same. -/
  size : c'.size = c.size
  /-- The limit is the same. -/
  limit : c'.limit = c.limit

/-- What a lookup finds, and the cache after it. -/
inductive Finds (T : AggregateType S) (id : String) (bound : Int) (now : Instant)
    (c : SnapshotCache) : Option (Root S) → SnapshotCache → Prop where
  /-- No snapshot is kept up to the bound. -/
  | missing : (∀ cutoff, cutoff ≤ bound → c.kept? id cutoff = none) → Finds T id bound now c none c
  /-- Another type has written the newest snapshot. -/
  | foreign {s : Snapshot} : c.Newest id bound s → s.type ≠ T.name → Finds T id bound now c none c
  /-- The newest snapshot cannot be read. -/
  | unreadable {s : Snapshot} : c.Newest id bound s → T.decode s.data = none →
      Finds T id bound now c none c
  /-- The newest snapshot is read, and used. -/
  | found {s : Snapshot} {state : S} {c' : SnapshotCache} : c.Newest id bound s →
      s.type = T.name → T.decode s.data = some state → Uses id s now c c' →
      Finds T id bound now c
        (some { id, sequence := s.sequence, cutoff := s.cutoff, uncommitted := [], state }) c'

theorem uses_used (id : String) (s : Snapshot) (now : Instant) (c : SnapshotCache) :
    Uses id s now c (c.used id s now) :=
  ⟨fun id' cutoff => kept?_used c id id' s now cutoff, rfl, rfl⟩

theorem Keyed.finds_lookup (hkeyed : c.Keyed) (T : AggregateType S) (id : String) (bound : Int)
    (now : Instant) :
    Finds T id bound now c (c.lookup T id bound now).1 (c.lookup T id bound now).2 := by
  rcases hkeyed.newest_or_none id bound with ⟨s, hs⟩ | hnone
  · rw [hkeyed.lookup_of_newest hs, Snapshot.toRoot?]
    by_cases htype : s.type = T.name
    · cases hstate : T.decode s.data with
      | none =>
        simp only [htype, if_true, Option.map_none]
        exact .unreadable hs hstate
      | some state =>
        simp only [htype, if_true, Option.map_some]
        exact .found hs htype hstate (uses_used id s now c)
    · simp only [htype, if_false]
      exact .foreign hs htype
  · rw [lookup_of_forall_eq_none hnone]
    exact .missing hnone

/-- What is kept after a snapshot has been used was kept before, with the same content. -/
theorem sameContent_of_kept?_used {s' : Snapshot} {id' : String} {now : Instant}
    (hs : c.kept? id s.cutoff = some s) (h : (c.used id s now).kept? id' cutoff = some s') :
    ∃ s₀, c.kept? id' cutoff = some s₀ ∧ s₀.SameContent s' := by
  rw [kept?_used] at h
  split at h
  · rename_i hself
    cases h
    rw [hself.1, hself.2]
    exact ⟨s, hs, s.sameContent_hit now⟩
  · exact ⟨s', h, .refl s'⟩

/-- A put where a snapshot is kept already changes nothing. -/
theorem Settled.putAt_eq_self (hc : c.Settled) {r : Root S} (h : c.kept? r.id r.cutoff = some s)
    (T : AggregateType S) (clock : Nat → Instant) : c.putAt T r clock = c := by
  unfold putAt
  cases haccept : c.accept T r (clock 0) with
  | none => rfl
  | some c' =>
    obtain ⟨s', hs', rfl⟩ := accept_eq_some haccept
    have hcontains : (c.ofRoot r.id).contains s'.cutoff = true := by
      rw [(Snapshot.ofRoot?_eq_some hs').2.2.1, contains_ofRoot, h]
      rfl
    simp only [store, if_pos hcontains]
    exact trimAt_of_le hc.within _

/-- A put stores the root where no snapshot is kept, if there is room for it. -/
theorem kept?_putAt_of_none {r : Root S} {data : Json} (hlt : c.size < c.limit)
    (hhistory : r.hasHistory = true) (hdata : T.encode r.state = some data)
    (h : c.kept? r.id r.cutoff = none) (clock : Nat → Instant) :
    (c.putAt T r clock).kept? r.id r.cutoff
      = some ⟨T.name, r.sequence, r.cutoff, data, 0, (clock 0).micros⟩ := by
  have hs : Snapshot.ofRoot? T r (clock 0)
      = some ⟨T.name, r.sequence, r.cutoff, data, 0, (clock 0).micros⟩ := by
    rw [Snapshot.ofRoot?, hdata, Option.map_some]
  rw [putAt, accept_eq_store (by omega) hhistory hs]
  simp only
  rw [trimAt_of_le, kept?_store, h]
  · simp
  · rw [limit_store]
    exact Nat.le_trans (count_store_le _ _ _) hlt

end SnapshotCache

section

variable {κ : Type} {S : κ → Type} {types : ∀ k, AggregateType (S k)}

/-- A snapshot that is kept after a call was kept before with the same content, or the call has put
it in where none was. -/
theorem CacheCall.kept_run {c : SnapshotCache} (hc : c.Settled) {clock : Nat → Instant}
    {call : CacheCall S} {id : String} {cutoff : Int} {s : Snapshot}
    (h : (call.run types clock c).kept? id cutoff = some s) :
    (∃ s₀, c.kept? id cutoff = some s₀ ∧ s₀.SameContent s) ∨
      (c.kept? id cutoff = none ∧ ∃ kind root, call = .put kind root ∧ root.id = id ∧
        root.cutoff = cutoff ∧ Snapshot.ofRoot? (types kind) root (clock 0) = some s) := by
  rw [run_eq_trimAt hc] at h
  have hfound := ((orderly_found hc clock call).thinned_trimAt _).kept h
  cases call with
  | put kind root =>
    rw [found] at hfound
    cases haccept : c.accept (types kind) root (clock 0) with
    | none =>
      rw [haccept] at hfound
      exact .inl ⟨s, hfound, .refl s⟩
    | some c' =>
      obtain ⟨s', hs', rfl⟩ := SnapshotCache.accept_eq_some haccept
      rw [haccept, Option.getD_some, SnapshotCache.kept?_store, Option.or_eq_some_iff] at hfound
      rcases hfound with hold | ⟨hnone, hnew⟩
      · exact .inl ⟨s, hold, .refl s⟩
      · split at hnew
        · rename_i hplace
          cases hnew
          have hcutoff := (Snapshot.ofRoot?_eq_some hs').2.2.1
          exact .inr ⟨hnone, kind, root, rfl, hplace.1.symm, (hplace.2.trans hcutoff).symm, hs'⟩
        · cases hnew
  | get kind id' bound =>
    rw [found] at hfound
    rcases hc.keyed.lookup_snd_cases (types kind) id' bound (clock 0) with hsame | ⟨s', hs', hused⟩
    · rw [hsame] at hfound
      exact .inl ⟨s, hfound, .refl s⟩
    · rw [hused] at hfound
      exact .inl (SnapshotCache.sameContent_of_kept?_used hs' hfound)
  | setLimit limit => exact .inl ⟨s, hfound, .refl s⟩

namespace TimedCall

/-- A snapshot comes from a put among some calls: the put has stored a root where no snapshot was
kept, and one with this content has been kept there ever since. -/
structure Origin (types : ∀ k, AggregateType (S k)) (start : SnapshotCache)
    (before : List (TimedCall S)) (kind : κ) (root : Root (S kind)) (clock : Nat → Instant)
    (after : List (TimedCall S)) (s : Snapshot) : Prop where
  /-- Before the put there was none. -/
  absent : (runAll types before start).kept? root.id root.cutoff = none
  /-- The type is that of the root. -/
  type : s.type = (types kind).name
  /-- The sequence number is that of the root. -/
  sequence : s.sequence = root.sequence
  /-- The state is that of the root, as it was stored. -/
  data : (types kind).encode root.state = some s.data
  /-- Ever since the put there is one with this content. -/
  lasts : ∀ later, later <+: after → ∃ s',
    (runAll types (before ++ ⟨clock, .put kind root⟩ :: later) start).kept? root.id root.cutoff
      = some s' ∧ s'.SameContent s

/-- After any calls, every snapshot comes from a put. -/
theorem origin_runAll {start : SnapshotCache} (hstart : start.Settled)
    (hnone : ∀ id cutoff, start.kept? id cutoff = none) (calls : List (TimedCall S)) {id : String}
    {cutoff : Int} {s : Snapshot} (h : (runAll types calls start).kept? id cutoff = some s) :
    ∃ before kind root clock after, calls = before ++ ⟨clock, .put kind root⟩ :: after ∧
      root.id = id ∧ root.cutoff = cutoff ∧ Origin types start before kind root clock after s := by
  induction calls using List.reverseRecOn generalizing s with
  | nil =>
    rw [show runAll types [] start = start from rfl, hnone] at h
    cases h
  | append_singleton calls t ih =>
    have hkept := h
    rw [runAll_concat] at hkept
    rcases CacheCall.kept_run (settled_runAll types hstart calls) hkept with
      ⟨s₀, hs₀, hsame⟩ | ⟨hnone, kind, root, hput, hid, hcutoff, hs⟩
    · -- It was kept before the last call, which has not changed its content.
      obtain ⟨before, kind, root, clock, after, rfl, hid, hcutoff, horigin⟩ := ih hs₀
      refine ⟨before, kind, root, clock, after ++ [t], by simp, hid, hcutoff, ?_⟩
      refine ⟨horigin.absent, hsame.type.trans horigin.type,
        hsame.sequence.trans horigin.sequence, ?_, fun later hlater => ?_⟩
      · rw [hsame.data]
        exact horigin.data
      · rcases List.prefix_concat_iff.1 hlater with rfl | hlater
        · refine ⟨s, ?_, .refl s⟩
          rw [hid, hcutoff, ← h]
          simp
        · obtain ⟨s', hs', hsame'⟩ := horigin.lasts later hlater
          exact ⟨s', hs', hsame'.trans hsame⟩
    · -- The last call has put it in.
      obtain ⟨clock, call⟩ := t
      change call = _ at hput
      subst hput
      obtain ⟨htype, hsequence, _, hdata⟩ := Snapshot.ofRoot?_eq_some hs
      refine ⟨calls, kind, root, clock, [], rfl, hid, hcutoff, ?_⟩
      subst hid hcutoff
      refine ⟨hnone, htype, hsequence, hdata, fun later hlater => ?_⟩
      obtain rfl := List.prefix_nil.1 hlater
      exact ⟨s, h, .refl s⟩

/-- **A lookup finds the newest snapshot up to its bound, as a put has stored it.** After any calls
on a cache that began empty (`runAll`), with clocks that run or stand still:

* `lookup` finds nothing and changes nothing if there is no snapshot up to its bound, if another
  type has written the newest one or if this cannot be read. Otherwise it reads the newest one and
  uses it, and nothing else changes (`SnapshotCache.Finds`).
* Every snapshot is what a put has stored when there was none in its place, and one with its content
  has been there ever since (`Origin`).
* No call changes the content of a snapshot that it leaves in its place (`Snapshot.SameContent`).
* A put where a snapshot is kept changes nothing at all; where there is none and room for one, it
  stores the root. (`putAt` is told the clock of the put; `put` is `putAt` while the clock stands still.) -/
theorem lookups_runAll (types : ∀ k, AggregateType (S k)) (limit : Nat)
    (calls : List (TimedCall S)) :
    let c := runAll types calls (SnapshotCache.new limit)
    (∀ kind id bound now, SnapshotCache.Finds (types kind) id bound now c
      (c.lookup (types kind) id bound now).1 (c.lookup (types kind) id bound now).2) ∧
    (∀ id cutoff s, c.kept? id cutoff = some s → ∃ before kind root clock after,
      calls = before ++ ⟨clock, .put kind root⟩ :: after ∧ root.id = id ∧ root.cutoff = cutoff ∧
        Origin types (SnapshotCache.new limit) before kind root clock after s) ∧
    (∀ (call : CacheCall S) clock id cutoff s s', c.kept? id cutoff = some s →
      (call.run types clock c).kept? id cutoff = some s' → s.SameContent s') ∧
    (∀ kind (root : Root (S kind)) clock s, c.kept? root.id root.cutoff = some s →
      c.putAt (types kind) root clock = c) ∧
    (∀ kind (root : Root (S kind)) clock data, c.kept? root.id root.cutoff = none →
      c.size < c.limit → root.hasHistory = true → (types kind).encode root.state = some data →
      (c.putAt (types kind) root clock).kept? root.id root.cutoff
        = some ⟨(types kind).name, root.sequence, root.cutoff, data, 0, (clock 0).micros⟩) := by
  intro c
  have hc : c.Settled := settled_runAll types (SnapshotCache.settled_new limit) calls
  refine ⟨fun kind id bound now => hc.keyed.finds_lookup (types kind) id bound now,
    fun id cutoff s hs => ?_, fun call clock id cutoff s s' hs hs' => ?_,
    fun kind root clock s hs => hc.putAt_eq_self hs (types kind) clock,
    fun kind root clock data hnone hlt hhistory hdata => ?_⟩
  · exact origin_runAll (SnapshotCache.settled_new limit) (SnapshotCache.kept?_new limit) calls hs
  · rcases CacheCall.kept_run hc hs' with ⟨s₀, hs₀, hsame⟩ | ⟨hnone, _⟩
    · rw [hs] at hs₀
      cases hs₀
      exact hsame
    · rw [hs] at hnone
      cases hnone
  · exact SnapshotCache.kept?_putAt_of_none hlt hhistory hdata hnone clock

/-- Of two snapshots a lookup between their cutoffs finds the first, as it was stored first. -/
example :
    let put (sequence cutoff balance : Int) : TimedCall fun _ : Sample.Kind => Sample.State :=
      ⟨fun _ => ⟨0, 0⟩, .put .account { id := "a", sequence, cutoff, state := .account balance }⟩
    ((runAll Sample.aggregateType [put 0 3 10, put 1 7 30, put 0 3 99]
      (SnapshotCache.new 10)).lookup (Sample.aggregateType .account) "a" 6 ⟨0, 0⟩).1
      = some { id := "a", sequence := 0, cutoff := 3, state := .account 10 } := by
  rfl

end TimedCall

end

end Chronicle
