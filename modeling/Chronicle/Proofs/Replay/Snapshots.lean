import Chronicle.Proofs.Replay.History
import Chronicle.Sample.Aggregates

namespace Chronicle

/-!
# What the snapshot cache holds

* `SnapshotCache.Holds` — a snapshot is kept for a root under a cutoff.
* `SnapshotCache.Within` — one cache has no other contents than another one. Lookups and trims only
  lead to such caches.
* `Snapshot.Reflects` — a snapshot is the state that the history of its root makes up to its cutoff.
* `SnapshotCache.Sound` — every snapshot reflects the log, for the type that wrote it. The invariant
  survives lookups, trims, later commits (`Sound.mono`) and the roots that loading puts in
  (`Sound.put`).
* `AggregateType.Faithful` — what is assumed of the types: a stored state that can be read is the
  state that was stored. `Snapshot.Reflects.toRoot?_eq` is where it is used.
-/

/-- The entries after an insertion. -/
theorem Table.mem_entries_insert {κ α : Type} [DecidableEq κ] (t : Table κ α) (k k' : κ)
    (a a' : α) : (k', a') ∈ (t.insert k a).entries
      ↔ (k' = k ∧ a' = a) ∨ (k' ≠ k ∧ (k', a') ∈ t.entries) := by
  rw [← get?_eq_some_iff, get?_insert, ← get?_eq_some_iff]
  by_cases h : k' = k
  · simp [h, eq_comm]
  · simp [h]

/-- Two snapshots differ at most in the record of their use. -/
structure Snapshot.SameContent (s s' : Snapshot) : Prop where
  /-- The type is the same. -/
  type : s'.type = s.type
  /-- The sequence number is the same. -/
  sequence : s'.sequence = s.sequence
  /-- The cutoff is the same. -/
  cutoff : s'.cutoff = s.cutoff
  /-- The state is the same. -/
  data : s'.data = s.data

theorem Snapshot.SameContent.refl (s : Snapshot) : s.SameContent s := ⟨rfl, rfl, rfl, rfl⟩

theorem Snapshot.sameContent_hit (s : Snapshot) (now : Instant) : s.SameContent (s.hit now) :=
  ⟨rfl, rfl, rfl, rfl⟩

namespace SnapshotCache

variable {S : Type}

/-! ### Contents -/

/-- The cache keeps a snapshot for a root under a cutoff. -/
def Holds (c : SnapshotCache) (id : String) (cutoff : Int) (s : Snapshot) : Prop :=
  (cutoff, s) ∈ (c.ofRoot id).entries

/-- Every snapshot is kept under its own cutoff. -/
def Keyed (c : SnapshotCache) : Prop :=
  ∀ ⦃id : String⦄ ⦃cutoff : Int⦄ ⦃s : Snapshot⦄, c.Holds id cutoff s → s.cutoff = cutoff

/-- One cache has no other contents than another one. -/
def Within (c' c : SnapshotCache) : Prop :=
  ∀ ⦃id : String⦄ ⦃cutoff : Int⦄ ⦃s' : Snapshot⦄, c'.Holds id cutoff s' →
    ∃ s, c.Holds id cutoff s ∧ s.SameContent s'

theorem not_holds_new (limit : Nat) (id : String) (cutoff : Int) (s : Snapshot) :
    ¬ (new limit).Holds id cutoff s := by
  simp [Holds, ofRoot, new]

theorem Within.refl (c : SnapshotCache) : c.Within c :=
  fun _ _ _ h => ⟨_, h, .refl _⟩

theorem Keyed.within {c c' : SnapshotCache} (hkeyed : c.Keyed) (h : c'.Within c) : c'.Keyed := by
  intro id cutoff s' hs'
  obtain ⟨s, hs, hsame⟩ := h hs'
  rw [hsame.cutoff, hkeyed hs]

/-- The contents after the snapshots of one root have been replaced. -/
theorem holds_insert_iff (c : SnapshotCache) (id id' : String) (t : Table Int Snapshot)
    (count : Nat) (cutoff : Int) (s : Snapshot) :
    ({ c with entries := c.entries.insert id t, count } : SnapshotCache).Holds id' cutoff s
      ↔ (id' = id ∧ (cutoff, s) ∈ t.entries) ∨ (id' ≠ id ∧ c.Holds id' cutoff s) := by
  unfold Holds ofRoot
  rw [Table.get?_insert]
  by_cases h : id' = id <;> simp [h]

/-! ### Looking up -/

/-- The newest snapshot is one of the snapshots, cut at or before the bound. -/
theorem mem_of_newest? {bound : Int} {entries : List (Int × Snapshot)} {s : Snapshot}
    (h : newest? bound entries = some s) : ∃ cutoff, (cutoff, s) ∈ entries ∧ cutoff ≤ bound := by
  induction entries generalizing s with
  | nil => cases h
  | cons e rest ih =>
    obtain ⟨cutoff, s₀⟩ := e
    have hlater : ∀ {s}, newest? bound rest = some s →
        ∃ cutoff', (cutoff', s) ∈ (cutoff, s₀) :: rest ∧ cutoff' ≤ bound := by
      intro s hs
      obtain ⟨cutoff', hmem, hle⟩ := ih hs
      exact ⟨cutoff', List.mem_cons_of_mem _ hmem, hle⟩
    unfold newest? at h
    split at h
    · split at h
      · cases h
        exact ⟨cutoff, List.mem_cons_self, ‹_›⟩
      · cases h
    · rename_i best hbest
      split at h
      · rename_i hcond
        cases h
        exact ⟨cutoff, List.mem_cons_self, hcond.1⟩
      · cases h
        exact hlater hbest

/-- A lookup finds nothing and changes nothing, or it reads a snapshot that is held and cut at or
before the bound. -/
theorem lookup_cases (T : AggregateType S) (id : String) (bound : Int) (now : Instant)
    (c : SnapshotCache) :
    c.lookup T id bound now = (none, c) ∨
    ∃ cutoff s root, c.Holds id cutoff s ∧ cutoff ≤ bound ∧ s.toRoot? T id = some root ∧
      c.lookup T id bound now = (some root, { c with
        entries := c.entries.insert id ((c.ofRoot id).insert s.cutoff (s.hit now)) }) := by
  unfold lookup
  cases hs : newest? bound (c.ofRoot id).entries with
  | none => exact .inl (by simp only [hs])
  | some s =>
    obtain ⟨cutoff, hmem, hle⟩ := mem_of_newest? hs
    cases hroot : s.toRoot? T id with
    | none => exact .inl (by simp only [hs, hroot])
    | some root => exact .inr ⟨cutoff, s, root, hmem, hle, hroot, by simp only [hs, hroot]⟩

/-- A lookup changes only the record of the use of a snapshot. -/
theorem within_lookup {c : SnapshotCache} (hkeyed : c.Keyed) (T : AggregateType S) (id : String)
    (bound : Int) (now : Instant) : (c.lookup T id bound now).2.Within c := by
  rcases lookup_cases T id bound now c with h | ⟨cutoff, s, root, hs, _, _, h⟩
  · rw [h]
    exact Within.refl c
  · rw [h]
    intro id' cutoff' s' hs'
    rcases (holds_insert_iff c id id' _ _ cutoff' s').1 hs' with ⟨rfl, hmem⟩ | ⟨_, hold⟩
    · rcases (Table.mem_entries_insert _ _ _ _ _).1 hmem with ⟨rfl, rfl⟩ | ⟨_, hmem⟩
      · -- The hit is stored under the cutoff of the snapshot, which is where it came from.
        refine ⟨s, ?_, s.sameContent_hit now⟩
        rw [hkeyed hs]
        exact hs
      · exact ⟨s', hmem, .refl s'⟩
    · exact ⟨s', hold, .refl s'⟩

/-! ### Trimming -/

/-- What is held after a removal was held before. -/
theorem holds_of_holds_remove {c : SnapshotCache} {id id' : String} {cutoff cutoff' : Int}
    {s : Snapshot} (h : (c.remove id cutoff).Holds id' cutoff' s) : c.Holds id' cutoff' s := by
  unfold remove at h
  split at h
  · exact h
  · rename_i ofRoot hroot
    split at h
    · rcases (holds_insert_iff c id id' _ _ cutoff' s).1 h with ⟨rfl, hmem⟩ | ⟨_, hold⟩
      · rw [Holds, SnapshotCache.ofRoot, hroot]
        exact (List.mem_filter.1 hmem).1
      · exact hold
    · exact h

/-- What is held after a pass was held before. -/
theorem holds_of_holds_trimPass {c : SnapshotCache} {now : Instant} {removals : Nat} {id : String}
    {cutoff : Int} {s : Snapshot} (h : (c.trimPass now removals).Holds id cutoff s) :
    c.Holds id cutoff s := by
  unfold trimPass at h
  generalize (c.byWorth now).take removals = doomed at h
  induction doomed generalizing c with
  | nil => exact h
  | cons e rest ih => exact holds_of_holds_remove (ih h)

/-- What is held after some passes was held before. -/
theorem holds_of_holds_trimPassesAt {c : SnapshotCache} {clock : Nat → Instant} {fuel : Nat}
    {id : String} {cutoff : Int} {s : Snapshot} (h : (trimPassesAt clock fuel c).Holds id cutoff s) :
    c.Holds id cutoff s := by
  induction fuel generalizing c clock with
  | zero => exact h
  | succ fuel ih =>
    unfold trimPassesAt at h
    simp only at h
    split at h
    · exact h
    · split at h
      · exact holds_of_holds_trimPass h
      · exact holds_of_holds_trimPass (ih h)

/-- A sweep forgets no snapshot. -/
theorem holds_of_holds_swept {c : SnapshotCache} {id : String} {cutoff : Int} {s : Snapshot}
    (h : c.swept.Holds id cutoff s) : c.Holds id cutoff s := by
  unfold swept Holds ofRoot at h
  unfold Holds ofRoot
  cases hget : (c.entries.filter fun _ t => !t.isEmpty).get? id with
  | none => simp [hget] at h
  | some t =>
    rw [hget] at h
    have hmem := (Table.get?_eq_some_iff _ _ _).1 hget
    rw [Table.entries_filter, List.mem_filter] at hmem
    rw [(Table.get?_eq_some_iff _ _ _).2 hmem.1]
    exact h

/-- A trim only removes. -/
theorem holds_of_holds_trimAt {c : SnapshotCache} {clock : Nat → Instant} {id : String} {cutoff : Int}
    {s : Snapshot} (h : (c.trimAt clock).Holds id cutoff s) : c.Holds id cutoff s := by
  unfold trimAt at h
  split at h
  · exact h
  · have hheld : ({ c with trimming := true } : SnapshotCache).Holds id cutoff s :=
      holds_of_holds_trimPassesAt (holds_of_holds_swept h)
    exact hheld

theorem within_trim (c : SnapshotCache) (now : Instant) : (c.trim now).Within c :=
  fun _ _ _ h => ⟨_, holds_of_holds_trimAt h, .refl _⟩

theorem within_setLimit (c : SnapshotCache) (limit : Nat) (now : Instant) :
    (c.setLimit limit now).Within c :=
  fun _ _ _ h => ⟨_, holds_of_holds_trimAt (c := { c with limit }) h, .refl _⟩

/-- After a snapshot has come in, the contents are the old ones and it. -/
theorem holds_of_holds_store {c : SnapshotCache} {id id' : String} {cutoff : Int} {s s' : Snapshot}
    (h : (c.store id s').Holds id' cutoff s) :
    c.Holds id' cutoff s ∨ (s' = s ∧ id' = id ∧ cutoff = s.cutoff) := by
  unfold store at h
  split at h
  · exact .inl h
  · rcases (holds_insert_iff c id id' _ _ cutoff s).1 h with ⟨rfl, hmem⟩ | ⟨_, hold⟩
    · rcases (Table.mem_entries_insert _ _ _ _ _).1 hmem with ⟨rfl, rfl⟩ | ⟨_, hmem⟩
      · exact .inr ⟨rfl, rfl, rfl⟩
      · exact .inl hmem
    · exact .inl hold

/-- After a root is put in, the contents are the old ones and its snapshot. -/
theorem holds_of_holds_put {c : SnapshotCache} {T : AggregateType S} {r : Root S} {now : Instant}
    {id : String} {cutoff : Int} {s : Snapshot} (h : (c.put T r now).Holds id cutoff s) :
    c.Holds id cutoff s ∨ (Snapshot.ofRoot? T r now = some s ∧ id = r.id ∧ cutoff = s.cutoff ∧
      r.hasHistory = true) := by
  unfold put putAt accept at h
  by_cases hactive : (c.isDisabled || !r.hasHistory) = true
  · rw [if_pos hactive] at h
    exact .inl h
  · rw [if_neg hactive] at h
    have hhistory : r.hasHistory = true := by
      simp only [Bool.or_eq_true, not_or, Bool.not_eq_true', Bool.not_eq_false] at hactive
      exact hactive.2
    cases hs' : Snapshot.ofRoot? T r now with
    | none =>
      rw [hs'] at h
      exact .inl h
    | some s' =>
      rw [hs'] at h
      rcases holds_of_holds_store (holds_of_holds_trimAt h) with hold | ⟨rfl, hid, hcutoff⟩
      · exact .inl hold
      · exact .inr ⟨rfl, hid, hcutoff, hhistory⟩

end SnapshotCache

/-! ### Soundness -/

namespace AggregateType

variable {κ : Type} {S : κ → Type} {types : ∀ k, AggregateType (S k)}

/-- What loading relies on: a stored state that `decode` can read is the state that was given to
`encode`. `Snapshot.toRoot?` only compares the `name` of a type with the one in the snapshot, so a type is
asked to read what any type of its name has stored. Two types with one name must therefore not read each
other's states: if `decode` of the one reads what `encode` of the other wrote, they have to be one type.
With different names nothing is asked of a pair (`faithful_of_names`). -/
def Faithful (types : ∀ k, AggregateType (S k)) : Prop :=
  ∀ ⦃k k' : κ⦄ ⦃state : S k⦄ ⦃data : Json⦄ ⦃state' : S k'⦄, (types k').name = (types k).name →
    (types k).encode state = some data → (types k').decode data = some state' →
    (⟨k', state'⟩ : Sigma S) = ⟨k, state⟩

/-- If types have names of their own, every type may be looked at alone. -/
theorem faithful_of_names (hname : ∀ k k', (types k).name = (types k').name → k = k')
    (hread : ∀ k state data state', (types k).encode state = some data →
      (types k).decode data = some state' → state' = state) : Faithful types := by
  intro k k' state data state' hsame hdata hstate
  obtain rfl : k' = k := hname _ _ hsame
  rw [hread _ _ _ _ hdata hstate]

end AggregateType

/-- The snapshot is the root that the history up to its cutoff makes. -/
def Snapshot.Reflects {S : Type} (T : AggregateType S) (log : Log) (id : String) (s : Snapshot) :
    Prop :=
  ∃ r : Root S, Root.ofHistory T id ((log.history id).filter (Event.upTo s.cutoff)) = .ok r ∧
    r.hasHistory = true ∧ r.sequence = s.sequence ∧ r.cutoff = s.cutoff ∧
    T.encode r.state = some s.data

/-- A root with history is cut at the last event that made it. -/
theorem Root.exists_last_of_hasHistory {S : Type} {T : AggregateType S} {id : String}
    {events : List Event} {r : Root S} (hr : Root.ofHistory T id events = .ok r)
    (hhistory : r.hasHistory = true) :
    ∃ last, events.getLast? = some last ∧ last.position = .ok r.cutoff := by
  have hne : events ≠ [] := by
    rintro rfl
    rw [Root.hasHistory_ofHistory hr] at hhistory
    cases hhistory
  exact ⟨events.getLast hne, List.getLast?_eq_some_getLast hne,
    (Root.ofHistory_eq_ok hr).2.2.2 _ (List.getLast?_eq_some_getLast hne)⟩

/-- A root that the history up to a bound makes is the one that the history up to its own cutoff makes,
also when the log has grown. -/
theorem Root.ofHistory_cutoff {S : Type} {T : AggregateType S} {id : String} {log log' : Log}
    (hlog : log.Consistent) (hlog' : log'.Consistent) (hext : log.Extends log') {bound : Int}
    {r : Root S} (hr : Root.ofHistory T id ((log.history id).filter (Event.upTo bound)) = .ok r)
    (hhistory : r.hasHistory = true) :
    Root.ofHistory T id ((log'.history id).filter (Event.upTo r.cutoff)) = .ok r := by
  obtain ⟨last, hlast, hposition⟩ := Root.exists_last_of_hasHistory hr hhistory
  have hmem := (List.mem_filter.1 (List.mem_of_getLast? hlast)).1
  have hlt : r.cutoff < log.size := hlog.position_lt_size (Log.mem_history.1 hmem).1 hposition
  -- The root is cut at the last event that was replayed, not at the bound.
  rw [hlog'.filter_upTo_extends hext hlt, (hlog.inOrder id).filter_upTo_last hlast hposition]
  exact hr

namespace Snapshot.Reflects

variable {S : Type} {T : AggregateType S} {log log' : Log} {id : String} {s s' : Snapshot}

theorem sameContent (h : s.Reflects T log id) (hsame : s.SameContent s') :
    s'.Reflects T log id := by
  obtain ⟨r, hr, hhistory, hsequence, hcutoff, hdata⟩ := h
  refine ⟨r, ?_, hhistory, ?_, ?_, ?_⟩
  · rw [hsame.cutoff]
    exact hr
  · rw [hsame.sequence]
    exact hsequence
  · rw [hsame.cutoff]
    exact hcutoff
  · rw [hsame.data]
    exact hdata

/-- A snapshot stays right when the log grows. -/
theorem mono (h : s.Reflects T log id) (hlog : log.Consistent) (hlog' : log'.Consistent)
    (hext : log.Extends log') : s.Reflects T log' id := by
  obtain ⟨r, hr, hhistory, hsequence, hcutoff, hdata⟩ := h
  have hgrown := Root.ofHistory_cutoff hlog hlog' hext hr hhistory
  rw [hcutoff] at hgrown
  exact ⟨r, hgrown, hhistory, hsequence, hcutoff, hdata⟩

/-- The root that a type reads from a snapshot is the root that the history up to its cutoff makes,
whichever type has written the snapshot. -/
theorem toRoot?_eq {κ : Type} {S : κ → Type} {types : ∀ k, AggregateType (S k)}
    (hfaithful : AggregateType.Faithful types) {writer k : κ} (h : s.Reflects (types writer) log id)
    (htype : s.type = (types writer).name) {root : Root (S k)}
    (hroot : s.toRoot? (types k) id = some root) :
    Root.ofHistory (types k) id ((log.history id).filter (Event.upTo s.cutoff)) = .ok root := by
  obtain ⟨r, hr, _, hsequence, hcutoff, hdata⟩ := h
  obtain ⟨hid, _, huncommitted, _⟩ := Root.ofHistory_eq_ok hr
  unfold Snapshot.toRoot? at hroot
  split at hroot
  · rename_i hread
    obtain ⟨state, hstate, rfl⟩ := Option.map_eq_some_iff.1 hroot
    -- The names agree, so what was read is what the writer has stored.
    cases hfaithful (hread.symm.trans htype) hdata hstate
    rw [hr, ← hsequence, ← hcutoff, ← hid, ← huncommitted]
  · cases hroot

end Snapshot.Reflects

namespace SnapshotCache

variable {κ : Type} {S : κ → Type} {types : ∀ k, AggregateType (S k)} {log log' : Log}
  {c c' : SnapshotCache}

/-- Every snapshot reflects the log, for the type that wrote it. -/
structure Sound (types : ∀ k, AggregateType (S k)) (log : Log) (c : SnapshotCache) : Prop where
  /-- Every snapshot is kept under its own cutoff. -/
  keyed : c.Keyed
  /-- Every snapshot is a state that the history of its root makes, of the type that is named. -/
  reflects : ∀ {id : String} {cutoff : Int} {s : Snapshot}, c.Holds id cutoff s →
    ∃ k, s.type = (types k).name ∧ s.Reflects (types k) log id

theorem sound_new (types : ∀ k, AggregateType (S k)) (log : Log) (limit : Nat) :
    (new limit).Sound types log where
  keyed _ _ _ h := absurd h (not_holds_new _ _ _ _)
  reflects h := absurd h (not_holds_new _ _ _ _)

/-- A cache without other contents is sound as well. -/
theorem Sound.within (h : c.Sound types log) (hwithin : c'.Within c) : c'.Sound types log where
  keyed := h.keyed.within hwithin
  reflects := by
    intro id cutoff s' hs'
    obtain ⟨s, hs, hsame⟩ := hwithin hs'
    obtain ⟨k, htype, hreflects⟩ := h.reflects hs
    exact ⟨k, hsame.type.trans htype, hreflects.sameContent hsame⟩

/-- Later commits leave the cache sound. -/
theorem Sound.mono (h : c.Sound types log) (hlog : log.Consistent) (hlog' : log'.Consistent)
    (hext : log.Extends log') : c.Sound types log' where
  keyed := h.keyed
  reflects := by
    intro id cutoff s hs
    obtain ⟨k, htype, hreflects⟩ := h.reflects hs
    exact ⟨k, htype, hreflects.mono hlog hlog' hext⟩

/-- A root that a replay has made can be put in. -/
theorem Sound.put (h : c.Sound types log) (hlog : log.Consistent) {k : κ} {id : String}
    {bound : Int} {r : Root (S k)}
    (hr : Root.ofHistory (types k) id ((log.history id).filter (Event.upTo bound)) = .ok r)
    (now : Instant) : (c.put (types k) r now).Sound types log where
  keyed := by
    intro id' cutoff s hs
    rcases holds_of_holds_put hs with hs | ⟨_, _, hcutoff, _⟩
    · exact h.keyed hs
    · exact hcutoff.symm
  reflects := by
    intro id' cutoff s hs
    rcases holds_of_holds_put hs with hs | ⟨hs, hid, _, hhistory⟩
    · exact h.reflects hs
    · obtain ⟨data, hdata, rfl⟩ := Option.map_eq_some_iff.1 hs
      have hroot : id' = id := hid.trans (Root.ofHistory_eq_ok hr).1
      subst hroot
      exact ⟨k, rfl, r, Root.ofHistory_cutoff hlog hlog (.refl _) hr hhistory, hhistory, rfl, rfl,
        hdata⟩

end SnapshotCache

/-! ### The sample aggregates -/

namespace Sample

/-- The kinds have different names. -/
theorem name_injective (k k' : Kind) (h : (aggregateType k).name = (aggregateType k').name) :
    k = k' := by
  cases k <;> cases k' <;> first | rfl | exact absurd h (by decide)

theorem json_counter (value : Int) (created : Bool) :
    (State.counter value created).json
      = .obj [("created", .bool created), ("value", .int value)] := by
  have hlt : "created" < "value" := by decide
  simp only [State.json, Json.record, List.foldl, Dict.place, hlt, if_true]

theorem json_account (balance : Int) :
    (State.account balance).json = .obj [("balance", .int balance)] := rfl

/-- A kind reads the stored form of a state as that state, or cannot read it. -/
theorem faithful_aggregateType : AggregateType.Faithful aggregateType := by
  refine AggregateType.faithful_of_names name_injective fun k state data state' hdata hstate => ?_
  change encodeState state = some data at hdata
  change decodeState k data = some state' at hstate
  cases state with
  | counter value created =>
    cases hdata
    rw [json_counter] at hstate
    cases k <;> simp_all [decodeState, Json.get?, Table.find, Json.int?, bool?, Json.str?]
  | account balance =>
    cases hdata
    rw [json_account] at hstate
    cases k <;> simp_all [decodeState, Json.get?, Table.find, Json.int?, Json.str?]
  | brittle mode =>
    simp only [encodeState] at hdata
    split at hdata
    · cases hdata
    · cases hdata
      cases k <;> simp_all [decodeState, Json.get?, Json.str?]

end Sample

end Chronicle
