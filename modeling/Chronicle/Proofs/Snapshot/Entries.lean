import Chronicle.Proofs.Replay.Snapshots
import Mathlib.Algebra.Order.Ring.Int
import Mathlib.Data.List.Nodup

namespace Chronicle

/-!
# The snapshot cache as a finite map

* `SnapshotCache.kept?` — the snapshot that is kept for a root under a cutoff. What the operations
  do to the cache is told as what they do to this map.
* `SnapshotCache.Keyed.newest?_eq_some_iff` — a lookup considers the snapshot with the greatest cutoff
  up to its bound.
* `SnapshotCache.kept?_store`, `SnapshotCache.kept?_used`, `SnapshotCache.kept?_remove` — the map after a
  snapshot has come in, has been used (`SnapshotCache.used`) or has been removed.
* `SnapshotCache.all` — all snapshots, each once (`nodup_all`), and their number after a snapshot
  has come in, has been used or has been removed.
-/

/-! ### Tables -/

namespace Table

variable {κ α : Type} [DecidableEq κ]

theorem get?_filter (t : Table κ α) (p : κ → α → Bool) (k : κ) :
    (t.filter p).get? k = (t.get? k).filter (p k) := by
  ext a
  rw [get?_eq_some_iff, entries_filter, List.mem_filter, ← get?_eq_some_iff]
  simp [Option.filter_eq_some_iff]

/-- A new key makes the table longer by one. -/
theorem size_insert (t : Table κ α) (k : κ) (a : α) :
    (t.insert k a).size = if t.contains k then t.size else t.size + 1 := by
  rw [← length_keys, keys_insert]
  by_cases h : k ∈ t.keys <;> simp [h, contains_iff, length_keys]

theorem isEmpty_insert (t : Table κ α) (k : κ) (a : α) : (t.insert k a).isEmpty = false := by
  obtain ⟨l, hl⟩ := t
  cases l with
  | nil => rfl
  | cons e rest =>
    simp only [insert, isEmpty, put]
    split <;> rfl

/-- A key that is forgotten makes the table shorter by one. -/
theorem size_erase {t : Table κ α} {k : κ} (h : t.contains k = true) :
    (t.erase k).size + 1 = t.size := by
  have hkeys : (t.erase k).keys = t.keys.erase k := by
    rw [keys, keys, List.Nodup.erase_eq_filter t.nodup_keys, erase, entries_filter, List.filter_map]
    congr 1
    refine List.filter_congr fun e _ => ?_
    by_cases he : e.1 = k <;> simp [he]
  have hmem : k ∈ t.keys := (t.contains_iff k).1 h
  have hpos : 0 < t.keys.length := List.length_pos_of_mem hmem
  rw [← length_keys, hkeys, List.length_erase_of_mem hmem, ← length_keys]
  omega

/-- What an insertion does to a sum over the values: the new value counts, an old one no longer
does. -/
theorem sum_values_insert (f : α → Nat) (t : Table κ α) (k : κ) (a : α) :
    ((t.insert k a).values.map f).sum + ((t.get? k).map f).getD 0
      = (t.values.map f).sum + f a := by
  obtain ⟨l, hl⟩ := t
  simp only [insert, get?, values]
  clear hl
  induction l with
  | nil => simp [put, find]
  | cons e rest ih =>
    obtain ⟨k', a'⟩ := e
    by_cases h : k' = k
    · simp [put, find, h]
      omega
    · simp only [put, find, h, if_false, List.map_cons, List.sum_cons]
      omega

end Table

namespace SnapshotCache

variable {S : Type} {c : SnapshotCache} {id id' : String} {cutoff cutoff' bound : Int}
  {s s' : Snapshot}

/-! ### The map -/

/-- The snapshot that is kept for a root under a cutoff. -/
def kept? (c : SnapshotCache) (id : String) (cutoff : Int) : Option Snapshot :=
  (c.ofRoot id).get? cutoff

theorem kept?_eq_some_iff : c.kept? id cutoff = some s ↔ c.Holds id cutoff s :=
  Table.get?_eq_some_iff _ _ _

@[simp] theorem kept?_new (limit : Nat) (id : String) (cutoff : Int) :
    (new limit).kept? id cutoff = none := rfl

/-- The map after the snapshots of one root have been replaced. -/
theorem kept?_insert (c : SnapshotCache) (id id' : String) (t : Table Int Snapshot) (count : Nat)
    (cutoff : Int) :
    ({ c with entries := c.entries.insert id t, count } : SnapshotCache).kept? id' cutoff
      = if id' = id then t.get? cutoff else c.kept? id' cutoff := by
  unfold kept? ofRoot
  rw [Table.get?_insert]
  by_cases h : id' = id <;> simp [h]

theorem contains_ofRoot (c : SnapshotCache) (id : String) (cutoff : Int) :
    (c.ofRoot id).contains cutoff = (c.kept? id cutoff).isSome := rfl

/-- Every snapshot is kept under its own cutoff. -/
theorem Keyed.cutoff_eq (hkeyed : c.Keyed) (h : c.kept? id cutoff = some s) : s.cutoff = cutoff :=
  hkeyed (kept?_eq_some_iff.1 h)

/-! ### The newest snapshot -/

/-- There is no newest snapshot up to a bound exactly if all cutoffs are behind it. -/
theorem newest?_eq_none_iff {entries : List (Int × Snapshot)} :
    newest? bound entries = none ↔ ∀ e ∈ entries, bound < e.1 := by
  induction entries with
  | nil => simp [newest?]
  | cons e rest ih =>
    obtain ⟨cutoff, s⟩ := e
    rw [newest?]
    cases hrest : newest? bound rest with
    | none =>
      rw [hrest] at ih
      have hbehind := ih.1 rfl
      by_cases h : cutoff ≤ bound
      · simp only [h, if_true, reduceCtorEq, false_iff]
        intro hall
        have hlt := hall _ List.mem_cons_self
        simp only at hlt
        omega
      · simpa [h] using ⟨by omega, fun c s hmem => hbehind (c, s) hmem⟩
    | some best =>
      rw [hrest] at ih
      have hsome : ¬ ∀ e ∈ rest, bound < e.1 := fun h => nomatch ih.2 h
      simp only
      split <;> simp_all

/-- The newest snapshot up to a bound has the greatest cutoff of those up to the bound. -/
theorem le_newest? {entries : List (Int × Snapshot)}
    (hkeyed : ∀ e ∈ entries, e.2.cutoff = e.1) (h : newest? bound entries = some s) :
    ∀ e ∈ entries, e.1 ≤ bound → e.1 ≤ s.cutoff := by
  induction entries generalizing s with
  | nil => simp
  | cons first rest ih =>
    obtain ⟨cutoff, s₀⟩ := first
    obtain ⟨hself, hkeyed⟩ := List.forall_mem_cons.1 hkeyed
    change s₀.cutoff = cutoff at hself
    rw [newest?] at h
    intro e he hle
    rcases List.mem_cons.1 he with rfl | he
    · -- The first entry has lost only against a cutoff that is not smaller.
      change cutoff ≤ bound at hle
      cases hrest : newest? bound rest with
      | none =>
        simp only [hrest, hle, if_true, Option.some.injEq] at h
        exact Int.le_of_eq (h ▸ hself.symm)
      | some best =>
        simp only [hrest] at h
        split at h
        · cases h
          exact Int.le_of_eq hself.symm
        · cases h
          show cutoff ≤ s.cutoff
          omega
    · cases hrest : newest? bound rest with
      | none =>
        have hbehind := newest?_eq_none_iff.1 hrest e he
        omega
      | some best =>
        simp only [hrest] at h
        have hbest := ih hkeyed hrest e he hle
        split at h
        · cases h
          omega
        · cases h
          exact hbest

/-- A snapshot is the newest one of a root up to a bound: it is cut at or before the bound, and no
other such snapshot is cut later. -/
structure Newest (c : SnapshotCache) (id : String) (bound : Int) (s : Snapshot) : Prop where
  /-- The snapshot is kept. -/
  kept : c.kept? id s.cutoff = some s
  /-- It is cut at or before the bound. -/
  le_bound : s.cutoff ≤ bound
  /-- No other snapshot up to the bound is cut later. -/
  greatest : ∀ cutoff s', c.kept? id cutoff = some s' → cutoff ≤ bound → cutoff ≤ s.cutoff

/-- A lookup considers the newest snapshot up to the bound. -/
theorem Keyed.newest?_eq_some_iff (hkeyed : c.Keyed) :
    newest? bound (c.ofRoot id).entries = some s ↔ c.Newest id bound s := by
  have hentries : ∀ e ∈ (c.ofRoot id).entries, e.2.cutoff = e.1 := fun e he => hkeyed he
  constructor
  · intro h
    obtain ⟨cutoff, hmem, hle⟩ := mem_of_newest? h
    obtain rfl : s.cutoff = cutoff := hentries _ hmem
    exact ⟨kept?_eq_some_iff.2 hmem, hle, fun cutoff s' hs' =>
      le_newest? hentries h _ (kept?_eq_some_iff.1 hs')⟩
  · intro h
    cases hnewest : newest? bound (c.ofRoot id).entries with
    | none =>
      have hbehind := newest?_eq_none_iff.1 hnewest _ (kept?_eq_some_iff.1 h.kept)
      have hle := h.le_bound
      simp only at hbehind
      omega
    | some best =>
      obtain ⟨cutoff, hmem, hle⟩ := mem_of_newest? hnewest
      obtain rfl : best.cutoff = cutoff := hentries _ hmem
      -- Neither of the two is cut before the other one, so they are kept under one cutoff.
      have hcutoff : best.cutoff = s.cutoff := Int.le_antisymm
        (h.greatest _ _ (kept?_eq_some_iff.2 hmem) hle)
        (le_newest? hentries hnewest _ (kept?_eq_some_iff.1 h.kept) h.le_bound)
      have hkept := kept?_eq_some_iff.2 hmem
      rw [hcutoff, h.kept] at hkept
      exact hkept.symm

/-- A lookup considers no snapshot if there is none up to the bound. -/
theorem newest?_ofRoot_eq_none_iff : newest? bound (c.ofRoot id).entries = none ↔
    ∀ cutoff, cutoff ≤ bound → c.kept? id cutoff = none := by
  rw [newest?_eq_none_iff]
  constructor
  · intro h cutoff hle
    by_contra hne
    obtain ⟨s, hs⟩ := Option.ne_none_iff_exists'.1 hne
    have hlt := h _ (kept?_eq_some_iff.1 hs)
    simp only at hlt
    omega
  · intro h e he
    by_contra hle
    have hkept : c.kept? id e.1 = some e.2 := kept?_eq_some_iff.2 he
    rw [h e.1 (by omega)] at hkept
    cases hkept

/-! ### Coming in, being used and being removed -/

/-- The first snapshot of a cutoff stays. -/
theorem kept?_store (c : SnapshotCache) (id id' : String) (s : Snapshot) (cutoff : Int) :
    (c.store id s).kept? id' cutoff
      = (c.kept? id' cutoff).or (if id' = id ∧ cutoff = s.cutoff then some s else none) := by
  unfold store
  rw [contains_ofRoot]
  cases hkept : c.kept? id s.cutoff with
  | some old =>
    simp only [Option.isSome_some, if_true]
    split
    · rename_i h
      rw [h.1, h.2, hkept]
      rfl
    · rw [Option.or_none]
  | none =>
    simp only [Option.isSome_none, Bool.false_eq_true, if_false]
    rw [kept?_insert, Table.get?_insert]
    by_cases hid : id' = id
    · subst hid
      by_cases hcutoff : cutoff = s.cutoff
      · simp [hcutoff, hkept]
      · simp [hcutoff, kept?]
    · simp [hid]

@[simp] theorem limit_store (c : SnapshotCache) (id : String) (s : Snapshot) :
    (c.store id s).limit = c.limit := by
  unfold store
  split <;> rfl

@[simp] theorem trimming_store (c : SnapshotCache) (id : String) (s : Snapshot) :
    (c.store id s).trimming = c.trimming := by
  unfold store
  split <;> rfl

theorem count_store_le (c : SnapshotCache) (id : String) (s : Snapshot) :
    (c.store id s).count ≤ c.count + 1 := by
  unfold store
  split
  · exact Nat.le_succ _
  · exact Nat.le_refl _

theorem Keyed.store (hkeyed : c.Keyed) (id : String) (s : Snapshot) : (c.store id s).Keyed := by
  intro id' cutoff s' h
  rw [← kept?_eq_some_iff, kept?_store, Option.or_eq_some_iff] at h
  rcases h with h | ⟨_, h⟩
  · exact hkeyed.cutoff_eq h
  · split at h
    · rename_i hself
      cases h
      exact hself.2.symm
    · cases h

/-- A snapshot is used once more. -/
def used (c : SnapshotCache) (id : String) (s : Snapshot) (now : Instant) : SnapshotCache :=
  { c with entries := c.entries.insert id ((c.ofRoot id).insert s.cutoff (s.hit now)) }

theorem kept?_used (c : SnapshotCache) (id id' : String) (s : Snapshot) (now : Instant)
    (cutoff : Int) : (c.used id s now).kept? id' cutoff
      = if id' = id ∧ cutoff = s.cutoff then some (s.hit now) else c.kept? id' cutoff := by
  have hinsert := kept?_insert c id id' ((c.ofRoot id).insert s.cutoff (s.hit now)) c.count cutoff
  rw [Table.get?_insert] at hinsert
  refine Eq.trans hinsert ?_
  by_cases hid : id' = id
  · subst hid
    by_cases hcutoff : cutoff = s.cutoff <;> simp [hcutoff, kept?]
  · simp [hid]

/-- The map without one snapshot. -/
theorem kept?_remove (c : SnapshotCache) (id id' : String) (cutoff cutoff' : Int) :
    (c.remove id cutoff).kept? id' cutoff'
      = if id' = id ∧ cutoff' = cutoff then none else c.kept? id' cutoff' := by
  unfold remove
  split
  · rename_i hnone
    split
    · rename_i h
      simp [kept?, ofRoot, h.1, hnone]
    · rfl
  · rename_i ofRoot hroot
    have hkept : ∀ cutoff, ofRoot.get? cutoff = c.kept? id cutoff := fun cutoff => by
      simp [kept?, SnapshotCache.ofRoot, hroot]
    split
    · rw [kept?_insert, Table.get?_erase]
      by_cases hid : id' = id
      · subst hid
        by_cases hcutoff : cutoff' = cutoff <;> simp [hcutoff, hkept]
      · simp [hid]
    · rename_i habsent
      split
      · rename_i h
        rw [h.1, h.2, ← hkept]
        simpa [Table.contains] using habsent
      · rfl

@[simp] theorem limit_remove (c : SnapshotCache) (id : String) (cutoff : Int) :
    (c.remove id cutoff).limit = c.limit := by
  unfold remove
  split
  · rfl
  · split <;> rfl

/-! ### All snapshots -/

theorem mem_all_iff {c : SnapshotCache} (hkeyed : c.Keyed) {e : String × Snapshot} :
    e ∈ c.all ↔ c.kept? e.1 e.2.cutoff = some e.2 := by
  obtain ⟨id, s⟩ := e
  simp only [all, List.mem_flatMap, List.mem_map, Table.values]
  constructor
  · rintro ⟨⟨id, t⟩, hroot, _, ⟨⟨cutoff, s⟩, hmem, rfl⟩, ⟨⟩⟩
    have hkept : c.kept? id cutoff = some s := by
      rw [kept?, ofRoot, (Table.get?_eq_some_iff _ _ _).2 hroot]
      exact (Table.get?_eq_some_iff _ _ _).2 hmem
    rw [← hkeyed.cutoff_eq hkept] at hkept
    exact hkept
  · intro hkept
    unfold kept? ofRoot at hkept
    cases hroot : c.entries.get? id with
    | none => simp [hroot] at hkept
    | some t =>
      rw [hroot, Option.getD_some, Table.get?_eq_some_iff] at hkept
      exact ⟨(id, t), (Table.get?_eq_some_iff _ _ _).1 hroot, s, ⟨_, hkept, rfl⟩, rfl⟩

/-- Where a snapshot is kept. -/
def place (e : String × Snapshot) : String × Int := (e.1, e.2.cutoff)

/-- No two snapshots are kept in one place. -/
theorem nodup_all (hkeyed : c.Keyed) : (c.all.map place).Nodup := by
  rw [all, List.map_flatMap, List.nodup_flatMap]
  constructor
  · intro e he
    -- Within a root the cutoffs are the keys of a table.
    have hkeys : (e.2.values.map fun s => (e.1, s)).map place = e.2.keys.map fun k => (e.1, k) := by
      simp only [Table.values, Table.keys, List.map_map]
      refine List.map_congr_left fun entry hentry => ?_
      have hholds : c.Holds e.1 entry.1 entry.2 := by
        rw [Holds, ofRoot, (Table.get?_eq_some_iff _ _ _).2 he]
        exact hentry
      simp [place, hkeyed hholds]
    rw [hkeys]
    exact e.2.nodup_keys.map fun k k' h => (Prod.mk.inj h).2
  · have hdistinct : c.entries.entries.Pairwise fun e e' => e.1 ≠ e'.1 :=
      List.pairwise_map.1 c.entries.nodup_keys
    refine hdistinct.imp fun hne => ?_
    simp only [Function.onFun, List.disjoint_left, List.map_map, List.mem_map]
    rintro _ ⟨s, _, rfl⟩ ⟨s', _, heq⟩
    exact hne (Prod.mk.inj heq).1.symm

/-- The number of snapshots is the sum over the roots. -/
theorem length_all (c : SnapshotCache) :
    c.all.length = (c.entries.values.map Table.size).sum := by
  simp [all, Table.values, Table.size, List.length_flatMap, Function.comp_def]

theorem length_all_insert (c : SnapshotCache) (id : String) (t : Table Int Snapshot) (count : Nat) :
    ({ c with entries := c.entries.insert id t, count } : SnapshotCache).all.length
        + (c.ofRoot id).size = c.all.length + t.size := by
  have hsize : (c.ofRoot id).size = ((c.entries.get? id).map Table.size).getD 0 := by
    unfold ofRoot
    cases c.entries.get? id <;> rfl
  rw [length_all, length_all, hsize]
  exact Table.sum_values_insert Table.size c.entries id t

/-- The number after a snapshot has come in. -/
theorem length_all_store (c : SnapshotCache) (id : String) (s : Snapshot) :
    (c.store id s).all.length + c.count = c.all.length + (c.store id s).count := by
  unfold store
  split
  · rfl
  · rename_i habsent
    have hlength := length_all_insert c id ((c.ofRoot id).insert s.cutoff s) (c.count + 1)
    rw [Table.size_insert, if_neg habsent] at hlength
    simp only
    omega

/-- The number after a snapshot has been used. -/
theorem length_all_used (h : (c.kept? id s.cutoff).isSome) (now : Instant) :
    (c.used id s now).all.length = c.all.length := by
  have hcontains : (c.ofRoot id).contains s.cutoff = true := h
  have hlength := length_all_insert c id ((c.ofRoot id).insert s.cutoff (s.hit now)) c.count
  rw [Table.size_insert, if_pos hcontains] at hlength
  exact Nat.add_right_cancel hlength

/-- The number after a snapshot has been removed. -/
theorem length_all_remove (h : (c.kept? id cutoff).isSome) :
    (c.remove id cutoff).all.length + 1 = c.all.length ∧
      (c.remove id cutoff).count = c.count - 1 := by
  have hcontains : (c.ofRoot id).contains cutoff = true := h
  unfold remove
  cases hroot : c.entries.get? id with
  | none =>
    rw [contains_ofRoot, kept?, ofRoot, hroot] at hcontains
    cases hcontains
  | some t =>
    have ht : c.ofRoot id = t := by rw [ofRoot, hroot, Option.getD_some]
    rw [ht] at hcontains
    simp only [hcontains, if_true, and_true]
    have hlength := length_all_insert c id (t.erase cutoff) (c.count - 1)
    rw [ht, ← Table.size_erase hcontains] at hlength
    omega

end SnapshotCache

end Chronicle
