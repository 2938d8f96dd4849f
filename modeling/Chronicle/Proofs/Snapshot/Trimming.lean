import Chronicle.Proofs.Snapshot.Entries
import Mathlib.Data.List.Perm.Subperm

namespace Chronicle

/-!
# What a trim removes

* `SnapshotCache.Counted` — the counter is the number of snapshots.
* `SnapshotCache.Loses` — what a pass does: some snapshots are gone and nothing else has changed.
* `SnapshotCache.trimPassesAt_keeps`, `Orderly.trimAt_keeps` — what every pass keeps is kept by all of
  them, and by a trim.
* `SnapshotCache.Loops` — the passes as a loop without a bound, with their number; the loop ends
  (`Counted.loops`) in one way only (`Loops.unique`).
* `SnapshotCache.Settled` — how every call leaves the cache, and `Orderly.settled_trimAt` for a
  trim.
-/

namespace SnapshotCache

variable {c c' : SnapshotCache} {id : String} {cutoff : Int} {s : Snapshot}

/-- The counter is the number of snapshots, and these are kept under their own cutoffs. -/
structure Counted (c : SnapshotCache) : Prop where
  /-- Every snapshot is kept under its own cutoff. -/
  keyed : c.Keyed
  /-- The counter is the number of snapshots. -/
  count_eq : c.count = c.all.length

/-- The mark of a trim counts for nothing. -/
theorem Counted.marked (hc : c.Counted) : Counted { c with trimming := true } :=
  ⟨hc.keyed, hc.count_eq⟩

/-! ### Passes -/

/-- Some snapshots are gone, and nothing else has changed. -/
structure Loses (doomed : List (String × Snapshot)) (c c' : SnapshotCache) : Prop where
  /-- The snapshots that are left are those that were not to go. -/
  kept : ∀ id cutoff, c'.kept? id cutoff
    = if (id, cutoff) ∈ doomed.map place then none else c.kept? id cutoff
  /-- The limit is the same. -/
  limit : c'.limit = c.limit
  /-- The counter is less by the number of those that are gone. -/
  count : c'.count + doomed.length = c.count
  /-- The counter is still the number of snapshots. -/
  counted : c'.Counted

/-- Of the snapshots of a cache some may be gone, and nothing else has changed. -/
structure Thinned (c c' : SnapshotCache) : Prop where
  /-- The counter is the number of snapshots. -/
  counted : c'.Counted
  /-- The limit is the same. -/
  limit : c'.limit = c.limit
  /-- What is left was there before. -/
  kept : ∀ {id cutoff s}, c'.kept? id cutoff = some s → c.kept? id cutoff = some s

theorem Thinned.trans {c'' : SnapshotCache} (h : Thinned c c') (h' : Thinned c' c'') :
    Thinned c c'' where
  counted := h'.counted
  limit := h'.limit.trans h.limit
  kept hs := h.kept (h'.kept hs)

theorem Thinned.refl (hc : c.Counted) : Thinned c c := ⟨hc, rfl, fun hs => hs⟩

/-- A cache with a snapshot keeps one. -/
theorem Counted.exists_kept (hc : c.Counted) (h : 0 < c.count) :
    ∃ id cutoff s, c.kept? id cutoff = some s := by
  rw [hc.count_eq] at h
  obtain ⟨⟨id, s⟩, hmem⟩ := List.exists_mem_of_length_pos h
  exact ⟨id, s.cutoff, s, (mem_all_iff hc.keyed).1 hmem⟩

/-- If there are fewer snapshots than before, one is gone. -/
theorem Thinned.exists_gone (h : Thinned c c') (hc : c.Counted) (hlt : c'.count < c.count) :
    ∃ id cutoff s, c.kept? id cutoff = some s ∧ c'.kept? id cutoff = none := by
  by_contra hnone
  have hsub : c.all ⊆ c'.all := by
    rintro ⟨id, s⟩ hmem
    have hkept := (mem_all_iff hc.keyed).1 hmem
    obtain ⟨s', hs'⟩ := Option.ne_none_iff_exists'.1 fun hgone => hnone ⟨_, _, _, hkept, hgone⟩
    cases hkept.symm.trans (h.kept hs')
    exact (mem_all_iff h.counted.keyed).2 hs'
  have hnodup := List.Nodup.of_map place (nodup_all hc.keyed)
  have hlength := (List.subperm_of_subset hnodup hsub).length_le
  rw [hc.count_eq, h.counted.count_eq] at hlt
  omega

theorem Loses.thinned {doomed : List (String × Snapshot)} (h : Loses doomed c c') :
    Thinned c c' where
  counted := h.counted
  limit := h.limit
  kept hs := by
    rw [h.kept] at hs
    split at hs
    · cases hs
    · exact hs

theorem Keyed.remove (hkeyed : c.Keyed) (id : String) (cutoff : Int) : (c.remove id cutoff).Keyed :=
  fun _ _ _ h => hkeyed (holds_of_holds_remove h)

/-- Snapshots that are kept in different places are removed one after the other, each of them. -/
theorem Counted.loses_foldl_remove (hc : c.Counted) {doomed : List (String × Snapshot)}
    (hkept : ∀ e ∈ doomed, e ∈ c.all) (hnodup : (doomed.map place).Nodup) :
    Loses doomed c (doomed.foldl (fun c e => c.remove e.1 e.2.cutoff) c) := by
  induction doomed generalizing c with
  | nil => exact ⟨by simp, rfl, by simp, hc⟩
  | cons e rest ih =>
    obtain ⟨he, hrest⟩ := List.forall_mem_cons.1 hkept
    obtain ⟨hfresh, hnodup⟩ := List.nodup_cons.1 hnodup
    rw [mem_all_iff hc.keyed] at he
    obtain ⟨hlength, hcount⟩ := length_all_remove (c := c) (Option.isSome_iff_exists.2 ⟨_, he⟩)
    have hcounted : (c.remove e.1 e.2.cutoff).Counted := by
      refine ⟨hc.keyed.remove _ _, ?_⟩
      rw [hcount, hc.count_eq, ← hlength, Nat.add_sub_cancel]
    -- The others are in other places, so they are still there.
    have hkept' : ∀ e' ∈ rest, e' ∈ (c.remove e.1 e.2.cutoff).all := by
      intro e' he'
      have hother : ¬ (e'.1 = e.1 ∧ e'.2.cutoff = e.2.cutoff) := fun h =>
        hfresh (List.mem_map.2 ⟨e', he', Prod.ext h.1 h.2⟩)
      rw [mem_all_iff hcounted.keyed, kept?_remove, if_neg hother, ← mem_all_iff hc.keyed]
      exact hrest e' he'
    have hloses := ih hcounted hkept' hnodup
    refine ⟨fun id cutoff => ?_, hloses.limit.trans (limit_remove _ _ _), ?_, hloses.counted⟩
    · rw [List.foldl_cons, hloses.kept, kept?_remove]
      by_cases hlater : (id, cutoff) ∈ rest.map place
      · have hmem : (id, cutoff) ∈ (e :: rest).map place := List.mem_cons_of_mem _ hlater
        rw [if_pos hlater, if_pos hmem]
      · simp only [hlater, if_false, List.map_cons, List.mem_cons, or_false, place, Prod.mk.injEq]
    · have hcount' := hloses.count
      have hpos : 0 < c.all.length := by omega
      have hcount_eq := hc.count_eq
      rw [List.foldl_cons, List.length_cons]
      omega

theorem byWorth_perm (c : SnapshotCache) (now : Instant) : (c.byWorth now).Perm c.all :=
  List.mergeSort_perm _ _

/-- A pass removes the snapshots of least worth, as many as it may. -/
theorem Counted.loses_trimPass (hc : c.Counted) (now : Instant) (removals : Nat) :
    Loses ((c.byWorth now).take removals) c (c.trimPass now removals) := by
  refine hc.loses_foldl_remove (fun e he => ?_) ?_
  · exact (byWorth_perm c now).mem_iff.1 (List.mem_of_mem_take he)
  · have hnodup : ((c.byWorth now).map place).Nodup :=
      ((byWorth_perm c now).map place).nodup_iff.2 (nodup_all hc.keyed)
    exact hnodup.sublist ((List.take_sublist _ _).map place)

theorem Counted.count_trimPass (hc : c.Counted) (now : Instant) (removals : Nat) :
    (c.trimPass now removals).count = c.count - removals := by
  have hcount := (hc.loses_trimPass now removals).count
  rw [List.length_take, (byWorth_perm c now).length_eq, ← hc.count_eq] at hcount
  omega

theorem removalsPerPass_pos (limit : Nat) : 0 < removalsPerPass limit :=
  Nat.lt_of_lt_of_le (by decide) (Nat.le_max_right _ _)

/-! ### All passes -/

/-- What every pass keeps is kept by all of them. -/
theorem trimPassesAt_keeps {P : SnapshotCache → Prop} {clock : Nat → Instant}
    (hpass : ∀ n c, P c → P (c.trimPass (clock n) (removalsPerPass c.limit))) {fuel : Nat}
    (hc : P c) : P (trimPassesAt clock fuel c) := by
  induction fuel generalizing c clock with
  | zero => exact hc
  | succ fuel ih =>
    rw [trimPassesAt]
    split
    · exact hc
    · simp only
      split
      · exact hpass 0 c hc
      · exact ih (fun n => hpass (n + 1)) (hpass 0 c hc)

/-! ### The loop -/

/-- The loop of a trim, with the number of its passes. The limit is met, or a pass has removed
nothing, or it has removed something and the loop goes on. -/
inductive Loops : (Nat → Instant) → Nat → SnapshotCache → SnapshotCache → Prop where
  /-- The limit is met. -/
  | met {clock : Nat → Instant} {c : SnapshotCache} : c.count ≤ c.limit → Loops clock 0 c c
  /-- A pass removes nothing. -/
  | idle {clock : Nat → Instant} {c c' : SnapshotCache} : c.limit < c.count →
      c.trimPass (clock 0) (removalsPerPass c.limit) = c' → c'.count = c.count → Loops clock 1 c c'
  /-- A pass removes something. -/
  | again {clock : Nat → Instant} {passes : Nat} {c c' c'' : SnapshotCache} : c.limit < c.count →
      c.trimPass (clock 0) (removalsPerPass c.limit) = c' → c'.count ≠ c.count →
      Loops (later clock) passes c' c'' → Loops clock (passes + 1) c c''

/-- There is one way in which the loop ends. -/
theorem Loops.unique {clock : Nat → Instant} {passes passes' : Nat} {c₁ c₂ : SnapshotCache}
    (h : Loops clock passes c c₁) (h' : Loops clock passes' c c₂) : passes' = passes ∧ c₂ = c₁ := by
  induction h generalizing passes' with
  | met hmet =>
    cases h' with
    | met => exact ⟨rfl, rfl⟩
    | idle hover => omega
    | again hover => omega
  | idle hover hpass hidle =>
    cases h' with
    | met hmet => omega
    | idle _ hpass' => exact ⟨rfl, hpass'.symm.trans hpass⟩
    | again _ hpass' hless =>
      rw [hpass] at hpass'
      exact absurd (hpass' ▸ hidle) hless
  | again hover hpass hless _ ih =>
    cases h' with
    | met hmet => omega
    | idle _ hpass' hidle =>
      rw [hpass] at hpass'
      exact absurd (hpass' ▸ hidle) hless
    | again _ hpass' _ hlater =>
      rw [hpass] at hpass'
      subst hpass'
      obtain ⟨rfl, rfl⟩ := ih hlater
      exact ⟨rfl, rfl⟩

/-- How many snapshots a cache has left after its passes: none is gone if the limit was met, and
otherwise the last pass has begun above the limit. -/
structure Left (c c' : SnapshotCache) : Prop where
  /-- The limit is met. -/
  le_limit : c'.count ≤ c.limit
  /-- A cache within its limit loses nothing. -/
  eq_of_le : c.count ≤ c.limit → c'.count = c.count
  /-- The last pass has begun above the limit. -/
  le_count : c.limit < c.count → c.limit + 1 - removalsPerPass c.limit ≤ c'.count

/-- The loop ends, and the passes with fuel for every snapshot are the loop. -/
theorem Counted.loops (hc : c.Counted) (clock : Nat → Instant) {fuel : Nat}
    (hfuel : c.count ≤ fuel) :
    (∃ passes, passes ≤ c.count - c.limit ∧ Loops clock passes c (trimPassesAt clock fuel c)) ∧
      Left c (trimPassesAt clock fuel c) := by
  induction fuel generalizing c clock with
  | zero =>
    have hmet : c.count ≤ c.limit := by omega
    exact ⟨⟨0, Nat.zero_le _, .met hmet⟩, hmet, fun _ => rfl, fun h => by
      exact absurd h (Nat.not_lt.2 hmet)⟩
  | succ fuel ih =>
    rw [trimPassesAt]
    by_cases hmet : c.count ≤ c.limit
    · rw [if_pos hmet]
      exact ⟨⟨0, Nat.zero_le _, .met hmet⟩, hmet, fun _ => rfl, fun h => by
        exact absurd h (Nat.not_lt.2 hmet)⟩
    · have hloses := hc.loses_trimPass (clock 0) (removalsPerPass c.limit)
      have hcount := hc.count_trimPass (clock 0) (removalsPerPass c.limit)
      have hlimit := hloses.limit
      have hpos := removalsPerPass_pos c.limit
      have hless : (c.trimPass (clock 0) (removalsPerPass c.limit)).count ≠ c.count := by omega
      obtain ⟨⟨passes, hmost, hloops⟩, hleft⟩ :=
        ih hloses.counted (later clock) (by omega)
      rw [if_neg hmet, if_neg hless]
      refine ⟨⟨passes + 1, by omega, .again (Nat.lt_of_not_le hmet) rfl hless hloops⟩,
        Nat.le_trans hleft.le_limit (Nat.le_of_eq hlimit), fun h => absurd h hmet, fun _ => ?_⟩
      -- Either this pass was the last one, or the last one is among the others.
      by_cases hlast : c.count - removalsPerPass c.limit ≤ c.limit
      · rw [hleft.eq_of_le (by omega), hcount]
        omega
      · have hbound := hleft.le_count (by omega)
        rw [hlimit] at hbound
        exact hbound

/-! ### Settled caches -/

/-- How a trim finds the cache: the counter is right, every root has a snapshot and no other trim is
under way. -/
structure Orderly (c : SnapshotCache) : Prop extends Counted c where
  /-- Every root that has an entry has a snapshot. -/
  occupied : ∀ id t, c.entries.get? id = some t → t.isEmpty = false
  /-- No trim is under way. -/
  idle : c.trimming = false

/-- How every call leaves the cache: it is orderly and within its limit. -/
structure Settled (c : SnapshotCache) : Prop extends Orderly c where
  /-- The limit is met. -/
  within : c.count ≤ c.limit

/-- A sweep forgets no snapshot. -/
theorem all_swept (c : SnapshotCache) : c.swept.all = c.all := by
  unfold all swept
  rw [Table.entries_filter]
  induction c.entries.entries with
  | nil => rfl
  | cons e rest ih =>
    cases hempty : e.2.isEmpty with
    | false => simp [hempty, ih]
    | true =>
      have hnone : e.2.values = [] := by
        simpa [Table.values, Table.isEmpty, List.isEmpty_iff] using hempty
      simp [hempty, hnone, ih]

@[simp] theorem kept?_swept (c : SnapshotCache) (id : String) (cutoff : Int) :
    c.swept.kept? id cutoff = c.kept? id cutoff := by
  unfold kept? ofRoot swept
  rw [Table.get?_filter]
  cases c.entries.get? id with
  | none => rfl
  | some t =>
    cases hempty : t.isEmpty with
    | false => simp [Option.filter, hempty]
    | true =>
      have hnone : t.entries = [] := by simpa [Table.isEmpty, List.isEmpty_iff] using hempty
      simp [Option.filter, hempty, Table.get?, Table.find, hnone]

/-- After a sweep the cache is orderly, if its counter is right. -/
theorem Counted.swept (hc : c.Counted) : c.swept.Orderly where
  keyed id cutoff s hs := by
    rw [← kept?_eq_some_iff, kept?_swept] at hs
    exact hc.keyed.cutoff_eq hs
  count_eq := by
    rw [all_swept]
    exact hc.count_eq
  occupied id t ht := by
    unfold SnapshotCache.swept at ht
    rw [Table.get?_filter, Option.filter_eq_some_iff] at ht
    simpa using ht.2
  idle := rfl

/-- A cache within its limit is not trimmed. -/
theorem trimAt_of_le (h : c.count ≤ c.limit) (clock : Nat → Instant) : c.trimAt clock = c := by
  rw [trimAt, if_pos (.inl h)]

theorem Orderly.trimAt_of_lt (hc : c.Orderly) (h : c.limit < c.count) (clock : Nat → Instant) :
    c.trimAt clock = (trimPassesAt clock c.count { c with trimming := true }).swept := by
  rw [trimAt, if_neg (by simp [hc.idle, h])]

/-- What every pass keeps is kept by a trim, if it only depends on the snapshots and their number.
-/
theorem Orderly.trimAt_keeps (hc : c.Orderly) {P : SnapshotCache → Prop} {clock : Nat → Instant}
    (hpass : ∀ n c, P c → P (c.trimPass (clock n) (removalsPerPass c.limit)))
    (hmark : P c → P { c with trimming := true }) (hsweep : ∀ c, P c → P c.swept) (hstart : P c) :
    P (c.trimAt clock) := by
  rcases Nat.lt_or_ge c.limit c.count with hover | hmet
  · rw [hc.trimAt_of_lt hover]
    exact hsweep _ (trimPassesAt_keeps hpass (hmark hstart))
  · rw [SnapshotCache.trimAt_of_le hmet]
    exact hstart

theorem Thinned.marked (h : Thinned c c') : Thinned c { c' with trimming := true } :=
  ⟨h.counted.marked, h.limit, h.kept⟩

theorem Thinned.swept (h : Thinned c c') : Thinned c c'.swept :=
  ⟨h.counted.swept.toCounted, h.limit, fun hs => h.kept (by simpa using hs)⟩

/-- A trim only removes snapshots. -/
theorem Orderly.thinned_trimAt (hc : c.Orderly) (clock : Nat → Instant) :
    Thinned c (c.trimAt clock) :=
  hc.trimAt_keeps (fun _ _ h => h.trans (h.counted.loses_trimPass _ _).thinned) Thinned.marked
    (fun _ => Thinned.swept) (.refl hc.toCounted)

/-- Above its limit a cache is trimmed by the loop, which ends, and a sweep. -/
theorem Orderly.loops_trimAt (hc : c.Orderly) (h : c.limit < c.count) (clock : Nat → Instant) :
    ∃ passes left, passes ≤ c.count - c.limit ∧
      Loops clock passes { c with trimming := true } left ∧ c.trimAt clock = left.swept := by
  obtain ⟨⟨passes, hmost, hloops⟩, -⟩ := hc.marked.loops clock (Nat.le_refl c.count)
  exact ⟨passes, _, hmost, hloops, hc.trimAt_of_lt h clock⟩

/-- A trim leaves as many snapshots as its loop. -/
theorem Orderly.left_trimAt (hc : c.Orderly) (clock : Nat → Instant) : Left c (c.trimAt clock) := by
  rcases Nat.lt_or_ge c.limit c.count with hover | hmet
  · have hleft := (hc.marked.loops clock (Nat.le_refl c.count)).2
    rw [hc.trimAt_of_lt hover]
    exact ⟨hleft.le_limit, hleft.eq_of_le, hleft.le_count⟩
  · rw [SnapshotCache.trimAt_of_le hmet]
    exact ⟨hmet, fun _ => rfl, fun h => absurd h (Nat.not_lt.2 hmet)⟩

/-- A trim leaves the cache settled. -/
theorem Orderly.settled_trimAt (hc : c.Orderly) (clock : Nat → Instant) :
    (c.trimAt clock).Settled where
  toOrderly := by
    rcases Nat.lt_or_ge c.limit c.count with hover | hmet
    · rw [hc.trimAt_of_lt hover]
      exact (trimPassesAt_keeps (P := Counted)
        (fun n c h => (h.loses_trimPass _ _).counted) hc.marked).swept
    · rw [SnapshotCache.trimAt_of_le hmet]
      exact hc
  within := by
    rw [(hc.thinned_trimAt clock).limit]
    exact (hc.left_trimAt clock).le_limit

end SnapshotCache

end Chronicle
