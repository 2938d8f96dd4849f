import Chronicle.Proofs.Double.Arithmetic
import Chronicle.Proofs.Snapshot.Calls
import Chronicle.Sample.Aggregates

namespace Chronicle

/-!
# The snapshots of least worth go

* `Snapshot.Fits` — the numbers of a snapshot are what 64 bits hold. Then its worth is a number
  (`Snapshot.Fits.isNumber_worth`), and zero if it was never used (`Snapshot.Fits.worth_unused`).
* `SnapshotCache.LeastGone` — what is gone is worth no more than what is left. One pass has this
  property (`Counted.leastGone_trimPass`), and so have all passes of a trim together while the clock
  stands still (`Orderly.leastGone_trimAt`).
* `TimedCall.leastGone_runAll` — what a call evicts after any calls.
-/

/-! ### Worth -/

namespace Snapshot

open Double

/-- The numbers of a snapshot are what 64 bits hold. -/
structure Fits (s : Snapshot) : Prop where
  /-- The sequence number is a signed word. -/
  sequence : Word64.Fits s.sequence
  /-- The number of uses is an unsigned word. -/
  hits : s.hits < 2 ^ 64

/-- The seconds since the last use, of which at least a hundredth counts, are not zero. -/
theorem isNonzero_seconds (micros : Int) :
    let elapsed := Float.ofInt micros / 1000000
    IsNonzero (if elapsed < 0.01 then 0.01 else elapsed) := by
  intro elapsed
  have hmillion : unpacked 1000000 = .finite .positive 8589934592000000 (-33) (by decide) := by rfl
  have hcent : unpacked 0.01 = .finite .positive 5764607523034235 (-59) (by decide) := by rfl
  have hmillion_nonzero : IsNonzero 1000000 := ⟨by simp [IsNumber, hmillion], by simp [hmillion]⟩
  have hcent_nonzero : IsNonzero 0.01 := ⟨by simp [IsNumber, hcent], by simp [hcent]⟩
  have helapsed : IsNumber elapsed :=
    isNumber_div (isNumber_ofInt micros) hmillion_nonzero (by simp [hmillion])
  split
  · exact hcent_nonzero
  · rename_i hlt
    refine ⟨helapsed, fun sign hzero => hlt ?_⟩
    rw [lt_iff_steps helapsed hcent_nonzero.isNumber, hzero, hcent]
    show (0 : Int) < (-59 + 1074) * 2 ^ 52 + (5764607523034235 : Nat)
    decide

variable {s : Snapshot}

/-- Sequence number and uses multiply to a finite number, so what it is worth is a number. -/
theorem Fits.isNumber_worth (hs : s.Fits) (now : Instant) : IsNumber (s.worth now) := by
  have hproduct := bounded_mul (bounded_ofInt hs.sequence) (bounded_ofNat hs.hits) (by decide)
    (by decide)
  exact isNumber_div hproduct.ne_notANumber (isNonzero_seconds _)
    fun sign _ h => absurd h (hproduct.ne_infinity sign)

/-- What was never used is worth nothing. -/
theorem Fits.worth_unused (hs : s.Fits) (hunused : s.hits = 0) (now : Instant) :
    ∃ sign, unpacked (s.worth now) = .zero sign := by
  have hhits : unpacked (Float.ofNat s.hits) = .zero .positive := by
    rw [hunused]
    rfl
  obtain ⟨sign, hproduct⟩ := unpacked_mul_zero (bounded_ofInt hs.sequence) hhits
  exact unpacked_zero_div hproduct (isNonzero_seconds _)

/-- In the total order of doubles, what is worth something stands behind what was never used. -/
theorem Fits.hits_ne_zero {s' : Snapshot} (hs' : s'.Fits) {now : Instant}
    (hpos : 0 < s.worth now) (h : floatRank (s.worth now) ≤ floatRank (s'.worth now)) :
    s'.hits ≠ 0 := by
  intro hunused
  obtain ⟨sign, hzero⟩ := hs'.worth_unused hunused now
  have hnumber := isNumber_of_lt hpos
  have hsteps := steps_le_of_floatRank_le hnumber (hs'.isNumber_worth now) h
  have hzero_number : IsNumber 0 := isNumber_ofNat 0
  rw [lt_iff_steps hzero_number hnumber] at hpos
  rw [hzero] at hsteps
  exact absurd (Int.lt_of_lt_of_le hpos hsteps) (Int.lt_irrefl 0)

end Snapshot

namespace SnapshotCache

variable {c c' : SnapshotCache} {now : Instant}

/-! ### Trims -/

/-- In the total order of doubles, every snapshot that is gone is worth no more than every one that
is left. -/
def LeastGone (now : Instant) (c c' : SnapshotCache) : Prop :=
  ∀ ⦃id : String⦄ ⦃cutoff : Int⦄ ⦃s : Snapshot⦄ ⦃id' : String⦄ ⦃cutoff' : Int⦄ ⦃s' : Snapshot⦄,
    c.kept? id cutoff = some s → c'.kept? id cutoff = none → c'.kept? id' cutoff' = some s' →
    floatRank (s.worth now) ≤ floatRank (s'.worth now)

theorem pairwise_byWorth (c : SnapshotCache) (now : Instant) : (c.byWorth now).Pairwise
    fun e e' => floatRank (e.2.worth now) ≤ floatRank (e'.2.worth now) := by
  have hsorted : (c.byWorth now).Pairwise fun e e' =>
      decide (floatRank (e.2.worth now) ≤ floatRank (e'.2.worth now)) = true :=
    List.pairwise_mergeSort
      (fun e e' e'' h h' => by simpa using Int.le_trans (by simpa using h) (by simpa using h'))
      (fun e e' => by simpa using Int.le_total _ _) c.all
  exact hsorted.imp fun h => by simpa using h

/-- What a pass takes stands before what it leaves. -/
theorem rank_le_of_mem_take_of_mem_drop {removals : Nat} {id id' : String} {s s' : Snapshot}
    (htaken : (id, s) ∈ (c.byWorth now).take removals)
    (hleft : (id', s') ∈ (c.byWorth now).drop removals) :
    floatRank (s.worth now) ≤ floatRank (s'.worth now) := by
  have hsorted := pairwise_byWorth c now
  rw [← List.take_append_drop removals (c.byWorth now), List.pairwise_append] at hsorted
  exact hsorted.2.2 (id, s) htaken (id', s') hleft

/-- A pass takes away snapshots of least worth. -/
theorem Counted.leastGone_trimPass (hc : c.Counted) (now : Instant) (removals : Nat) :
    LeastGone now c (c.trimPass now removals) := by
  intro id cutoff s id' cutoff' s' hs hgone hs'
  have hkept := (hc.loses_trimPass now removals).kept
  have hcutoff := hc.keyed.cutoff_eq hs
  have hs₀ := (hc.loses_trimPass now removals).thinned.kept hs'
  have hcutoff' := hc.keyed.cutoff_eq hs₀
  -- The one that is gone is among those that the pass takes,
  have htaken : (id, s) ∈ (c.byWorth now).take removals := by
    by_contra hmissing
    rw [hkept, if_neg, hs] at hgone
    · cases hgone
    · rintro hplace
      obtain ⟨e, he, hplace⟩ := List.mem_map.1 hplace
      cases hplace
      have hall := (byWorth_perm c now).mem_iff.1 (List.mem_of_mem_take he)
      rw [mem_all_iff hc.keyed, hs] at hall
      cases hall
      exact hmissing he
  -- and the one that is left is among the others.
  have hleft : (id', s') ∈ (c.byWorth now).drop removals := by
    have hall : (id', s') ∈ c.byWorth now := by
      rw [(byWorth_perm c now).mem_iff, mem_all_iff hc.keyed, hcutoff']
      exact hs₀
    rw [← List.take_append_drop removals (c.byWorth now), List.mem_append] at hall
    refine hall.resolve_left fun htaken => ?_
    have hplace : (id', cutoff') ∈ ((c.byWorth now).take removals).map place :=
      List.mem_map.2 ⟨_, htaken, by rw [place, hcutoff']⟩
    rw [hkept, if_pos hplace] at hs'
    cases hs'
  exact rank_le_of_mem_take_of_mem_drop htaken hleft

/-- What is taken away first and what is taken away later are both worth no more than what is left.
-/
theorem LeastGone.trans {c'' : SnapshotCache} (h : LeastGone now c c')
    (hthinned : Thinned c c') (h' : LeastGone now c' c'') (hthinned' : Thinned c' c'') :
    LeastGone now c c'' := by
  intro id cutoff s id' cutoff' s' hs hgone hs'
  cases hmiddle : c'.kept? id cutoff with
  | none => exact h hs hmiddle (hthinned'.kept hs')
  | some s₁ =>
    have hsame := hthinned.kept hmiddle
    rw [hs] at hsame
    cases hsame
    exact h' hmiddle hgone hs'

/-- A trim takes away snapshots of least worth, while the clock stands still. -/
theorem Orderly.leastGone_trimAt (hc : c.Orderly) (now : Instant) :
    LeastGone now c (c.trimAt fun _ => now) := by
  refine (hc.trimAt_keeps (P := fun c' => Thinned c c' ∧ LeastGone now c c')
    (fun n c' h => ?_) (fun h => ?_) (fun c' h => ?_) ?_).2
  · have hpass := (h.1.counted.loses_trimPass now (removalsPerPass c'.limit)).thinned
    have hleast := h.1.counted.leastGone_trimPass now (removalsPerPass c'.limit)
    exact ⟨h.1.trans hpass, h.2.trans h.1 hleast hpass⟩
  · exact ⟨h.1.marked, h.2⟩
  · refine ⟨h.1.swept, fun id cutoff s id' cutoff' s' hs hgone hs' => ?_⟩
    rw [kept?_swept] at hgone hs'
    exact h.2 hs hgone hs'
  · refine ⟨.refl hc.toCounted, fun id cutoff s id' cutoff' s' hs hgone => ?_⟩
    rw [hs] at hgone
    cases hgone

end SnapshotCache

namespace CacheCall

variable {κ : Type} {S : κ → Type} {types : ∀ k, AggregateType (S k)} {c : SnapshotCache}

/-- Only a lookup records uses: before its trim, every other call leaves each snapshot as it is. -/
theorem kept?_found {call : CacheCall S} (hget : ∀ kind id bound, call ≠ .get kind id bound)
    {id : String} {cutoff : Int} {s : Snapshot} (h : c.kept? id cutoff = some s)
    (clock : Nat → Instant) : (call.found types clock c).kept? id cutoff = some s := by
  cases call with
  | put kind root =>
    rw [found]
    cases haccept : c.accept (types kind) root (clock 0) with
    | none => exact h
    | some c' =>
      obtain ⟨s', _, rfl⟩ := SnapshotCache.accept_eq_some haccept
      rw [Option.getD_some, SnapshotCache.kept?_store, h, Option.some_or]
  | get kind id' bound => exact absurd rfl (hget kind id' bound)
  | setLimit limit => exact h

end CacheCall

/-- **Of the snapshots the ones of least worth go.** After any calls on a cache that began empty
(`runAll`), the clock stands still for a further call: a root is `put` in, the limit changes (`setLimit`) or
something is looked up. If it is no lookup, it leaves every snapshot as it is until its trim. What the trim
leaves is as it was, and every snapshot that is gone is worth no more (`Snapshot.worth`) than every one that
is left: in the total order of doubles (`floatRank`), and in the order of numbers if the numbers of both are
what 64 bits hold (`Snapshot.Fits`). So none that is worth something is gone while one is left that was
never used (`hits`). -/
theorem TimedCall.leastGone_runAll {κ : Type} {S : κ → Type} (types : ∀ k, AggregateType (S k))
    (limit : Nat) (calls : List (TimedCall S)) (call : CacheCall S) (now : Instant) :
    let c := runAll types calls (SnapshotCache.new limit)
    let found := call.found types (fun _ => now) c
    let after := call.run types (fun _ => now) c
    (∀ kind root, call = .put kind root → after = c.put (types kind) root now) ∧
    (∀ limit', call = .setLimit limit' → after = c.setLimit limit' now) ∧
    ((∀ kind id bound, call ≠ .get kind id bound) →
      ∀ id cutoff s, c.kept? id cutoff = some s → found.kept? id cutoff = some s) ∧
    (∀ id cutoff s, after.kept? id cutoff = some s → found.kept? id cutoff = some s) ∧
    ∀ id cutoff s id' cutoff' s', found.kept? id cutoff = some s → after.kept? id cutoff = none →
      after.kept? id' cutoff' = some s' →
      floatRank (s.worth now) ≤ floatRank (s'.worth now) ∧
      (s.Fits → s'.Fits → s.worth now ≤ s'.worth now) ∧
      (s'.Fits → 0 < s.worth now → s'.hits ≠ 0) := by
  intro c found after
  have hc : c.Settled := settled_runAll types (SnapshotCache.settled_new limit) calls
  have hfound : found.Orderly := CacheCall.orderly_found hc _ call
  have hafter : after = found.trimAt fun _ => now := by
    rw [← CacheCall.trimClock_still now call]
    exact CacheCall.run_eq_trimAt hc _ call
  refine ⟨?_, ?_, fun hget id cutoff s hs => CacheCall.kept?_found hget hs _,
    fun id cutoff s hs => ?_, fun id cutoff s id' cutoff' s' hs hgone hs' => ?_⟩
  · rintro kind root rfl
    rfl
  · rintro limit' rfl
    rfl
  · rw [hafter] at hs
    exact (hfound.thinned_trimAt _).kept hs
  · rw [hafter] at hgone hs'
    have hrank := hfound.leastGone_trimAt now hs hgone hs'
    refine ⟨hrank, fun hfits hfits' => ?_, fun hfits' hpos => hfits'.hits_ne_zero hpos hrank⟩
    exact Double.le_of_floatRank_le (hfits.isNumber_worth now) (hfits'.isNumber_worth now) hrank

namespace Sample

/-- An account is put in. -/
def putAccount (id : String) (cutoff : Int) : CacheCall fun _ : Kind => State :=
  .put .account { id, sequence := 1, cutoff, state := .account cutoff }

/-- Ten accounts are put in, and one of them is looked up. -/
def visits : List (TimedCall fun _ : Kind => State) :=
  let ids := ["a", "b", "c", "d", "e", "f", "g", "h", "i", "j"]
  (ids.map fun id => ⟨fun _ => ⟨0, 0⟩, putAccount id 1⟩) ++ [⟨fun _ => ⟨0, 0⟩, .get .account "c" 5⟩]

end Sample

open SnapshotCache in
/-- If an eleventh account is put in, some go, and the one that was looked up is left. -/
theorem TimedCall.leastGone_runAll_visits :
    let c := runAll Sample.aggregateType Sample.visits (SnapshotCache.new 10)
    let found := (Sample.putAccount "k" 2).found Sample.aggregateType (fun _ => ⟨0, 0⟩) c
    let after := (Sample.putAccount "k" 2).run Sample.aggregateType (fun _ => ⟨0, 0⟩) c
    ∃ used, after.kept? "c" 1 = some used ∧
      (∃ id cutoff s, found.kept? id cutoff = some s ∧ after.kept? id cutoff = none) ∧
      ∀ id cutoff s, found.kept? id cutoff = some s → after.kept? id cutoff = none →
        s.worth ⟨0, 0⟩ ≤ used.worth ⟨0, 0⟩ := by
  intro c found after
  obtain ⟨-, -, -, hleft, hleast⟩ := leastGone_runAll Sample.aggregateType 10 Sample.visits
    (Sample.putAccount "k" 2) ⟨0, 0⟩
  have hc : c.Settled := settled_runAll Sample.aggregateType (settled_new 10) Sample.visits
  have hfound : found.Orderly := CacheCall.orderly_found hc _ (Sample.putAccount "k" 2)
  have hafter : after = found.trimAt fun _ => ⟨0, 0⟩ :=
    CacheCall.run_eq_trimAt hc _ (Sample.putAccount "k" 2)
  -- One is looked up, the others are not.
  have hcount : found.limit = 10 ∧ found.count = 11 := by decide +kernel
  have hfits : ∀ e ∈ found.all, Word64.Fits e.2.sequence ∧ e.2.hits < 2 ^ 64 := by decide +kernel
  have hothers : ∀ e ∈ found.all, place e = ("c", 1) ∨ e.2.hits = 0 := by decide +kernel
  have hworth : ∀ e ∈ found.all, place e = ("c", 1) → 0 < e.2.worth ⟨0, 0⟩ := by decide +kernel
  obtain ⟨used, hused⟩ : ∃ used, found.kept? "c" 1 = some used :=
    Option.isSome_iff_exists.1 (by decide +kernel)
  have hmem : ∀ {id cutoff s}, found.kept? id cutoff = some s → (id, s) ∈ found.all := by
    intro id cutoff s hs
    rw [mem_all_iff hfound.keyed, hfound.keyed.cutoff_eq hs]
    exact hs
  have hall : ∀ {id cutoff s}, found.kept? id cutoff = some s → s.Fits :=
    fun hs => ⟨(hfits _ (hmem hs)).1, (hfits _ (hmem hs)).2⟩
  -- So many go that some do, and so few that one is left, which is then the one that was looked up.
  have hthinned := hfound.thinned_trimAt fun _ => ⟨0, 0⟩
  have hsize := hfound.left_trimAt fun _ => ⟨0, 0⟩
  rw [← hafter] at hthinned hsize
  have hmost : after.count ≤ 10 := hcount.1 ▸ hsize.le_limit
  have hleast_one : 0 < after.count := by
    have := hsize.le_count (by omega)
    rw [hcount.1] at this
    exact this
  have hstays : after.kept? "c" 1 = some used := by
    cases hgone : after.kept? "c" 1 with
    | some s => exact (hleft _ _ _ hgone).symm.trans hused
    | none =>
      obtain ⟨id, cutoff, s, hs⟩ := hthinned.counted.exists_kept hleast_one
      have hs₀ := hleft _ _ _ hs
      have hpos := hworth _ (hmem hused) (Prod.ext rfl (hfound.keyed.cutoff_eq hused))
      rcases hothers _ (hmem hs₀) with hplace | hunused
      · obtain ⟨rfl, hcutoff⟩ := Prod.mk.inj hplace
        rw [hfound.keyed.cutoff_eq hs₀] at hcutoff
        rw [hcutoff, hgone] at hs
        cases hs
      · exact absurd hunused ((hleast _ _ _ _ _ _ hused hgone hs).2.2 (hall hs₀) hpos)
  exact ⟨used, hstays, hthinned.exists_gone hfound.toCounted (by omega),
    fun id cutoff s hs hgone => (hleast _ _ _ _ _ _ hs hgone hstays).2.1 (hall hs) (hall hused)⟩

end Chronicle
