import Chronicle.Proofs.Log.Saving
import Mathlib.Order.Bounds.Basic

namespace Chronicle

/-!
# What the integrity check accepts

* `Batch.Sequenced` — every event of a batch names its root and has a sequence number, and the events
  of each root are numbered one after the other from the first of them on.
* `Batch.Positioned`, `Batch.InBounds` — the positions follow one another, and are words throughout.
* `Batch.CountsOn` — the numbers that were read go on from those that are due, round to the least word
  where they become too large.
* `Batch.isLowest_get?_lowest` — the table of lowest numbers tells the lowest number of each root in the
  whole batch, also where it comes last.
* `Batch.checkIntegrity_eq_ok` — what the check accepts.
* `Batch.IsLowest.fits_add` — no root comes round, as there would be a lower number then.
* `Batch.checkIntegrity_eq_ok_iff` — the check accepts the sequenced batches whose positions follow
  one another, and no others.
-/

namespace Batch

/-! ### Sequenced batches -/

/-- The events of each root are numbered one after the other from the first of them on. -/
structure Sequenced (events : List Event) : Prop where
  /-- Every event says which root emitted it. -/
  rooted : ∀ e ∈ events, ∃ root, e.root = .ok root
  /-- Every event has a sequence number. -/
  numbered : ∀ e ∈ events, ∃ n : Int, e.sequence = .ok n
  /-- The numbers of a root have no gaps and no repeats. -/
  consecutive : ∀ root, ∃ first : Int, ∀ (k : Nat) (e : Event),
    (events.filter (Event.isOf root))[k]? = some e → e.sequence = .ok (first + k)

/-- The positions of the events follow one another. -/
def Positioned (events : List Event) : Prop :=
  ∃ first : Int, ∀ (k : Nat) (e : Event), events[k]? = some e → e.position = .ok (first + k)

/-- The positions that follow from the one of the first event on are words. -/
def InBounds (events : List Event) : Prop :=
  ∀ (e : Event) (first : Int), events.head? = some e → e.position = .ok first →
    first + events.length ≤ Word64.greatest + 1

/-- The numbers of each root go on from the one that is due, as words do: a number `Word64.wrap`s. -/
def CountsOn : (String → Int) → List Numbers → Prop
  | _, [] => True
  | due, n :: rest =>
    n.sequence = Word64.wrap (due n.root) ∧
      CountsOn (Function.update due n.root (due n.root + 1)) rest

/-- Within each root, the numbers are the due ones, one after the other. -/
theorem countsOn_iff (due : String → Int) (ns : List Numbers) : CountsOn due ns ↔
    ∀ root (k : Nat) (n : Numbers), (ns.filter fun n => decide (n.root = root))[k]? = some n →
      n.sequence = Word64.wrap (due root + k) := by
  induction ns generalizing due with
  | nil => simp [CountsOn]
  | cons n₀ rest ih =>
    have hplace : ∀ k : Nat, due n₀.root + 1 + (k : Int) = due n₀.root + ((k + 1 : Nat) : Int) := by
      intro k
      omega
    rw [CountsOn, ih]
    constructor
    · rintro ⟨hfirst, hrest⟩ root k n hn
      rw [List.filter_cons] at hn
      split at hn
      · rename_i hroot
        rw [decide_eq_true_eq] at hroot
        subst hroot
        cases k with
        | zero =>
          cases hn
          simpa using hfirst
        | succ k =>
          have hnext := hrest n₀.root k n (by simpa using hn)
          rwa [Function.update_self, hplace] at hnext
      · rename_i hroot
        rw [decide_eq_true_eq] at hroot
        have hnext := hrest root k n hn
        rwa [Function.update_of_ne (Ne.symm hroot)] at hnext
    · intro h
      have hfirst := h n₀.root 0 n₀ (by simp)
      refine ⟨by simpa using hfirst, fun root k n hn => ?_⟩
      by_cases hroot : n₀.root = root
      · subst hroot
        rw [Function.update_self, hplace]
        exact h n₀.root (k + 1) n (by simpa using hn)
      · rw [Function.update_of_ne (Ne.symm hroot)]
        exact h root k n (by simpa [hroot] using hn)

/-! ### The lowest numbers -/

/-- The lowest of the sequence numbers that a root has in a batch. -/
def IsLowest (ns : List Numbers) (root : String) (least : Int) : Prop :=
  IsLeast {s | ∃ n ∈ ns, n.root = root ∧ n.sequence = s} least

/-- Every root of a batch has a lowest number. -/
theorem exists_get?_lowest {t : Table String Int} {ns : List Numbers} {root : String}
    (h : (∃ m, t.get? root = some m) ∨ root ∈ ns.map Numbers.root) :
    ∃ m, (lowest t ns).get? root = some m := by
  induction ns generalizing t with
  | nil => simpa [lowest] using h
  | cons n rest ih =>
    rw [lowest]
    apply ih
    rw [Table.get?_insert, List.map_cons, List.mem_cons] at *
    split
    · exact .inl ⟨_, rfl⟩
    · rename_i hroot
      simpa [hroot] using h

/-- The table tells the lowest of the numbers that a root has in the batch and of the one that was noted
before. -/
theorem isLeast_get?_lowest {t : Table String Int} {ns : List Numbers} {root : String} {least : Int}
    (h : (lowest t ns).get? root = some least) :
    IsLeast {s | t.get? root = some s ∨ ∃ n ∈ ns, n.root = root ∧ n.sequence = s} least := by
  induction ns generalizing t with
  | nil =>
    rw [lowest] at h
    simp [IsLeast, lowerBounds, h]
  | cons n rest ih =>
    rw [lowest] at h
    obtain ⟨hmem, hle⟩ := ih h
    simp only [Set.mem_ofPred_eq, mem_lowerBounds, Table.get?_insert] at hmem hle
    by_cases hroot : root = n.root
    · -- The number of the event is noted, or the one before if that is lower.
      subst hroot
      cases hnoted : t.get? n.root with
      | none => simpa [IsLeast, lowerBounds, hnoted] using And.intro hmem hle
      | some m =>
        simp only [hnoted, if_true, Option.some.injEq] at hmem hle
        have hmin : least ≤ min m n.sequence := hle _ (.inl rfl)
        constructor
        · obtain hmem | ⟨n', hn', hof⟩ := hmem
          · obtain hm | hn := le_total m n.sequence
            · exact .inl (by rw [← hmem, min_eq_left hm])
            · exact .inr ⟨n, List.mem_cons_self, rfl, by rw [← hmem, min_eq_right hn]⟩
          · exact .inr ⟨n', List.mem_cons_of_mem n hn', hof⟩
        · rintro s (hs | ⟨n', hn', hof, rfl⟩)
          · cases hs
            exact hmin.trans (min_le_left m n.sequence)
          · obtain rfl | hn' := List.mem_cons.1 hn'
            · exact hmin.trans (min_le_right m n'.sequence)
            · exact hle _ (.inr ⟨n', hn', hof, rfl⟩)
    · have hnot : n.root ≠ root := Ne.symm hroot
      simpa [IsLeast, lowerBounds, hroot, hnot] using And.intro hmem hle

/-- The table that begins empty tells the lowest number of each root, also of one whose lowest number
comes late. -/
theorem isLowest_get?_lowest {ns : List Numbers} {root : String} {least : Int}
    (h : (lowest Table.empty ns).get? root = some least) : IsLowest ns root least := by
  simpa [IsLowest] using isLeast_get?_lowest h

/-- Every root of the numbers has a lowest one. -/
theorem exists_isLowest (ns : List Numbers) :
    ∃ least : String → Int, ∀ n ∈ ns, IsLowest ns n.root (least n.root) := by
  refine ⟨fun root => ((lowest Table.empty ns).get? root).getD 0, fun n hn => ?_⟩
  obtain ⟨m, hm⟩ := exists_get?_lowest (t := Table.empty) (.inr (List.mem_map_of_mem hn))
  exact isLowest_get?_lowest (by simp [hm])

/-- The lowest number of a root is what the table tells, as there is only one. -/
theorem IsLowest.get?_lowest {ns : List Numbers} {root : String} {least : Int}
    (h : IsLowest ns root least) : (lowest Table.empty ns).get? root = some least := by
  obtain ⟨n, hn, rfl, -⟩ := h.1
  obtain ⟨m, hm⟩ := exists_get?_lowest (t := Table.empty) (.inr (List.mem_map_of_mem hn))
  rw [hm, (isLowest_get?_lowest hm).unique h]

/-! ### Reading the numbers -/

/-- The numbers of a batch are read event by event. -/
theorem numbersFrom_eq_ok_iff (batch : Uuid) (index : Nat) (events : List Event)
    (ns : List Numbers) : numbersFrom batch index events = .ok ns ↔
      List.Forall₂ (fun e n => numbersOf e = .ok n) events ns := by
  induction events generalizing index ns with
  | nil => cases ns <;> simp [numbersFrom]
  | cons e rest ih =>
    rw [numbersFrom]
    cases hn : numbersOf e with
    | error key =>
      cases ns <;> simp [hn]
    | ok n =>
      cases hns : numbersFrom batch (index + 1) rest with
      | error err =>
        have hnone : ∀ ns', ¬ List.Forall₂ (fun e n => numbersOf e = .ok n) rest ns' := by
          intro ns' h
          rw [← ih, hns] at h
          cases h
        cases ns <;> simp [hnone]
      | ok ns' =>
        rw [ih] at hns
        cases ns with
        | nil => simp
        | cons n₁ ns₁ =>
          simp only [Except.ok.injEq, List.cons.injEq, List.forall₂_cons, hn, ← ih (index + 1)]
          rw [(ih (index + 1) ns').2 hns, Except.ok.injEq]

/-- Related lists have related items at the same places. -/
theorem exists_getElem?_of_forall₂ {α β : Type} {R : α → β → Prop} {as : List α} {bs : List β}
    (h : List.Forall₂ R as bs) {k : Nat} {a : α} (ha : as[k]? = some a) :
    ∃ b, bs[k]? = some b ∧ R a b := by
  obtain ⟨hk, rfl⟩ := List.getElem?_eq_some_iff.1 ha
  have hk' : k < bs.length := h.length_eq ▸ hk
  exact ⟨bs[k], List.getElem?_eq_getElem hk', h.get hk hk'⟩

section

variable {batch : Uuid} {events : List Event} {ns : List Numbers}

/-- Numbers that were read are words. -/
theorem fits_of_read (hread : List.Forall₂ (fun e n => numbersOf e = .ok n) events ns) {n : Numbers}
    (hn : n ∈ ns) : Word64.Fits n.sequence ∧ Word64.Fits n.position := by
  obtain ⟨k, hk⟩ := List.getElem?_of_mem hn
  obtain ⟨e, _, hof⟩ := exists_getElem?_of_forall₂ hread.flip hk
  obtain ⟨-, hsequence, hposition⟩ := (numbersOf_eq_ok_iff e n).1 hof
  exact ⟨Event.fits_sequence hsequence, Event.fits_position hposition⟩

/-- So the lowest of them is. -/
theorem IsLowest.fits (hread : List.Forall₂ (fun e n => numbersOf e = .ok n) events ns)
    {root : String} {least : Int} (h : IsLowest ns root least) : Word64.Fits least := by
  obtain ⟨n, hn, -, rfl⟩ := h.1
  exact (fits_of_read hread hn).1

/-- The numbers of a root are those of its events. -/
theorem forall₂_filter_numbers (hread : List.Forall₂ (fun e n => numbersOf e = .ok n) events ns)
    (root : String) : List.Forall₂ (fun e n => numbersOf e = .ok n)
      (events.filter (Event.isOf root)) (ns.filter fun n => decide (n.root = root)) := by
  refine List.rel_filter (fun e n hn => ?_) hread
  show e.isOf root = true ↔ decide (n.root = root) = true
  rw [Event.isOf_iff, ((numbersOf_eq_ok_iff e n).1 hn).1, decide_eq_true_eq, Except.ok.injEq]

/-! ### The check -/

/-- Behind an event that has its number, there is still an entry for every root. -/
theorem get?_insert_due {next : Table String Int} {due : String → Int} {n : Numbers}
    {rest : List Numbers}
    (h : ∀ n' ∈ n :: rest, next.get? n'.root = some (Word64.wrap (due n'.root))) :
    ∀ n' ∈ rest, (next.insert n.root (Word64.wrap (due n.root + 1))).get? n'.root
      = some (Word64.wrap (Function.update due n.root (due n.root + 1) n'.root)) := by
  intro n' hn'
  rw [Table.get?_insert]
  by_cases hroot : n'.root = n.root
  · simp [hroot]
  · rw [if_neg hroot, Function.update_of_ne hroot]
    exact h n' (List.mem_cons_of_mem _ hn')

/-- Given an entry for every root, the check accepts numbers that go on from the entries and
positions that follow one another. -/
theorem checkFrom_eq_ok_iff {positions : List Int} {position : Int} {next : Table String Int}
    (due : String → Int)
    (hnext : ∀ n ∈ ns, next.get? n.root = some (Word64.wrap (due n.root))) :
    checkFrom batch positions (Word64.wrap position) next ns = .ok () ↔
      (∀ (k : Nat) (n : Numbers), ns[k]? = some n → n.position = Word64.wrap (position + k)) ∧
        CountsOn due ns := by
  induction ns generalizing position next due with
  | nil => simp [checkFrom, CountsOn]
  | cons n rest ih =>
    have hentry := hnext n List.mem_cons_self
    have hplace : ∀ k : Nat, position + ((k + 1 : Nat) : Int) = position + 1 + (k : Int) := by
      intro k
      omega
    have hpositions : (∀ (k : Nat) (n' : Numbers), (n :: rest)[k]? = some n' →
        n'.position = Word64.wrap (position + k)) ↔ n.position = Word64.wrap position ∧
          ∀ (k : Nat) (n' : Numbers), rest[k]? = some n' →
            n'.position = Word64.wrap (position + 1 + k) := by
      constructor
      · intro h
        refine ⟨by simpa using h 0 n rfl, fun k n' hn' => ?_⟩
        rw [h (k + 1) n' hn', hplace]
      · rintro ⟨hfirst, hrest⟩ k n' hn'
        cases k with
        | zero =>
          cases hn'
          simpa using hfirst
        | succ k => rw [hrest k n' hn', hplace]
    rw [checkFrom, CountsOn, hpositions, hentry, Option.getD_some, Word64.wrap_wrap_add]
    split
    · rename_i hposition
      simp [hposition]
    · rename_i hposition
      rw [ne_eq, not_not] at hposition
      simp only
      split
      · rename_i hsequence
        simp [hsequence]
      · rename_i hsequence
        rw [ne_eq, not_not] at hsequence
        rw [Word64.wrap_wrap_add, ih _ (get?_insert_due hnext)]
        simp [hposition, hsequence]

variable (batch) in
/-- Once the numbers have been read, the check goes through them with the lowest number of each root as
its entry. -/
theorem checkIntegrity_of_read {n : Numbers} {rest : List Numbers}
    (hread : List.Forall₂ (fun e n => numbersOf e = .ok n) events (n :: rest))
    {least : String → Int} (hleast : ∀ n' ∈ n :: rest, IsLowest (n :: rest) n'.root (least n'.root)) :
    (checkIntegrity batch events = checkFrom batch ((n :: rest).map Numbers.position)
        (Word64.wrap n.position) (lowest Table.empty (n :: rest)) (n :: rest)) ∧
      ∀ n' ∈ n :: rest, (lowest Table.empty (n :: rest)).get? n'.root
        = some (Word64.wrap (least n'.root)) := by
  constructor
  · rw [Word64.wrap_of_fits (fits_of_read hread List.mem_cons_self).2, checkIntegrity,
      (numbersFrom_eq_ok_iff batch 0 events (n :: rest)).2 hread]
  · intro n' hn'
    rw [Word64.wrap_of_fits ((hleast n' hn').fits hread), (hleast n' hn').get?_lowest]

/-- The check accepts a batch if its numbers can be read, its positions follow one another and the
numbers of each root go on from the lowest of them. -/
theorem checkIntegrity_eq_ok : checkIntegrity batch events = .ok () ↔
    ∃ ns, List.Forall₂ (fun e n => numbersOf e = .ok n) events ns ∧
      ∃ (first : Int) (least : String → Int), (∀ n, ns.head? = some n → n.position = first) ∧
        (∀ n ∈ ns, IsLowest ns n.root (least n.root)) ∧
        (∀ (k : Nat) (n : Numbers), ns[k]? = some n → n.position = Word64.wrap (first + k)) ∧
        CountsOn least ns := by
  constructor
  · intro h
    obtain ⟨ns, hns⟩ : ∃ ns, numbersFrom batch 0 events = .ok ns := by
      unfold checkIntegrity at h
      split at h
      · cases h
      · exact ⟨_, ‹_›⟩
      · exact ⟨_, ‹_›⟩
    have hread := (numbersFrom_eq_ok_iff _ _ _ _).1 hns
    obtain ⟨least, hleast⟩ := exists_isLowest ns
    cases ns with
    | nil => exact ⟨[], hread, 0, least, by simp, hleast, by simp, trivial⟩
    | cons n rest =>
      obtain ⟨hcheck, hentry⟩ := checkIntegrity_of_read batch hread hleast
      obtain ⟨hpositions, hcounts⟩ := (checkFrom_eq_ok_iff least hentry).1 (hcheck ▸ h)
      exact ⟨n :: rest, hread, n.position, least, by simp, hleast, hpositions, hcounts⟩
  · rintro ⟨ns, hread, first, least, hfirst, hleast, hpositions, hcounts⟩
    cases ns with
    | nil =>
      cases hread
      rfl
    | cons n rest =>
      obtain rfl := hfirst n rfl
      obtain ⟨hcheck, hentry⟩ := checkIntegrity_of_read batch hread hleast
      rw [hcheck]
      exact (checkFrom_eq_ok_iff least hentry).2 ⟨hpositions, hcounts⟩

/-! ### No number too large -/

/-- Numbers that go on from the lowest of a root do not come round to the least word, since that would be
lower still: there are not that many numbers. -/
theorem IsLowest.fits_add {root : String} {least : Int} (h : IsLowest ns root least)
    (hfits : Word64.Fits least) (hlength : ns.length ≤ Word64.count)
    (hcounts : ∀ (k : Nat) (n : Numbers), (ns.filter fun n => decide (n.root = root))[k]? = some n →
      n.sequence = Word64.wrap (least + k))
    {k : Nat} (hk : k < (ns.filter fun n => decide (n.root = root)).length) :
    Word64.Fits (least + k) := by
  have hshorter := List.length_filter_le (fun n : Numbers => decide (n.root = root)) ns
  unfold Word64.Fits at hfits
  by_contra hlarge
  have hover : Word64.greatest < least + k := by
    unfold Word64.Fits at hlarge
    omega
  -- The number that comes behind the greatest word is the least word.
  obtain ⟨j, hj⟩ : ∃ j : Nat, least + j = Word64.greatest + 1 :=
    ⟨(Word64.greatest + 1 - least).toNat, by omega⟩
  have hjk : j < (ns.filter fun n => decide (n.root = root)).length := by omega
  have hsequence := hcounts j _ (List.getElem?_eq_getElem hjk)
  rw [hj, Word64.wrap_greatest_add_one] at hsequence
  obtain ⟨hmem, hroot⟩ := List.mem_filter.1 (List.getElem_mem hjk)
  have hle : least ≤ Word64.least := h.2 ⟨_, hmem, by simpa using hroot, hsequence⟩
  unfold Word64.greatest Word64.least Word64.count at *
  omega

end

/-- If the numbers of a batch were read, those of each event were. -/
theorem exists_numbersOf {events : List Event} {ns : List Numbers}
    (hread : List.Forall₂ (fun e n => numbersOf e = .ok n) events ns) {e : Event} (he : e ∈ events) :
    ∃ n, numbersOf e = .ok n := by
  obtain ⟨k, hk⟩ := List.getElem?_of_mem he
  obtain ⟨n, _, hn⟩ := exists_getElem?_of_forall₂ hread hk
  exact ⟨n, hn⟩

/-- The events of an accepted batch say their roots. -/
theorem rooted_of_checkIntegrity {batch : Uuid} {events : List Event}
    (h : checkIntegrity batch events = .ok ()) : ∀ e ∈ events, ∃ root, e.root = .ok root := by
  intro e he
  obtain ⟨ns, hread, -⟩ := checkIntegrity_eq_ok.1 h
  obtain ⟨n, hn⟩ := exists_numbersOf hread he
  exact ⟨_, ((numbersOf_eq_ok_iff e n).1 hn).1⟩

/-- A batch that is accepted is sequenced, unless it is longer than any list in memory. -/
theorem sequenced_of_checkIntegrity {batch : Uuid} {events : List Event}
    (h : checkIntegrity batch events = .ok ()) (hlength : events.length ≤ Word64.count) :
    Sequenced events := by
  obtain ⟨ns, hread, first, least, -, hleast, -, hcounts⟩ := checkIntegrity_eq_ok.1 h
  rw [countsOn_iff] at hcounts
  refine ⟨rooted_of_checkIntegrity h, fun e he => ?_, fun root => ⟨least root, fun k e he => ?_⟩⟩
  · obtain ⟨n, hn⟩ := exists_numbersOf hread he
    exact ⟨_, ((numbersOf_eq_ok_iff e n).1 hn).2.1⟩
  · obtain ⟨n, hn, hof⟩ := exists_getElem?_of_forall₂ (forall₂_filter_numbers hread root) he
    obtain ⟨hmem, hroot⟩ := List.mem_filter.1 (List.mem_of_getElem? hn)
    have hlow : IsLowest ns root (least root) := by
      obtain rfl : n.root = root := by simpa using hroot
      exact hleast n hmem
    have hfits := hlow.fits_add (hlow.fits hread) (hread.length_eq ▸ hlength)
      (fun k n hn => hcounts root k n hn) (List.getElem?_eq_some_iff.1 hn).1
    rw [((numbersOf_eq_ok_iff e n).1 hof).2.1, hcounts root k n hn, Word64.wrap_of_fits hfits]

/-- The numbers of a sequenced batch can be read, and those of each root go on from the lowest. -/
theorem Sequenced.exists_numbers {events : List Event} (h : Sequenced events)
    (hposition : ∀ e ∈ events, ∃ p, e.position = .ok p) :
    ∃ (ns : List Numbers) (least : String → Int),
      List.Forall₂ (fun e n => numbersOf e = .ok n) events ns ∧
        (∀ n ∈ ns, IsLowest ns n.root (least n.root)) ∧ CountsOn least ns := by
  have hnumbers : ∀ e ∈ events, ∃ n, numbersOf e = .ok n := by
    intro e he
    obtain ⟨root, hroot⟩ := h.rooted e he
    obtain ⟨sequence, hsequence⟩ := h.numbered e he
    obtain ⟨position, hposition⟩ := hposition e he
    exact ⟨⟨root, sequence, position⟩, (numbersOf_eq_ok_iff e _).2 ⟨hroot, hsequence, hposition⟩⟩
  obtain ⟨ns, hread⟩ : ∃ ns, List.Forall₂ (fun e n => numbersOf e = .ok n) events ns := by
    have : Nonempty Numbers := ⟨⟨"", 0, 0⟩⟩
    choose! numbers hof using hnumbers
    exact ⟨events.map numbers,
      List.forall₂_map_right_iff.2 (List.forall₂_same.2 fun e he => hof e he)⟩
  choose due hdue using h.consecutive
  have hcounts : ∀ root (k : Nat) (n : Numbers),
      (ns.filter fun n => decide (n.root = root))[k]? = some n → n.sequence = due root + k := by
    intro root k n hn
    obtain ⟨e, he, hof⟩ := exists_getElem?_of_forall₂ (forall₂_filter_numbers hread root).flip hn
    have hsequence := ((numbersOf_eq_ok_iff e n).1 hof).2.1
    rw [hdue root k e he, Except.ok.injEq] at hsequence
    exact hsequence.symm
  refine ⟨ns, due, hread, fun n hn => ?_, (countsOn_iff due ns).2 fun root k n hn => ?_⟩
  · -- The first number of the root is the due one, and the others are larger.
    have hown : ∀ n' ∈ ns, n'.root = n.root → ∃ k : Nat, n'.sequence = due n.root + k ∧
        k < (ns.filter fun n' => decide (n'.root = n.root)).length := by
      intro n' hn' hroot
      have hmem : n' ∈ ns.filter fun n' => decide (n'.root = n.root) :=
        List.mem_filter.2 ⟨hn', by simpa using hroot⟩
      obtain ⟨k, hk⟩ := List.getElem?_of_mem hmem
      exact ⟨k, hcounts n.root k n' hk, (List.getElem?_eq_some_iff.1 hk).1⟩
    constructor
    · obtain ⟨k, -, hk⟩ := hown n hn rfl
      have hpos : 0 < (ns.filter fun n' => decide (n'.root = n.root)).length := by omega
      obtain ⟨hmem, hroot⟩ := List.mem_filter.1 (List.getElem_mem hpos)
      have hfirst := hcounts n.root 0 _ (List.getElem?_eq_getElem hpos)
      exact ⟨_, hmem, by simpa using hroot, by simpa using hfirst⟩
    · rintro s ⟨n', hn', hroot, rfl⟩
      obtain ⟨k, hk, -⟩ := hown n' hn' hroot
      omega
  · have hmem := (List.mem_filter.1 (List.mem_of_getElem? hn)).1
    have hsequence := hcounts root k n hn
    rw [← hsequence, Word64.wrap_of_fits (fits_of_read hread hmem).1]

/-- **The check accepts exactly the sequenced batches whose positions follow one another,** as long as
these are words. -/
theorem checkIntegrity_eq_ok_iff (batch : Uuid) {events : List Event} (hbounds : InBounds events) :
    checkIntegrity batch events = .ok () ↔ Sequenced events ∧ Positioned events := by
  constructor
  · intro h
    obtain ⟨ns, hread, first, least, hfirst, -, hpositions, -⟩ := checkIntegrity_eq_ok.1 h
    -- Counted from the first one, all positions are words.
    have hwords : ∀ (k : Nat) (e : Event), events[k]? = some e → Word64.Fits (first + k) ∧
        events.length ≤ Word64.count := by
      intro k e he
      have hk := (List.getElem?_eq_some_iff.1 he).1
      obtain ⟨e₀, later, rfl⟩ := List.exists_cons_of_ne_nil (List.ne_nil_of_mem (List.mem_of_getElem? he))
      obtain ⟨n, hn, hof⟩ := exists_getElem?_of_forall₂ hread (k := 0) (a := e₀) rfl
      have hposition := ((numbersOf_eq_ok_iff e₀ n).1 hof).2.2
      rw [hfirst n (by rw [List.head?_eq_getElem?, hn])] at hposition
      have hroom := hbounds e₀ first rfl hposition
      have hfits := Event.fits_position hposition
      unfold Word64.Fits Word64.greatest Word64.least at *
      unfold Word64.count
      omega
    refine ⟨sequenced_of_checkIntegrity h ?_, first, fun k e he => ?_⟩
    · cases events with
      | nil => exact Nat.zero_le _
      | cons e rest => exact (hwords 0 e rfl).2
    · obtain ⟨n, hn, hof⟩ := exists_getElem?_of_forall₂ hread he
      rw [((numbersOf_eq_ok_iff e n).1 hof).2.2, hpositions k n hn,
        Word64.wrap_of_fits (hwords k e he).1]
  · rintro ⟨hsequenced, first, hposition⟩
    have hread : ∀ e ∈ events, ∃ p, e.position = .ok p := by
      intro e he
      obtain ⟨k, hk⟩ := List.getElem?_of_mem he
      exact ⟨_, hposition k e hk⟩
    obtain ⟨ns, least, hread, hleast, hcounts⟩ := hsequenced.exists_numbers hread
    have hpositions : ∀ (k : Nat) (n : Numbers), ns[k]? = some n → n.position = first + k := by
      intro k n hn
      obtain ⟨e, he, hof⟩ := exists_getElem?_of_forall₂ hread.flip hn
      have hreads := ((numbersOf_eq_ok_iff e n).1 hof).2.2
      rw [hposition k e he, Except.ok.injEq] at hreads
      exact hreads.symm
    refine checkIntegrity_eq_ok.2 ⟨ns, hread, first, least, fun n hn => ?_, hleast,
      fun k n hn => ?_, hcounts⟩
    · rw [List.head?_eq_getElem?] at hn
      simpa using hpositions 0 n hn
    · have hfits := (fits_of_read hread (List.mem_of_getElem? hn)).2
      rw [← hpositions k n hn, Word64.wrap_of_fits hfits]

end Batch

end Chronicle
