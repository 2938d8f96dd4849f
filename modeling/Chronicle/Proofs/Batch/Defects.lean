import Chronicle.Proofs.Batch.Integrity

namespace Chronicle

/-!
# The first defect of a batch

* `Batch.missingKey?` — the first key under which an event has nothing that can be read.
* `Batch.Missing`, `Batch.Misnumbered` — what is wrong with the event at a place of a batch: a number
  is missing, or it is not the one that is due there.
* `Batch.FirstOf` — what is found at the first place at which anything is found.
* `Batch.checkFrom_eq_error_iff` — the check meets the first number that is not due.
* `Batch.checkIntegrity_names_first` — the check accepts the well-numbered batches, and of any other it
  names the first defect.
-/

namespace Batch

/-! ### First places -/

/-- What is found at the first place at which anything is found. -/
def FirstOf (found : Nat → BatchError → Prop) (err : BatchError) : Prop :=
  ∃ place, found place err ∧ ∀ earlier < place, ∀ other, ¬ found earlier other

section

variable {found found' : Nat → BatchError → Prop} {err : BatchError}

theorem firstOf_congr (h : ∀ place other, found place other ↔ found' place other) :
    FirstOf found err ↔ FirstOf found' err := by
  unfold FirstOf
  simp only [h]

/-- Something is found at the first place of all, or nothing is found there and the search goes on
behind it. -/
theorem firstOf_iff : FirstOf found err ↔
    found 0 err ∨ (∀ other, ¬ found 0 other) ∧ FirstOf (fun place => found (place + 1)) err := by
  constructor
  · rintro ⟨place, hfound, hfirst⟩
    cases place with
    | zero => exact .inl hfound
    | succ place =>
      exact .inr ⟨hfirst 0 (Nat.succ_pos place), place, hfound,
        fun earlier hlt => hfirst (earlier + 1) (Nat.succ_lt_succ hlt)⟩
  · rintro (hfound | ⟨hnone, place, hfound, hfirst⟩)
    · exact ⟨0, hfound, fun earlier hlt => absurd hlt (Nat.not_lt_zero earlier)⟩
    · refine ⟨place + 1, hfound, fun earlier hlt => ?_⟩
      cases earlier with
      | zero => exact hnone
      | succ earlier => exact hfirst earlier (Nat.lt_of_succ_lt_succ hlt)

/-- If one thing only is found at the first place of all, that is it. -/
theorem firstOf_of_zero (defect : BatchError) (h : ∀ other, found 0 other ↔ other = defect) :
    FirstOf found err ↔ err = defect := by
  rw [firstOf_iff, h err, or_iff_left]
  exact fun hnone => hnone.1 defect ((h defect).2 rfl)

/-- If nothing is found at the first place of all, the search goes on behind it. -/
theorem firstOf_of_not_zero (h : ∀ other, ¬ found 0 other)
    (hbehind : ∀ place other, found (place + 1) other ↔ found' place other) :
    FirstOf found err ↔ FirstOf found' err := by
  rw [firstOf_iff, or_iff_right (h err), and_iff_right h]
  exact firstOf_congr hbehind

end

/-! ### Numbers that are missing -/

/-- The first of the keys that number an event under which there is nothing that can be read. -/
def missingKey? (e : Event) : Option String :=
  ([(Metadata.Key.root, e.root.isOk), (Metadata.Key.sequence, e.sequence.isOk),
    (Metadata.Key.position, e.position.isOk)].find? fun key => !key.2).map Prod.fst

theorem missingKey?_eq_some_iff (e : Event) (key : String) :
    missingKey? e = some key ↔ numbersOf e = .error key := by
  unfold missingKey? numbersOf
  cases e.root <;> cases e.sequence <;> cases e.position <;> simp [Except.isOk, Except.toBool]

theorem missingKey?_eq_none_iff (e : Event) :
    missingKey? e = none ↔ ∃ n, numbersOf e = .ok n := by
  unfold missingKey? numbersOf
  cases e.root <;> cases e.sequence <;> cases e.position <;> simp [Except.isOk, Except.toBool]

/-- The event at a place, counted from `index`, has no number under a key; the first such key is
named. -/
def Missing (batch : Uuid) (index : Nat) (events : List Event) (place : Nat) (err : BatchError) :
    Prop :=
  ∃ e key, events[place]? = some e ∧ missingKey? e = some key ∧
    err = .missingMetadata batch (index + place) key

/-- Reading the numbers of a batch meets the first event that lacks one. -/
theorem numbersFrom_eq_error_iff {batch : Uuid} {index : Nat} {events : List Event}
    {err : BatchError} : numbersFrom batch index events = .error err ↔
      FirstOf (Missing batch index events) err := by
  induction events generalizing index with
  | nil => simp [numbersFrom, FirstOf, Missing]
  | cons e rest ih =>
    have hbehind : ∀ place other, Missing batch index (e :: rest) (place + 1) other ↔
        Missing batch (index + 1) rest place other := by
      intro place other
      simp only [Missing, List.getElem?_cons_succ]
      rw [show index + (place + 1) = index + 1 + place by omega]
    rw [numbersFrom]
    cases hn : numbersOf e with
    | error key =>
      have hkey := (missingKey?_eq_some_iff e key).2 hn
      rw [firstOf_of_zero (.missingMetadata batch index key)]
      · simp [eq_comm]
      · simp [Missing, hkey]
    | ok n =>
      have hkey := (missingKey?_eq_none_iff e).2 ⟨n, hn⟩
      rw [firstOf_of_not_zero (fun other => by simp [Missing, hkey]) hbehind, ← ih]
      cases numbersFrom batch (index + 1) rest <;> simp

/-! ### Numbers that are not due -/

/-- How many events of a root a batch has before a place. -/
def countBefore (ns : List Numbers) (place : Nat) (root : String) : Nat :=
  (ns.take place).countP fun n => decide (n.root = root)

/-- The event at a place has another number than the one that is due there, if the positions begin with
`first` and the numbers of each root begin with `lowest`. What is due is a word: behind the greatest word
comes the least. A wrong position counts first. -/
def Misnumbered (batch : Uuid) (positions : List Int) (first : Int) (lowest : String → Int)
    (ns : List Numbers) (place : Nat) (err : BatchError) : Prop :=
  ∃ n, ns[place]? = some n ∧
    let position := Word64.wrap (first + place)
    let sequence := Word64.wrap (lowest n.root + countBefore ns place n.root)
    (n.position ≠ position ∧ err = .nonSequentialPosition batch position n.position positions ∨
      n.position = position ∧ n.sequence ≠ sequence ∧
        err = .nonSequentialSequence batch n.root sequence n.sequence)

section

variable {batch : Uuid} {positions : List Int} {first : Int} {due : String → Int} {n : Numbers}
  {rest ns : List Numbers} {err : BatchError}

theorem misnumbered_zero : Misnumbered batch positions first due (n :: rest) 0 err ↔
    n.position ≠ Word64.wrap first ∧
        err = .nonSequentialPosition batch (Word64.wrap first) n.position positions ∨
      n.position = Word64.wrap first ∧ n.sequence ≠ Word64.wrap (due n.root) ∧
        err = .nonSequentialSequence batch n.root (Word64.wrap (due n.root)) n.sequence := by
  simp [Misnumbered, countBefore]

/-- Behind the first event, one position and one number of its root are used up. -/
theorem misnumbered_succ (place : Nat) (err : BatchError) :
    Misnumbered batch positions first due (n :: rest) (place + 1) err ↔
      Misnumbered batch positions (first + 1)
        (Function.update due n.root (due n.root + 1)) rest place err := by
  have hposition : first + ((place + 1 : Nat) : Int) = first + 1 + (place : Int) := by omega
  have hsequence : ∀ root, due root + (countBefore (n :: rest) (place + 1) root : Int)
      = Function.update due n.root (due n.root + 1) root + (countBefore rest place root : Int) := by
    intro root
    unfold countBefore
    rw [List.take_succ_cons, List.countP_cons]
    by_cases hroot : root = n.root
    · subst hroot
      rw [Function.update_self]
      simp
      omega
    · rw [Function.update_of_ne hroot]
      simp [Ne.symm hroot]
  simp only [Misnumbered, List.getElem?_cons_succ, hposition, hsequence]

/-- Given an entry for every root, the check meets the first number that is not due. -/
theorem checkFrom_eq_error_iff {next : Table String Int}
    (hnext : ∀ n ∈ ns, next.get? n.root = some (Word64.wrap (due n.root))) :
    checkFrom batch positions (Word64.wrap first) next ns = .error err ↔
      FirstOf (Misnumbered batch positions first due ns) err := by
  induction ns generalizing first next due with
  | nil => simp [checkFrom, FirstOf, Misnumbered]
  | cons n rest ih =>
    have hbehind : ∀ place other, Misnumbered batch positions first due (n :: rest) (place + 1) other ↔
        Misnumbered batch positions (first + 1) (Function.update due n.root (due n.root + 1)) rest
          place other := misnumbered_succ
    rw [checkFrom, hnext n List.mem_cons_self, Option.getD_some, Word64.wrap_wrap_add]
    by_cases hposition : n.position = Word64.wrap first
    · rw [if_neg (not_not.2 hposition)]
      by_cases hsequence : n.sequence = Word64.wrap (due n.root)
      · -- The event has its numbers, so the search goes on.
        rw [if_neg (not_not.2 hsequence), Word64.wrap_wrap_add, firstOf_of_not_zero _ hbehind]
        · exact ih (get?_insert_due hnext)
        · intro other
          rw [misnumbered_zero]
          simp [hposition, hsequence]
      · rw [if_pos hsequence, firstOf_of_zero
          (.nonSequentialSequence batch n.root (Word64.wrap (due n.root)) n.sequence)]
        · simp [eq_comm]
        · intro other
          rw [misnumbered_zero]
          simp [hposition, hsequence]
    · rw [if_pos hposition, firstOf_of_zero
        (.nonSequentialPosition batch (Word64.wrap first) n.position positions)]
      · simp [eq_comm]
      · intro other
        rw [misnumbered_zero]
        simp [hposition]

end

/-! ### The check -/

/-- The numbers of an event are these. -/
def Numbers.AreOf (n : Numbers) (e : Event) : Prop :=
  e.root = .ok n.root ∧ e.sequence = .ok n.sequence ∧ e.position = .ok n.position

/-- The numbers of a batch can be read if every event has its three numbers. -/
theorem numbersFrom_eq_ok_iff_areOf (batch : Uuid) (index : Nat) {events : List Event}
    {ns : List Numbers} : numbersFrom batch index events = .ok ns ↔
      List.Forall₂ (fun e n => n.AreOf e) events ns := by
  rw [numbersFrom_eq_ok_iff]
  simp only [numbersOf_eq_ok_iff, Numbers.AreOf]

/-- **The check accepts the well-numbered batches, and of any other it names the first defect.**
`checkIntegrity` accepts a batch whose positions stay words (`InBounds`) exactly if it is `Sequenced`
and `Positioned`: every event says its root, its sequence number and its position, the positions follow
one another, and so do the sequence numbers of each root. Whatever the numbers are, the error is the
`FirstOf` the events that are `Missing` a number, and names the first key under which there is none; or
else the `FirstOf` those that are `Misnumbered`: the position is not the first one and as many more as
there are events before, or the sequence number is not the lowest of its root in the batch and as many
more as there are events of the root before. It tells the number that was due there, which is
`Word64.wrap` of that sum, and the one that was found. -/
theorem checkIntegrity_names_first (batch : Uuid) (events : List Event) :
    (InBounds events →
      (checkIntegrity batch events = .ok () ↔ Sequenced events ∧ Positioned events)) ∧
    ∀ err, checkIntegrity batch events = .error err ↔
      FirstOf (Missing batch 0 events) err ∨
      ∃ ns : List Numbers, List.Forall₂ (fun e n => n.AreOf e) events ns ∧
        ∃ (first : Int) (lowest : String → Int), (∀ n, ns.head? = some n → n.position = first) ∧
          (∀ n ∈ ns, IsLowest ns n.root (lowest n.root)) ∧
          FirstOf (Misnumbered batch (ns.map Numbers.position) first lowest ns) err := by
  refine ⟨fun hbounds => checkIntegrity_eq_ok_iff batch hbounds, fun err => ?_⟩
  simp only [← numbersFrom_eq_error_iff, ← numbersFrom_eq_ok_iff_areOf batch 0]
  cases hnumbers : numbersFrom batch 0 events with
  | error missing =>
    unfold checkIntegrity
    simp [hnumbers]
  | ok ns =>
    rw [or_iff_right (by simp)]
    cases ns with
    | nil =>
      unfold checkIntegrity
      simp [hnumbers, FirstOf, Misnumbered]
    | cons n rest =>
      have hread := (numbersFrom_eq_ok_iff _ _ _ _).1 hnumbers
      constructor
      · intro herr
        obtain ⟨least, hleast⟩ := exists_isLowest (n :: rest)
        obtain ⟨hcheck, hentry⟩ := checkIntegrity_of_read batch hread hleast
        exact ⟨n :: rest, rfl, n.position, least, by simp, hleast,
          (checkFrom_eq_error_iff hentry).1 (hcheck ▸ herr)⟩
      · rintro ⟨ns, hns, first, least, hfirst, hleast, herr⟩
        cases hns
        obtain rfl := hfirst n rfl
        obtain ⟨hcheck, hentry⟩ := checkIntegrity_of_read batch hread hleast
        rw [hcheck]
        exact (checkFrom_eq_error_iff hentry).2 herr

end Batch

namespace Sample

/-- A deposit that has its numbers. -/
def placed (root : String) (sequence position : Int) : Event :=
  (((Event.new "Deposited" .null).withMetadata Metadata.Key.root root).withMetadata
    Metadata.Key.sequence (toString sequence)).withMetadata Metadata.Key.position (toString position)

/-- Deposits on two accounts by turns. -/
def byTurns : List Event := [placed "a" 3 5, placed "b" 0 6, placed "a" 4 7]

/-- The same, but a sequence number comes twice. -/
def doubled : List Event := [placed "a" 3 5, placed "b" 0 6, placed "a" 3 7]

end Sample

/-- Deposits on two accounts are well numbered. If the last one has the number of the first one, they are
not, and the error names the number that is due. -/
theorem Batch.checkIntegrity_names_first_doubled :
    (Sequenced Sample.byTurns ∧ Positioned Sample.byTurns) ∧
    ¬ (Sequenced Sample.doubled ∧ Positioned Sample.doubled) ∧
    checkIntegrity .nil Sample.doubled = .error (.nonSequentialSequence .nil "a" 4 3) := by
  have hposition : (Sample.placed "a" 3 5).position = .ok 5 := by decide +kernel
  have hbounds : ∀ events : List Event, events.length = 3 →
      events.head? = some (Sample.placed "a" 3 5) → InBounds events := by
    intro events hlength hhead e first he hfirst
    obtain rfl : Sample.placed "a" 3 5 = e := Option.some.inj (hhead.symm.trans he)
    obtain rfl : 5 = first := Except.ok.inj (hposition.symm.trans hfirst)
    rw [hlength]
    decide
  have hok : checkIntegrity .nil Sample.byTurns = .ok () := by decide +kernel
  have hrefused : checkIntegrity .nil Sample.doubled
      = .error (.nonSequentialSequence .nil "a" 4 3) := by decide +kernel
  refine ⟨((checkIntegrity_names_first .nil _).1 (hbounds _ rfl rfl)).1 hok, fun hgood => ?_, hrefused⟩
  have haccepted := ((checkIntegrity_names_first .nil _).1 (hbounds _ rfl rfl)).2 hgood
  cases hrefused.symm.trans haccepted

end Chronicle
