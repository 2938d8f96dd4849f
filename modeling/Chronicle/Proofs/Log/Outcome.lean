import Chronicle.Proofs.Batch.Integrity
import Chronicle.Proofs.Log.Runs

namespace Chronicle

/-!
# The outcome of a save

* `Batch.roots`, `Batch.firstSequence?` — the roots of a batch in order of first appearance, and the
  number that a batch wants first of a root.
* `Batch.unmet?` — the first root of a batch whose first number is not the one that is due.
* `Log.misfit?` — the first root of a batch whose events do not go on from its history.
* `Log.checkFrom_of_sequenced` — the uniqueness check of a sequenced batch is decided by the first
  event of the first root that does not fit.
* `Log.save_outcome` — what a save answers, told from the batch and the lengths of the histories, and
  that the log stays as it is unless a batch is committed.
-/

/-! ### First appearances -/

namespace Batch

/-- The roots of a batch, in the order in which they first appear. -/
def roots (events : List Event) : List String :=
  (events.filterMap fun e => e.root.toOption).eraseDups

/-- The sequence number of the first event of a root. -/
def firstSequence? (events : List Event) (root : String) : Option Int :=
  (events.find? (Event.isOf root)).bind fun e => e.sequence.toOption

/-- A search meets the first appearances first, so repeats do not matter to it. -/
theorem find?_eraseDups {α : Type} [DecidableEq α] (p : α → Bool) (l : List α) :
    l.eraseDups.find? p = l.find? p := by
  induction hn : l.length using Nat.strongRecOn generalizing l with
  | ind n ih =>
    cases l with
    | nil => rfl
    | cons a rest =>
      rw [List.eraseDups_cons, List.find?_cons, List.find?_cons]
      cases ha : p a with
      | true => rfl
      | false =>
        have hlength := List.length_filter_le (fun b => !b == a) rest
        simp only
        rw [ih _ (by rw [← hn, List.length_cons]; omega) _ rfl, List.find?_filter]
        congr 1
        funext b
        by_cases hb : b = a <;> simp [hb, ha]

variable {e : Event} {rest : List Event} {root : String} {sequence : Int}

variable (rest) in
theorem firstSequence?_cons_self (hroot : e.root = .ok root)
    (hsequence : e.sequence = .ok sequence) : firstSequence? (e :: rest) root = some sequence := by
  rw [firstSequence?, List.find?_cons, (Event.isOf_iff root e).2 hroot]
  simp [hsequence, Except.toOption]

theorem firstSequence?_cons_of_ne {root' : String} (hroot : e.root = .ok root) (h : root' ≠ root) :
    firstSequence? (e :: rest) root' = firstSequence? rest root' := by
  have hnot : e.isOf root' = false := by rw [Event.isOf_eq_decide hroot]; simpa using h
  rw [firstSequence?, List.find?_cons, hnot]
  rfl

/-- What comes after the first event of a sequenced batch is sequenced. -/
theorem Sequenced.tail (h : Sequenced (e :: rest)) : Sequenced rest where
  rooted e' he' := h.rooted e' (List.mem_cons_of_mem _ he')
  numbered e' he' := h.numbered e' (List.mem_cons_of_mem _ he')
  consecutive root := by
    obtain ⟨first, hfirst⟩ := h.consecutive root
    cases he : e.isOf root with
    | false => exact ⟨first, fun k e' hk => hfirst k e' (by simpa [he] using hk)⟩
    | true =>
      refine ⟨first + 1, fun k e' hk => ?_⟩
      rw [hfirst (k + 1) e' (by simpa [he] using hk)]
      congr 1
      push_cast
      omega

/-- The next event of a root that has an event in front wants the next number. -/
theorem Sequenced.firstSequence?_tail (h : Sequenced (e :: rest)) (hroot : e.root = .ok root)
    (hsequence : e.sequence = .ok sequence)
    (hmem : root ∈ rest.filterMap fun e => e.root.toOption) :
    firstSequence? rest root = some (sequence + 1) := by
  have he : e.isOf root = true := (Event.isOf_iff root e).2 hroot
  obtain ⟨first, hfirst⟩ := h.consecutive root
  have hself := hfirst 0 e (by simp [he])
  rw [hsequence, Except.ok.injEq] at hself
  -- The root has another event, and the first of these is the second one of the whole batch.
  obtain ⟨e', he', hroot'⟩ := List.mem_filterMap.1 hmem
  have hof : e'.isOf root = true := by
    rw [Event.isOf_iff]
    cases hr : e'.root with
    | error err => rw [hr] at hroot'; cases hroot'
    | ok r => rw [hr] at hroot'; cases hroot'; rfl
  obtain ⟨e₁, he₁⟩ := Option.isSome_iff_exists.1 (List.find?_isSome.2 ⟨e', he', hof⟩)
  have hnext : (rest.filter (Event.isOf root))[0]? = some e₁ := by
    rw [← List.head?_eq_getElem?, List.head?_filter]
    exact he₁
  have hsecond := hfirst 1 e₁ (by simpa [he] using hnext)
  rw [firstSequence?, he₁, Option.bind_some, hsecond, hself]
  simp [Except.toOption]

/-! ### Numbers that are not due -/

/-- The first root whose first number is not the one that is due. -/
def unmet? (due : String → Int) (events : List Event) : Option String :=
  (events.filterMap fun e => e.root.toOption).find? fun root =>
    decide (firstSequence? events root ≠ some (due root))

theorem filterMap_root_cons (hroot : e.root = .ok root) :
    (e :: rest).filterMap (fun e => e.root.toOption)
      = root :: rest.filterMap fun e => e.root.toOption := by
  simp [hroot, Except.toOption]

theorem unmet?_cons_of_ne {due : String → Int} (hroot : e.root = .ok root)
    (hsequence : e.sequence = .ok sequence) (hne : sequence ≠ due root) :
    unmet? due (e :: rest) = some root := by
  rw [unmet?, filterMap_root_cons hroot, List.find?_cons,
    firstSequence?_cons_self rest hroot hsequence]
  simp [hne]

/-- If the first number is due, the other events are to go on from there. -/
theorem Sequenced.unmet?_cons (h : Sequenced (e :: rest)) {due : String → Int}
    (hroot : e.root = .ok root) (hdue : e.sequence = .ok (due root)) :
    unmet? due (e :: rest) = unmet? (Function.update due root (due root + 1)) rest := by
  have hfirst := firstSequence?_cons_self rest hroot hdue
  -- The roots of the rest fail in the rest exactly if they fail in the whole batch.
  have hsame : ∀ root' ∈ rest.filterMap fun e => e.root.toOption,
      (firstSequence? (e :: rest) root' = some (due root') ↔
        firstSequence? rest root' = some (Function.update due root (due root + 1) root')) := by
    intro root' hmem
    by_cases hr : root' = root
    · subst hr
      rw [h.firstSequence?_tail hroot hdue hmem, hfirst, Function.update_self]
      simp
    · rw [firstSequence?_cons_of_ne hroot hr, Function.update_of_ne hr]
  rw [unmet?, filterMap_root_cons hroot, List.find?_cons, hfirst, unmet?]
  simp only [ne_eq, not_true, decide_false]
  rw [← List.head?_filter, ← List.head?_filter]
  congr 1
  refine List.filter_congr fun root' hmem => ?_
  rw [decide_eq_decide, hsame root' hmem]

/-- Then its root is not one that fails. -/
theorem Sequenced.ne_of_unmet? (h : Sequenced (e :: rest)) {due : String → Int}
    (hroot : e.root = .ok root) (hdue : e.sequence = .ok (due root)) {root' : String}
    (hfound : unmet? (Function.update due root (due root + 1)) rest = some root') :
    root' ≠ root := by
  rintro rfl
  have hfails := List.find?_some hfound
  rw [h.firstSequence?_tail hroot hdue (List.mem_of_find?_eq_some hfound),
    Function.update_self] at hfails
  simp at hfails

/-! ### Batches with the same roots and numbers -/

/-- The events have the same root and the same sequence number. -/
def SameNumber (e e' : Event) : Prop := e'.root = e.root ∧ e'.sequence = e.sequence

variable {events events' : List Event}

theorem forall₂_filter (h : List.Forall₂ SameNumber events events') (root : String) :
    List.Forall₂ SameNumber (events.filter (Event.isOf root)) (events'.filter (Event.isOf root)) := by
  refine List.rel_filter (fun e e' hsame => ?_) h
  show e.isOf root = true ↔ e'.isOf root = true
  rw [Event.isOf_iff, Event.isOf_iff, hsame.1]

theorem Sequenced.of_forall₂ (hsequenced : Sequenced events)
    (h : List.Forall₂ SameNumber events events') : Sequenced events' where
  rooted e' he' := by
    obtain ⟨k, hk⟩ := List.getElem?_of_mem he'
    obtain ⟨e, he, hsame⟩ := exists_getElem?_of_forall₂ h.flip hk
    obtain ⟨root, hroot⟩ := hsequenced.rooted e (List.mem_of_getElem? he)
    exact ⟨root, hsame.1.trans hroot⟩
  numbered e' he' := by
    obtain ⟨k, hk⟩ := List.getElem?_of_mem he'
    obtain ⟨e, he, hsame⟩ := exists_getElem?_of_forall₂ h.flip hk
    obtain ⟨n, hn⟩ := hsequenced.numbered e (List.mem_of_getElem? he)
    exact ⟨n, hsame.2.trans hn⟩
  consecutive root := by
    obtain ⟨first, hfirst⟩ := hsequenced.consecutive root
    refine ⟨first, fun k e' hk => ?_⟩
    obtain ⟨e, he, hsame⟩ := exists_getElem?_of_forall₂ (forall₂_filter h root).flip hk
    exact hsame.2.trans (hfirst k e he)

theorem roots_congr (h : List.Forall₂ SameNumber events events') : roots events' = roots events := by
  unfold roots
  congr 1
  induction h with
  | nil => rfl
  | cons hsame _ ih => rw [List.filterMap_cons, List.filterMap_cons, hsame.1, ih]

theorem firstSequence?_congr (h : List.Forall₂ SameNumber events events') (root : String) :
    firstSequence? events' root = firstSequence? events root := by
  unfold firstSequence?
  rw [← List.head?_filter, ← List.head?_filter]
  have hfilter := forall₂_filter h root
  generalize events.filter (Event.isOf root) = own at hfilter
  generalize events'.filter (Event.isOf root) = own' at hfilter
  cases hfilter with
  | nil => rfl
  | cons hsame _ => simp [hsame.2]

end Batch

namespace Log

/-! ### The uniqueness check -/

/-- The error of a batch that leaves out a number of a root. -/
def gap (batch : Uuid) (root : String) (expected actual : Int) : StoreError :=
  .storage (s!"batch {batch} would leave a gap in aggregate root {root}: "
    ++ s!"expected sequence number {expected}, got {actual}")

/-- The first root of a batch whose events do not go on from its history. -/
def misfit? (log : Log) (events : List Event) : Option String :=
  (Batch.roots events).find? fun root =>
    decide (Batch.firstSequence? events root ≠ some ((log.history root).length : Int))

/-- The uniqueness check of a sequenced batch looks at the first event of every root: the first root
whose first number is not due decides. -/
theorem checkFrom_of_sequenced (log : Log) (batch : Uuid) (next : Table String Int)
    (due : String → Int) {events : List Event} (h : Batch.Sequenced events)
    (hnext : ∀ root, (next.get? root).getD (log.stored root : Int) = due root)
    (hdue : ∀ root, (log.stored root : Int) ≤ due root) :
    match Batch.unmet? due events with
    | none => log.checkFrom batch next events = .ok .fits
    | some root => ∃ sequence, Batch.firstSequence? events root = some sequence ∧
        sequence ≠ due root ∧ log.checkFrom batch next events
          = if sequence < log.stored root then .ok (.taken root sequence)
            else .error (gap batch root (due root) sequence) := by
  induction events generalizing next due with
  | nil => rfl
  | cons e rest ih =>
    obtain ⟨root, hroot⟩ := h.rooted e List.mem_cons_self
    obtain ⟨sequence, hsequence⟩ := h.numbered e List.mem_cons_self
    by_cases hfits : sequence = due root
    · -- The event goes on from the history, and the root cannot fail later on.
      subst hfits
      have hstep : log.checkFrom batch next (e :: rest)
          = log.checkFrom batch (next.insert root (due root + 1)) rest := by
        have := hdue root
        rw [checkFrom, hroot, hsequence]
        simp only [hnext]
        rw [if_neg (by omega), if_neg (by simp)]
      have hnext' : ∀ root', ((next.insert root (due root + 1)).get? root').getD
          (log.stored root' : Int) = Function.update due root (due root + 1) root' := by
        intro root'
        rw [Table.get?_insert]
        by_cases hr : root' = root
        · simp [hr]
        · rw [if_neg hr, Function.update_of_ne hr, hnext]
      have hdue' : ∀ root', (log.stored root' : Int)
          ≤ Function.update due root (due root + 1) root' := by
        intro root'
        have := hdue root'
        by_cases hr : root' = root
        · subst hr
          rw [Function.update_self]
          omega
        · rwa [Function.update_of_ne hr]
      have hrest := ih _ _ h.tail hnext' hdue'
      rw [hstep, h.unmet?_cons hroot hsequence]
      cases hfound : Batch.unmet? (Function.update due root (due root + 1)) rest with
      | none =>
        rw [hfound] at hrest
        exact hrest
      | some root' =>
        rw [hfound] at hrest
        obtain ⟨sequence', hsequence', hne, hcheck⟩ := hrest
        have hr := h.ne_of_unmet? hroot hsequence hfound
        rw [Function.update_of_ne hr] at hne hcheck
        exact ⟨sequence', (Batch.firstSequence?_cons_of_ne hroot hr).trans hsequence', hne, hcheck⟩
    · rw [Batch.unmet?_cons_of_ne hroot hsequence hfits]
      refine ⟨sequence, Batch.firstSequence?_cons_self rest hroot hsequence, hfits, ?_⟩
      rw [checkFrom, hroot, hsequence]
      simp only [hnext]
      split
      · rfl
      · rfl

/-! ### Stamped batches -/

/-- Where there is room, the positions of a stamped batch are words. -/
theorem HasRoom.inBounds_stamp {log : Log} {events : List Event} (h : log.HasRoom events)
    (batch : Uuid) : Batch.InBounds (stamp batch log.size events) := by
  intro e first he hposition
  rw [List.head?_eq_getElem?] at he
  rw [h.position_stamp he, Except.ok.injEq] at hposition
  rw [← hposition, length_stamp]
  unfold HasRoom at h
  push_cast
  omega

/-- And they follow one another. -/
theorem HasRoom.positioned_stamp {log : Log} {events : List Event} (h : log.HasRoom events)
    (batch : Uuid) : Batch.Positioned (stamp batch log.size events) :=
  ⟨log.size, fun k e he => by rw [h.position_stamp he]; push_cast; rfl⟩

/-- Stamping changes neither roots nor sequence numbers. -/
theorem sameNumber_stamp (batch : Uuid) (position : Nat) (events : List Event) :
    List.Forall₂ Batch.SameNumber events (stamp batch position events) :=
  (forall₂_stamp batch position events).imp fun _ _ h => ⟨h.root_eq, h.sequence_eq⟩

theorem misfit?_stamp (log : Log) (batch : Uuid) (position : Nat) (events : List Event) :
    log.misfit? (stamp batch position events) = log.misfit? events := by
  have hsame := sameNumber_stamp batch position events
  unfold misfit?
  rw [Batch.roots_congr hsame]
  simp only [Batch.firstSequence?_congr hsame]

/-- A stamped batch is accepted by the integrity check if it is sequenced. -/
theorem checkIntegrity_stamp {log : Log} (batch : Uuid) {events : List Event}
    (hroom : log.HasRoom events) :
    Batch.checkIntegrity batch (stamp batch log.size events) = .ok () ↔ Batch.Sequenced events := by
  have hsame := sameNumber_stamp batch log.size events
  have hflip : List.Forall₂ Batch.SameNumber (stamp batch log.size events) events :=
    hsame.flip.imp fun _ _ h => ⟨h.1.symm, h.2.symm⟩
  rw [Batch.checkIntegrity_eq_ok_iff batch (hroom.inBounds_stamp batch),
    and_iff_left (hroom.positioned_stamp batch)]
  exact ⟨fun h => h.of_forall₂ hflip, fun h => h.of_forall₂ hsame⟩

/-! ### The answer -/

variable {log : Log} (batch : Uuid) {events : List Event}

/-- No event stops the append if all of them say their roots. -/
theorem appendAll_fst (log : Log) {events : List Event}
    (h : ∀ e ∈ events, ∃ root, e.root = .ok root) : (log.appendAll events).1 = .ok () := by
  induction events generalizing log with
  | nil => rfl
  | cons e rest ih =>
    obtain ⟨root, hroot⟩ := h e List.mem_cons_self
    rw [appendAll, hroot]
    exact ih _ fun e' he' => h e' (List.mem_cons_of_mem _ he')

/-- A batch that has passed both checks is appended without an error on the way. -/
theorem appendAll_stamp (hlog : log.Consistent) (hroom : log.HasRoom events)
    (hfits : log.checkFrom batch Table.empty (stamp batch log.size events) = .ok .fits) :
    ∃ log', log.appendAll (stamp batch log.size events) = (.ok (), log') ∧
      log'.events = log.events ++ stamp batch log.size events := by
  obtain ⟨log', happend, hevents, _⟩ := appendAll_of_fits hlog (hroom.stamped batch log.size)
    (fun root => by simp) (fun k e hk => hroom.position_stamp hk) hfits
  exact ⟨log', happend, hevents⟩

/-- A batch for which there is no room is refused before it is looked at. -/
theorem save_of_not_hasRoom (hne : events ≠ []) (h : ¬ log.HasRoom events) :
    log.save batch events = (.error (.storage "capacity overflow"), log) := by
  have hempty : events.isEmpty = false := by simpa using hne
  rw [save, hempty, if_neg Bool.false_ne_true, if_pos h]

/-- A batch that is not sequenced is refused. -/
theorem save_of_not_sequenced (hne : events ≠ []) (hroom : log.HasRoom events)
    (h : ¬ Batch.Sequenced events) :
    ∃ cause, log.save batch events = (.error (.integrity cause), log) := by
  have hempty : events.isEmpty = false := by simpa using hne
  cases hcheck : Batch.checkIntegrity batch (stamp batch log.size events) with
  | error cause =>
    refine ⟨cause, ?_⟩
    simp only [save, hempty, hroom, hcheck, not_true, Bool.false_eq_true, if_false]
  | ok _ => exact absurd ((checkIntegrity_stamp batch hroom).1 hcheck) h

/-- The uniqueness check of a stamped batch is decided by its first misfit. -/
theorem checkFrom_stamp (hlog : log.Consistent) (hsequenced : Batch.Sequenced events) :
    match log.misfit? events with
    | none => log.checkFrom batch Table.empty (stamp batch log.size events) = .ok .fits
    | some root => ∃ sequence, Batch.firstSequence? events root = some sequence ∧
        sequence ≠ (log.history root).length ∧
        log.checkFrom batch Table.empty (stamp batch log.size events)
          = if sequence < (log.history root).length then .ok (.taken root sequence)
            else .error (gap batch root (log.history root).length sequence) := by
  have hsame := sameNumber_stamp batch log.size events
  have hcheck := checkFrom_of_sequenced log batch Table.empty
    (fun root => (log.history root).length) (hsequenced.of_forall₂ hsame)
    (fun root => by rw [hlog.stored_eq]; rfl) (fun root => Int.le_of_eq (by rw [hlog.stored_eq]))
  rw [Batch.unmet?, ← Batch.find?_eraseDups] at hcheck
  rw [← misfit?_stamp log batch log.size]
  simp only [hlog.stored_eq, Batch.firstSequence?_congr hsame] at hcheck
  unfold misfit? Batch.roots
  simp only [Batch.firstSequence?_congr hsame]
  exact hcheck

/-- The first root that does not fit decides why a batch is not committed. -/
theorem save_of_misfit (hlog : log.Consistent) (hne : events ≠ [])
    (hsequenced : Batch.Sequenced events) (hroom : log.HasRoom events) {root : String}
    (hmisfit : log.misfit? events = some root) :
    ∃ sequence, Batch.firstSequence? events root = some sequence ∧
      sequence ≠ (log.history root).length ∧
      log.save batch events = (if sequence < (log.history root).length
        then .ok (.conflict ⟨batch, .sequence root sequence⟩)
        else .error (gap batch root (log.history root).length sequence), log) := by
  have hempty : events.isEmpty = false := by simpa using hne
  have hintegrity := (checkIntegrity_stamp batch hroom).2 hsequenced
  have hcheck := checkFrom_stamp batch hlog hsequenced
  rw [hmisfit] at hcheck
  obtain ⟨sequence, hsequence, hdiffers, hcheck⟩ := hcheck
  refine ⟨sequence, hsequence, hdiffers, ?_⟩
  simp only [save, hempty, hroom, hintegrity, not_true, Bool.false_eq_true, if_false]
  by_cases hlt : sequence < (log.history root).length
  · rw [if_pos hlt] at hcheck ⊢
    rw [hcheck]
  · rw [if_neg hlt] at hcheck ⊢
    rw [hcheck]

/-- A batch in which every root fits is committed, all of it. -/
theorem save_of_fits (hlog : log.Consistent) (hne : events ≠ [])
    (hsequenced : Batch.Sequenced events) (hroom : log.HasRoom events)
    (hmisfit : log.misfit? events = none) :
    ∃ block, (log.save batch events).1 = .ok (.committed block) ∧
      List.Forall₂ (Event.StoredAs batch) events block ∧
      (log.save batch events).2.events = log.events ++ block := by
  have hempty : events.isEmpty = false := by simpa using hne
  have hintegrity := (checkIntegrity_stamp batch hroom).2 hsequenced
  have hcheck := checkFrom_stamp batch hlog hsequenced
  rw [hmisfit] at hcheck
  obtain ⟨log', happend, hevents⟩ := appendAll_stamp batch hlog hroom hcheck
  have hsave : log.save batch events = (.ok (.committed (stamp batch log.size events)), log') := by
    simp only [save, hempty, hroom, hintegrity, hcheck, happend, not_true, Bool.false_eq_true, if_false]
  rw [hsave]
  exact ⟨_, rfl, forall₂_stamp _ _ _, hevents⟩

/-- Unless events are committed, a save changes nothing. -/
theorem save_eq_self (hlog : log.Consistent)
    (h : events = [] ∨ ∀ block, (log.save batch events).1 ≠ .ok (.committed block)) :
    (log.save batch events).2 = log := by
  rcases h with rfl | h
  · rfl
  · rcases hlog.save_cases batch events with ⟨_, hsave⟩ | ⟨_, hsave⟩ | ⟨block, _, hsave, _⟩
    · rw [hsave]
    · rw [hsave]
    · exact absurd (congrArg Prod.fst hsave) (h block)

/-- **What a save answers.** Of a log that began empty, after any saves, and any batch: an empty
batch is committed and changes nothing; one that the log cannot hold is refused, as is one that is not
`Batch.Sequenced`; otherwise the first root whose first number is not the length of its history
(`misfit?`) decides, by a conflict if the number is taken and by an error if it leaves a `gap`; and if
there is no such root the batch is appended. Nothing else changes the log, and `appendAll` does not stop
on the way. -/
theorem save_outcome (calls : List Save) (batch : Uuid) (events : List Event) :
    let log := (saveAll calls empty).2
    let answer := (log.save batch events).1
    let after := (log.save batch events).2
    -- An empty batch.
    (events = [] → answer = .ok (.committed []) ∧ after = log) ∧
    -- A batch with which the log would be longer than any list in memory.
    (events ≠ [] → ¬ log.HasRoom events → answer = .error (.storage "capacity overflow")) ∧
    -- A batch that is not sequenced.
    (events ≠ [] → log.HasRoom events → ¬ Batch.Sequenced events →
      ∃ cause, answer = .error (.integrity cause)) ∧
    -- A root whose first number is not due.
    (∀ root, log.HasRoom events → Batch.Sequenced events → log.misfit? events = some root →
      ∃ sequence, Batch.firstSequence? events root = some sequence ∧
        (sequence < (log.history root).length ∧
            answer = .ok (.conflict ⟨batch, .sequence root sequence⟩) ∨
          (log.history root).length < sequence ∧
            answer = .error (gap batch root (log.history root).length sequence))) ∧
    -- No such root.
    (events ≠ [] → log.HasRoom events → Batch.Sequenced events → log.misfit? events = none →
      ∃ block, answer = .ok (.committed block) ∧
        List.Forall₂ (Event.StoredAs batch) events block ∧ after.events = log.events ++ block) ∧
    -- Without a commit of events, the log is the same: its events, its index and all that is read.
    ((events = [] ∨ ∀ block, answer ≠ .ok (.committed block)) → after = log) ∧
    -- Once both checks have passed, no event stops the append.
    (Batch.checkIntegrity batch (stamp batch log.size events) = .ok () →
      log.checkFrom batch Table.empty (stamp batch log.size events) = .ok .fits →
      (log.appendAll (stamp batch log.size events)).1 = .ok ()) := by
  intro log answer after
  have hlog : log.Consistent := consistent_empty.saveAll calls
  refine ⟨?empty, ?full, ?refused, ?misfit, fun hne hroom hsequenced hmisfit =>
    save_of_fits batch hlog hne hsequenced hroom hmisfit, save_eq_self batch hlog, ?append⟩
  case empty =>
    rintro rfl
    exact ⟨rfl, rfl⟩
  case full =>
    intro hne hfull
    exact congrArg Prod.fst (save_of_not_hasRoom batch hne hfull)
  case refused =>
    intro hne hroom h
    obtain ⟨cause, hsave⟩ := save_of_not_sequenced batch hne hroom h
    exact ⟨cause, congrArg Prod.fst hsave⟩
  case misfit =>
    intro root hroom hsequenced hmisfit
    have hne : events ≠ [] := by
      rintro rfl
      cases hmisfit
    obtain ⟨sequence, hsequence, hdiffers, hsave⟩ :=
      save_of_misfit batch hlog hne hsequenced hroom hmisfit
    have hanswer : answer = _ := congrArg Prod.fst hsave
    refine ⟨sequence, hsequence, ?_⟩
    rcases Int.lt_or_gt_of_ne hdiffers with hlt | hgt
    · exact .inl ⟨hlt, by rw [hanswer, if_pos hlt]⟩
    · exact .inr ⟨hgt, by rw [hanswer, if_neg (by omega)]⟩
  case append =>
    intro hintegrity _
    exact appendAll_fst log (Batch.rooted_of_checkIntegrity hintegrity)

end Log

/-- One event is sequenced, whatever its number is. -/
theorem Batch.sequenced_singleton {e : Event} (root : String) (n : Int) (hroot : e.root = .ok root)
    (hsequence : e.sequence = .ok n) : Sequenced [e] where
  rooted e' he' := ⟨root, List.mem_singleton.1 he' ▸ hroot⟩
  numbered e' he' := ⟨n, List.mem_singleton.1 he' ▸ hsequence⟩
  consecutive root' := by
    refine ⟨n, fun k e' hk => ?_⟩
    have hlt := (List.getElem?_eq_some_iff.1 hk).1
    have hle : ([e].filter (Event.isOf root')).length ≤ 1 := List.length_filter_le _ _
    obtain rfl : k = 0 := by omega
    obtain rfl := List.mem_singleton.1 (List.mem_of_mem_filter (List.mem_of_getElem? hk))
    simpa using hsequence

/-- Events of the root `a` that want sequence numbers. -/
def Sample.wanting (numbers : List Int) : List Event :=
  numbers.map fun n => ((Event.new "Opened" .null).withMetadata Metadata.Key.root "a").withMetadata
    Metadata.Key.sequence (toString n)

/-- In an empty log, an event that wants the greatest number leaves a gap. If one behind it wants the
least number, where words come round, the batch is not sequenced. -/
theorem Log.save_outcome_greatest :
    (Log.empty.save .nil (Sample.wanting [Word64.greatest])).1
        = .error (Log.gap .nil "a" 0 Word64.greatest) ∧
      ∃ cause, (Log.empty.save .nil (Sample.wanting [Word64.greatest, Word64.least])).1
        = .error (.integrity cause) := by
  constructor
  · obtain ⟨-, -, -, hmisfit, -⟩ := Log.save_outcome [] .nil (Sample.wanting [Word64.greatest])
    have hsequenced : Batch.Sequenced (Sample.wanting [Word64.greatest]) :=
      Batch.sequenced_singleton "a" Word64.greatest rfl rfl
    obtain ⟨sequence, hfirst, hanswer⟩ := hmisfit "a" (by decide) hsequenced (by decide +kernel)
    obtain rfl : Word64.greatest = sequence := Option.some.inj hfirst
    rcases hanswer with ⟨hlt, -⟩ | ⟨-, hanswer⟩
    · exact absurd hlt (by decide)
    · exact hanswer
  · obtain ⟨-, -, hrefused, -⟩ :=
      Log.save_outcome [] .nil (Sample.wanting [Word64.greatest, Word64.least])
    refine hrefused (by decide) (by decide) fun hsequenced => ?_
    obtain ⟨first, hfirst⟩ := hsequenced.consecutive "a"
    have hgreatest : Word64.greatest = first + (0 : Nat) := Except.ok.inj (hfirst 0 _ rfl)
    have hleast : Word64.least = first + (1 : Nat) := Except.ok.inj (hfirst 1 _ rfl)
    unfold Word64.greatest at hgreatest
    unfold Word64.least at hleast
    omega

end Chronicle
