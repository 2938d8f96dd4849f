import Chronicle.Proofs.Log.Saving

namespace Chronicle

/-!
# Runs of saves

* `Log.saveAll` — many writers save their batches one after the other, in any order.
* `Log.Extends` — a later log begins with the events of an earlier one.
* `Log.saveAll_events` — a log grows by the committed batches and by nothing else.
* `Log.numbering_and_blocks` — what a log that began empty looks like after any saves: positions and
  sequence numbers have no gaps, every committed batch is one block, and of the batches that want
  the same number of the same root at most one is committed.
-/

/-- A batch that some writer wants to save. -/
structure Save where
  /-- The id of the batch. -/
  batch : Uuid
  /-- The events. -/
  events : List Event

/-- The batch wants a number in the history of a root. -/
def Save.Wants (s : Save) (root : String) (sequence : Int) : Prop :=
  ∃ e ∈ s.events, e.root = .ok root ∧ e.sequence = .ok sequence

/-- The events that a save has added to the log, by its answer. -/
def SaveOutcome.added : Except StoreError SaveOutcome → List Event
  | .ok (.committed events) => events
  | _ => []

/-- An answer tells the truth about a save if a committed batch holds the saved events. -/
def Save.AnsweredBy (s : Save) (answer : Except StoreError SaveOutcome) : Prop :=
  ∀ block, answer = .ok (.committed block) → List.Forall₂ (Event.StoredAs s.batch) s.events block

namespace Log

/-! ### Growth -/

/-- A log that begins with the events of another one. -/
def Extends (log log' : Log) : Prop := log.events <+: log'.events

theorem Extends.refl (log : Log) : log.Extends log := List.prefix_refl _

theorem Extends.trans {a b c : Log} (hab : a.Extends b) (hbc : b.Extends c) : a.Extends c :=
  List.IsPrefix.trans hab hbc

/-- The history of a root only gets longer. -/
theorem Extends.history {log log' : Log} (h : log.Extends log') (root : String) :
    log.history root <+: log'.history root := by
  obtain ⟨events, hevents⟩ := h
  rw [history_of_append hevents.symm]
  exact List.prefix_append _ _

/-- What a single save does: it appends what it answers. -/
theorem Consistent.save_spec {log : Log} (hlog : log.Consistent) (s : Save) :
    (log.save s.batch s.events).2.events
        = log.events ++ SaveOutcome.added (log.save s.batch s.events).1 ∧
      s.AnsweredBy (log.save s.batch s.events).1 := by
  rcases hlog.save_cases s.batch s.events with
    ⟨err, h⟩ | ⟨c, h⟩ | ⟨block, log', h, hblock, hevents, _⟩
  · rw [h]
    exact ⟨by simp [SaveOutcome.added], fun _ hb => by cases hb⟩
  · rw [h]
    exact ⟨by simp [SaveOutcome.added], fun _ hb => by cases hb⟩
  · rw [h]
    exact ⟨hevents, fun _ hb => by cases hb; exact hblock⟩

/-! ### Runs -/

/-- Save batches one after the other: the answers, and the log afterwards. -/
def saveAll : List Save → Log → List (Except StoreError SaveOutcome) × Log
  | [], log => ([], log)
  | s :: rest, log =>
    let first := log.save s.batch s.events
    let later := saveAll rest first.2
    (first.1 :: later.1, later.2)

@[simp] theorem saveAll_nil (log : Log) : saveAll [] log = ([], log) := rfl

theorem saveAll_cons (s : Save) (rest : List Save) (log : Log) :
    saveAll (s :: rest) log
      = ((log.save s.batch s.events).1 :: (saveAll rest (log.save s.batch s.events).2).1,
        (saveAll rest (log.save s.batch s.events).2).2) := rfl

/-- Batches can be saved in two parts. -/
theorem saveAll_append (calls later : List Save) (log : Log) :
    (log.saveAll (calls ++ later)).2 = ((log.saveAll calls).2.saveAll later).2 := by
  induction calls generalizing log with
  | nil => rfl
  | cons s rest ih =>
    rw [List.cons_append, saveAll_cons, saveAll_cons]
    exact ih _

/-- A log stays consistent whatever is saved, in any order. -/
theorem Consistent.saveAll {log : Log} (hlog : log.Consistent) (calls : List Save) :
    (log.saveAll calls).2.Consistent := by
  induction calls generalizing log with
  | nil => exact hlog
  | cons s rest ih => exact ih (hlog.save s.batch s.events)

/-- A log grows by the committed batches and by nothing else. -/
theorem saveAll_events {log : Log} (hlog : log.Consistent) (calls : List Save) :
    (log.saveAll calls).2.events
      = log.events ++ (log.saveAll calls).1.flatMap SaveOutcome.added := by
  induction calls generalizing log with
  | nil => simp
  | cons s rest ih =>
    rw [saveAll_cons, ih (hlog.save s.batch s.events), (hlog.save_spec s).1, List.append_assoc,
      List.flatMap_cons]

theorem Consistent.extends_saveAll {log : Log} (hlog : log.Consistent) (calls : List Save) :
    log.Extends (log.saveAll calls).2 :=
  ⟨_, (saveAll_events hlog calls).symm⟩

/-- Every save is answered, and answered truly. -/
theorem saveAll_answers {log : Log} (hlog : log.Consistent) (calls : List Save) :
    List.Forall₂ Save.AnsweredBy calls (log.saveAll calls).1 := by
  induction calls generalizing log with
  | nil => exact .nil
  | cons s rest ih => exact .cons (hlog.save_spec s).2 (ih (hlog.save s.batch s.events))

/-- The first answers do not depend on later saves. -/
theorem saveAll_take (calls : List Save) (n : Nat) (log : Log) :
    (log.saveAll (calls.take n)).1 = (log.saveAll calls).1.take n := by
  induction calls generalizing n log with
  | nil => simp
  | cons s rest ih =>
    cases n with
    | zero => rfl
    | succ n =>
      rw [List.take_succ_cons, saveAll_cons, saveAll_cons, List.take_succ_cons, ih]

/-- Only the first of two batches that want the same number of a root can be committed. -/
theorem pairwise_added {log : Log} (hlog : log.Consistent) (calls : List Save) :
    (log.saveAll calls).1.Pairwise fun a b => ∀ e ∈ SaveOutcome.added a, ∀ e' ∈ SaveOutcome.added b,
      ∀ root, e.root = .ok root → e'.root = .ok root → e.sequence ≠ e'.sequence := by
  have hne := (hlog.saveAll calls).sequence_ne
  rw [saveAll_events hlog, List.pairwise_append] at hne
  exact (List.pairwise_flatMap.1 hne.2.1).2

/-- A committed batch that wants a number has added an event with that number. -/
theorem exists_added_of_wants {s : Save} {block : List Event} {root : String} {sequence : Int}
    (hblock : List.Forall₂ (Event.StoredAs s.batch) s.events block)
    (hwants : s.Wants root sequence) :
    ∃ e ∈ block, e.root = .ok root ∧ e.sequence = .ok sequence := by
  obtain ⟨e, he, hroot, hsequence⟩ := hwants
  obtain ⟨stored, hmem, hstored⟩ := Event.StoredAs.exists_stored hblock he
  exact ⟨stored, hmem, hstored.root_eq.trans hroot, hstored.sequence_eq.trans hsequence⟩

/-- The log after a save is the log before it and what the save has added; later saves add to
that. -/
theorem saveAll_block {log : Log} (hlog : log.Consistent) (calls : List Save) {i : Nat}
    {answer : Except StoreError SaveOutcome} (hi : (log.saveAll calls).1[i]? = some answer) :
    (log.saveAll (calls.take (i + 1))).2.events
        = (log.saveAll (calls.take i)).2.events ++ SaveOutcome.added answer ∧
      (log.saveAll (calls.take (i + 1))).2.Extends (log.saveAll calls).2 := by
  -- The log after `n` saves is what the first `n` answers have added.
  have hgrown : ∀ n, (log.saveAll (calls.take n)).2.events
      = log.events ++ ((log.saveAll calls).1.take n).flatMap SaveOutcome.added := by
    intro n
    rw [saveAll_events hlog, saveAll_take]
  obtain ⟨hlt, rfl⟩ := List.getElem?_eq_some_iff.1 hi
  constructor
  · rw [hgrown, hgrown, List.take_succ_eq_append_getElem hlt, List.flatMap_append,
      List.flatMap_singleton, List.append_assoc]
  · show _ <+: _
    rw [hgrown, saveAll_events hlog]
    refine List.prefix_append_right_inj _ |>.2
      ⟨((log.saveAll calls).1.drop (i + 1)).flatMap SaveOutcome.added, ?_⟩
    rw [← List.flatMap_append, List.take_append_drop]

/-- A committed batch holds the saved events. -/
theorem saveAll_committed {log : Log} (hlog : log.Consistent) {calls : List Save} {i : Nat}
    {s : Save} {block : List Event} (hs : calls[i]? = some s)
    (hi : (log.saveAll calls).1[i]? = some (.ok (.committed block))) :
    List.Forall₂ (Event.StoredAs s.batch) s.events block := by
  obtain ⟨hlt, rfl⟩ := List.getElem?_eq_some_iff.1 hs
  obtain ⟨hlt', hanswer⟩ := List.getElem?_eq_some_iff.1 hi
  exact (saveAll_answers hlog calls).get hlt hlt' block hanswer

/-- The earlier one of two committed batches leaves no number of its own to the later one. -/
theorem not_wants_of_lt {log : Log} (hlog : log.Consistent) {calls : List Save} {i j : Nat}
    {s s' : Save} {block block' : List Event} {root : String} {sequence : Int} (hij : i < j)
    (hs : calls[i]? = some s) (hs' : calls[j]? = some s')
    (hi : (log.saveAll calls).1[i]? = some (.ok (.committed block)))
    (hj : (log.saveAll calls).1[j]? = some (.ok (.committed block')))
    (hwants : s.Wants root sequence) : ¬ s'.Wants root sequence := by
  intro hwants'
  -- Both blocks would have an event with the number, and so would the log.
  obtain ⟨e, he, hroot, hsequence⟩ := exists_added_of_wants (saveAll_committed hlog hs hi) hwants
  obtain ⟨e', he', hroot', hsequence'⟩ :=
    exists_added_of_wants (saveAll_committed hlog hs' hj) hwants'
  obtain ⟨hlt, hi⟩ := List.getElem?_eq_some_iff.1 hi
  obtain ⟨hlt', hj⟩ := List.getElem?_eq_some_iff.1 hj
  have hne := List.pairwise_iff_getElem.1 (pairwise_added hlog calls) i j hlt hlt' hij
  rw [hi, hj] at hne
  exact hne e he e' he' root hroot hroot' (hsequence.trans hsequence'.symm)

/-- An event that was added belongs to a committed batch and carries its id. -/
theorem committed_of_mem_added {log : Log} (hlog : log.Consistent) {calls : List Save} {e : Event}
    (he : e ∈ (log.saveAll calls).1.flatMap SaveOutcome.added) :
    ∃ (i : Nat) (s : Save) (block : List Event), calls[i]? = some s ∧
      (log.saveAll calls).1[i]? = some (.ok (.committed block)) ∧ e ∈ block ∧
      e.batchId = .ok s.batch := by
  obtain ⟨answer, hanswer, hadded⟩ := List.mem_flatMap.1 he
  obtain ⟨i, hi, rfl⟩ := List.getElem_of_mem hanswer
  have hlen : calls.length = (log.saveAll calls).1.length := (saveAll_answers hlog calls).length_eq
  have hs : calls[i]? = some (calls.get ⟨i, hlen ▸ hi⟩) := List.getElem?_eq_getElem _
  -- Only a committed batch adds events.
  obtain ⟨block, hblock, hmem⟩ : ∃ block, (log.saveAll calls).1[i] = .ok (.committed block) ∧
      e ∈ block := by
    unfold SaveOutcome.added at hadded
    split at hadded
    · exact ⟨_, ‹_›, hadded⟩
    · cases hadded
  have hcommitted : (log.saveAll calls).1[i]? = some (.ok (.committed block)) :=
    hblock ▸ List.getElem?_eq_getElem hi
  obtain ⟨_, _, hstored⟩ :=
    Event.StoredAs.exists_saved (saveAll_committed hlog hs hcommitted) hmem
  exact ⟨i, _, block, hs, hcommitted, hmem, hstored.batch⟩

/-- **Numbering and blocks.** Whatever many writers save in a log that began empty (`saveAll calls empty`),
in any order and with any outcomes: positions count the log (`log.events[i]` has `position` i); sequence
numbers count the `log.history` of each root; the log grows by one block for each committed batch
(`SaveOutcome.added`), which holds the batch as it was answered (`Save.AnsweredBy`); and of the batches
that want the same number of the same root (`Save.Wants`) at most one is committed. -/
theorem numbering_and_blocks (calls : List Save) :
    let answers := (saveAll calls empty).1
    let log := (saveAll calls empty).2
    -- An event stands where its position says.
    (∀ (i : Nat) (e : Event), log.events[i]? = some e → e.position = .ok (i : Int)) ∧
    -- The events of a root are numbered 0, 1, 2, ... in log order.
    (∀ root, (log.history root).map Event.sequence
      = (List.range (log.history root).length).map fun k => .ok (k : Int)) ∧
    -- A committed batch is answered as it was saved, up to the positions and its id.
    List.Forall₂ Save.AnsweredBy calls answers ∧
    -- Each save adds one block, the events it answers, and later saves add behind it.
    (∀ (i : Nat) (answer : Except StoreError SaveOutcome), answers[i]? = some answer →
      (saveAll (calls.take (i + 1)) empty).2.events
          = (saveAll (calls.take i) empty).2.events ++ SaveOutcome.added answer ∧
        (saveAll (calls.take (i + 1)) empty).2.Extends log) ∧
    -- At most one of the batches that want the same number of a root is committed.
    (∀ (root : String) (sequence : Int) (i j : Nat) (s s' : Save) (block block' : List Event),
      calls[i]? = some s → calls[j]? = some s' → s.Wants root sequence → s'.Wants root sequence →
      answers[i]? = some (.ok (.committed block)) → answers[j]? = some (.ok (.committed block')) →
      i = j) ∧
    -- The stream has the committed blocks and nothing of any other batch.
    log.stream 0 = answers.flatMap SaveOutcome.added ∧
    (∀ e ∈ log.stream 0, ∃ (i : Nat) (s : Save) (block : List Event), calls[i]? = some s ∧
      answers[i]? = some (.ok (.committed block)) ∧ e ∈ block ∧ e.batchId = .ok s.batch) := by
  intro answers log
  have hlog : log.Consistent := consistent_empty.saveAll calls
  have hstream : log.stream 0 = answers.flatMap SaveOutcome.added :=
    saveAll_events consistent_empty calls
  refine ⟨fun i e he => hlog.position he, ?_, saveAll_answers consistent_empty calls,
    fun i answer hi => saveAll_block consistent_empty calls hi, ?_, hstream, ?_⟩
  · intro root
    refine List.ext_getElem (by simp) fun k hk _ => ?_
    rw [List.length_map] at hk
    rw [List.getElem_map, List.getElem_map, List.getElem_range]
    exact hlog.sequence (List.getElem?_eq_getElem hk)
  · intro root sequence i j s s' block block' hs hs' hwants hwants' hi hj
    rcases Nat.lt_trichotomy i j with hij | hij | hij
    · exact absurd hwants' (not_wants_of_lt consistent_empty hij hs hs' hi hj hwants)
    · exact hij
    · exact absurd hwants (not_wants_of_lt consistent_empty hij hs' hs hj hi hwants')
  · intro e he
    exact committed_of_mem_added consistent_empty (hstream ▸ he)

end Log

end Chronicle
