import Chronicle.Proofs.Log.Outcome

namespace Chronicle

/-!
# What a conflict tells

A conflict names a root and a sequence number. Whoever meets one loads the root again and numbers
the batch anew, so the number should be one that the log has.

* `Log.Taken` — the log has an event of a root with a sequence number.
* `Log.Consistent.taken_iff` — the numbers that are taken are those from zero up to the length of
  the history.
* `Log.conflict_taken_iff` — the number that a conflict names is one of the batch, and it is taken
  unless it is negative.
* `Log.conflict_below_zero` — a negative number makes a conflict over an event that does not exist.
-/

/-- The first event of a root in a batch wants its number. -/
theorem Save.wants_of_firstSequence? {s : Save} {root : String} {sequence : Int}
    (h : Batch.firstSequence? s.events root = some sequence) : s.Wants root sequence := by
  obtain ⟨e, he, hsequence⟩ := Option.bind_eq_some_iff.1 h
  refine ⟨e, List.mem_of_find?_eq_some he, (Event.isOf_iff root e).1 (List.find?_some he), ?_⟩
  cases hs : e.sequence with
  | error err => simp [hs, Except.toOption] at hsequence
  | ok n => simpa [hs, Except.toOption] using hsequence

namespace Log

/-- The log has an event of a root with a sequence number. -/
def Taken (log : Log) (root : String) (sequence : Int) : Prop :=
  ∃ e ∈ log.events, e.root = .ok root ∧ e.sequence = .ok sequence

/-- A history is numbered from zero on, so the numbers below its length are taken and no others. -/
theorem Consistent.taken_iff {log : Log} (hlog : log.Consistent) (root : String) (sequence : Int) :
    log.Taken root sequence ↔ 0 ≤ sequence ∧ sequence < (log.history root).length := by
  constructor
  · rintro ⟨e, he, hroot, hsequence⟩
    obtain ⟨k, hk⟩ := List.getElem?_of_mem (mem_history.2 ⟨he, hroot⟩)
    obtain rfl : (k : Int) = sequence := by simpa [hlog.sequence hk] using hsequence
    have hlt := (List.getElem?_eq_some_iff.1 hk).1
    omega
  · rintro ⟨hnonneg, hlt⟩
    obtain ⟨k, rfl⟩ := Int.eq_ofNat_of_zero_le hnonneg
    have hk : (log.history root)[k]? = some _ := List.getElem?_eq_getElem (by omega)
    obtain ⟨he, hroot⟩ := mem_history.1 (List.mem_of_getElem? hk)
    exact ⟨_, he, hroot, hlog.sequence hk⟩

/-- A conflict comes of a batch that wants a number below the length of a history. -/
theorem Consistent.of_conflict {log : Log} (hlog : log.Consistent) {s : Save} {conflict : Conflict}
    (h : (log.save s.batch s.events).1 = .ok (.conflict conflict)) :
    ∃ root sequence, conflict = ⟨s.batch, .sequence root sequence⟩ ∧ s.Wants root sequence ∧
      sequence < (log.history root).length := by
  have hne : s.events ≠ [] := by
    intro hnil
    rw [hnil, save_nil] at h
    cases h
  have hroom : log.HasRoom s.events := by
    by_contra hfull
    rw [save_of_not_hasRoom s.batch hne hfull] at h
    cases h
  have hsequenced : Batch.Sequenced s.events := by
    by_contra hnot
    obtain ⟨cause, hsave⟩ := save_of_not_sequenced s.batch hne hroom hnot
    rw [hsave] at h
    cases h
  cases hmisfit : log.misfit? s.events with
  | none =>
    obtain ⟨block, hsave, _⟩ := save_of_fits s.batch hlog hne hsequenced hroom hmisfit
    rw [hsave] at h
    cases h
  | some root =>
    obtain ⟨sequence, hfirst, _, hsave⟩ :=
      save_of_misfit s.batch hlog hne hsequenced hroom hmisfit
    rw [hsave] at h
    by_cases hlt : sequence < (log.history root).length
    · simp only [hlt, if_true, Except.ok.injEq, SaveOutcome.conflict.injEq] at h
      exact ⟨root, sequence, h.symm, Save.wants_of_firstSequence? hfirst, hlt⟩
    · simp [hlt] at h

/-- **A conflict tells of a taken number, unless the number is negative.** Whatever has been saved
in a log that began empty (`saveAll`): if a batch meets a `Conflict`, this names a root and a sequence
number; the batch has an event of the root with that number (`Save.Wants`); and the log has one
(`Log.Taken`) exactly if the number is not negative. -/
theorem conflict_taken_iff (calls : List Save) (s : Save) (conflict : Conflict)
    (h : ((saveAll calls empty).2.save s.batch s.events).1 = .ok (.conflict conflict)) :
    ∃ root sequence, conflict = ⟨s.batch, .sequence root sequence⟩ ∧ s.Wants root sequence ∧
      ((saveAll calls empty).2.Taken root sequence ↔ 0 ≤ sequence) := by
  have hlog : (saveAll calls empty).2.Consistent := consistent_empty.saveAll calls
  obtain ⟨root, sequence, hconflict, hwants, hlt⟩ := hlog.of_conflict h
  exact ⟨root, sequence, hconflict, hwants, by simp [hlog.taken_iff, hlt]⟩

end Log

/-- A batch with one event of the root `a`, with a number. -/
def Sample.numbered (sequence : Int) : Save where
  batch := .nil
  events := [((Event.new "Opened" .null).withMetadata Metadata.Key.root "a").withMetadata
    Metadata.Key.sequence (toString sequence)]

/-- Of two events that want to be the first one, the second meets a conflict over the first. -/
theorem Log.conflict_taken_iff_second :
    ((Log.saveAll [Sample.numbered 0] Log.empty).2.save .nil (Sample.numbered 0).events).1
        = .ok (.conflict ⟨.nil, .sequence "a" 0⟩) ∧
      (Log.saveAll [Sample.numbered 0] Log.empty).2.Taken "a" 0 := by
  have hconflict : ((Log.saveAll [Sample.numbered 0] Log.empty).2.save .nil
      (Sample.numbered 0).events).1 = .ok (.conflict ⟨.nil, .sequence "a" 0⟩) := by rfl
  obtain ⟨root, sequence, heq, -, htaken⟩ :=
    Log.conflict_taken_iff [Sample.numbered 0] (Sample.numbered 0) _ hconflict
  cases heq
  exact ⟨hconflict, htaken.2 (by decide)⟩

/-- **A conflict may tell of an event that does not exist.** Saved in an empty log, an event with
the number -1 meets a conflict over this number. -/
theorem Log.conflict_below_zero :
    (Log.empty.save .nil (Sample.numbered (-1)).events).1
        = .ok (.conflict ⟨.nil, .sequence "a" (-1)⟩) ∧
      ¬ Log.empty.Taken "a" (-1) := by
  constructor
  · rfl
  · rintro ⟨e, he, -⟩
    cases he

end Chronicle
