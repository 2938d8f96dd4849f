import Chronicle.Proofs.Log.History
import Mathlib.Data.List.Forall2

namespace Chronicle

/-!
# What a save does to a consistent log

* `Event.StoredAs` — how a stored event comes from the event that was saved: the log sets its
  position and its batch and leaves the rest.
* `Log.appendAll_of_fits` — a batch that passes the checks is appended, all of it, and the log stays
  consistent.
* `Log.Consistent.save_cases` — the outcomes of a save: an error or a conflict that changes nothing,
  or a batch that is appended as it is answered.
-/

/-! ### Stamping -/

/-- The stored event is the saved one, except that the log has set its position and its batch. -/
structure Event.StoredAs (batch : Uuid) (saved stored : Event) : Prop where
  /-- The type tag is kept. -/
  tag : stored.tag = saved.tag
  /-- The payload is kept. -/
  payload : stored.payload = saved.payload
  /-- All other metadata are kept. -/
  kept : ∀ key, key ≠ Metadata.Key.position → key ≠ Metadata.Key.batch →
    stored.metadata.get? key = saved.metadata.get? key
  /-- The event carries the id of its batch. -/
  batch : stored.batchId = .ok batch

namespace Event.StoredAs

variable {batch : Uuid} {saved stored : Event}

theorem root_eq (h : StoredAs batch saved stored) : stored.root = saved.root :=
  require_congr h.tag (h.kept _ (by decide) (by decide))

theorem sequence_eq (h : StoredAs batch saved stored) : stored.sequence = saved.sequence :=
  readAs_congr _ h.tag (h.kept _ (by decide) (by decide))

/-- Every stored event comes from a saved one. -/
theorem exists_saved {events block : List Event} (h : List.Forall₂ (StoredAs batch) events block)
    (hmem : stored ∈ block) : ∃ saved ∈ events, StoredAs batch saved stored := by
  obtain ⟨k, hk, rfl⟩ := List.getElem_of_mem hmem
  have hk' : k < events.length := h.length_eq ▸ hk
  exact ⟨events[k], List.getElem_mem hk', h.get hk' hk⟩

/-- Every saved event is stored. -/
theorem exists_stored {events block : List Event} (h : List.Forall₂ (StoredAs batch) events block)
    (hmem : saved ∈ events) : ∃ stored ∈ block, StoredAs batch saved stored := by
  obtain ⟨k, hk, rfl⟩ := List.getElem_of_mem hmem
  have hk' : k < block.length := h.length_eq ▸ hk
  exact ⟨block[k], List.getElem_mem hk', h.get hk hk'⟩

end Event.StoredAs

namespace Log

/-- Stamping sets the position and the batch of every event and nothing else. -/
theorem forall₂_stamp (batch : Uuid) (position : Nat) (events : List Event) :
    List.Forall₂ (Event.StoredAs batch) events (stamp batch position events) := by
  induction events generalizing position with
  | nil => exact .nil
  | cons e rest ih =>
    refine .cons ⟨rfl, rfl, fun key hposition hbatch => ?_, ?_⟩ (ih (position + 1))
    · simp [Dict.get?_insert, hposition, hbatch]
    · exact Event.readAs_withMetadata_self _ _ (Uuid.read?_text batch)

/-- A stamped event has its place in the log as the text of its position. -/
theorem get?_position_stamp {batch : Uuid} {position k : Nat} {events : List Event} {e : Event}
    (he : (stamp batch position events)[k]? = some e) :
    e.metadata.get? Metadata.Key.position = some (toString ((position + k : Nat) : Int)) := by
  induction events generalizing position k with
  | nil => simp [stamp] at he
  | cons e₀ rest ih =>
    cases k with
    | zero =>
      simp only [stamp, List.getElem?_cons_zero, Option.some.injEq] at he
      subst he
      -- Setting the batch does not touch the position.
      have hne : Metadata.Key.position ≠ Metadata.Key.batch := by decide
      simp [Dict.get?_insert, hne]
    | succ k =>
      rw [stamp, List.getElem?_cons_succ] at he
      rw [ih he, Nat.add_right_comm, Nat.add_assoc]

/-- A stamped event stands at its place in the batch, if its position can be read at all. -/
theorem position_stamp {batch : Uuid} {position k : Nat} {events : List Event} {e : Event} {p : Int}
    (he : (stamp batch position events)[k]? = some e) (hp : e.position = .ok p) :
    p = (position + k : Nat) := by
  rw [Event.position, Event.readAs_eq_ok_iff] at hp
  obtain ⟨value, hvalue, hread⟩ := hp
  rw [get?_position_stamp he, Option.some.injEq] at hvalue
  subst hvalue
  exact Numeral.eq_of_read?_toString hread

namespace HasRoom

variable {log : Log} {events : List Event}

/-- Stamping takes no room. -/
theorem stamped (h : log.HasRoom events) (batch : Uuid) (position : Nat) :
    log.HasRoom (Log.stamp batch position events) := by
  unfold HasRoom at h ⊢
  rwa [length_stamp]

/-- Where there is room, the position of a stamped event is its place in the log. -/
theorem position_stamp (h : log.HasRoom events) {batch : Uuid} {k : Nat} {e : Event}
    (he : (Log.stamp batch log.size events)[k]? = some e) :
    e.position = .ok ((log.size + k : Nat) : Int) := by
  refine (Event.readAs_eq_ok_iff _ _ _ _).2 ⟨_, get?_position_stamp he, ?_⟩
  have hlt := (List.getElem?_eq_some_iff.1 he).1
  rw [length_stamp] at hlt
  unfold HasRoom at h
  exact Numeral.read?_toString (Word64.fits_natCast (by omega))

end HasRoom

end Log

/-! ### The checks -/

namespace Batch

/-- The numbers of an event are what its metadata say. -/
theorem numbersOf_eq_ok_iff (e : Event) (n : Numbers) : numbersOf e = .ok n ↔
    e.root = .ok n.root ∧ e.sequence = .ok n.sequence ∧ e.position = .ok n.position := by
  unfold numbersOf
  obtain ⟨root, sequence, position⟩ := n
  cases e.root <;> cases e.sequence <;> cases e.position <;> simp

end Batch

namespace Log

/-- An event passes the uniqueness check if it continues the history of its root. -/
theorem checkFrom_cons_eq_fits {log : Log} {batch : Uuid} {next : Table String Int} {e : Event}
    {rest : List Event} (h : log.checkFrom batch next (e :: rest) = .ok .fits) :
    ∃ root, e.root = .ok root ∧ e.sequence = .ok ((next.get? root).getD (log.stored root)) ∧
      log.checkFrom batch
        (next.insert root ((next.get? root).getD (log.stored root) + 1)) rest = .ok .fits := by
  unfold checkFrom at h
  split at h
  · cases h
  · cases h
  · rename_i root sequence hroot hsequence
    simp only at h
    split at h
    · cases h
    · split at h
      · cases h
      · rename_i _ heq
        rw [ne_eq, not_not] at heq
        exact ⟨root, hroot, heq ▸ hsequence, h⟩

/-! ### Appending -/

/-- A batch that passes the uniqueness check is appended, all of it, and the log stays consistent.
The check was made against `log₀`; `log` has some of the batch already, and `next` counts that. -/
theorem appendAll_of_fits {log₀ log : Log} {batch : Uuid} {next : Table String Int}
    {events : List Event} (hlog : log.Consistent) (hroom : log.HasRoom events)
    (hnext : ∀ root, (next.get? root).getD (log₀.stored root : Int) = log.stored root)
    (hposition : ∀ (k : Nat) (e : Event), events[k]? = some e →
      e.position = .ok ((log.size + k : Nat) : Int))
    (hfits : log₀.checkFrom batch next events = .ok .fits) :
    ∃ log', log.appendAll events = (.ok (), log') ∧ log'.events = log.events ++ events ∧
      log'.Consistent := by
  induction events generalizing log next with
  | nil => exact ⟨log, rfl, by simp, hlog⟩
  | cons e rest ih =>
    obtain ⟨root, hroot, hsequence, hrest⟩ := checkFrom_cons_eq_fits hfits
    rw [hnext] at hsequence hrest
    have hlength : ((e :: rest).length : Int) = rest.length + 1 := rfl
    have happend : (log.append root e).Consistent := by
      unfold HasRoom at hroom
      exact hlog.append hroot (by omega) (by simpa using hposition 0 e rfl) hsequence
    have hroom' : (log.append root e).HasRoom rest := by
      unfold HasRoom at hroom ⊢
      rw [size_append]
      omega
    -- The check has counted the event as the log has.
    have hnext' : ∀ root', ((next.insert root (log.stored root + 1)).get? root').getD
        (log₀.stored root' : Int) = (log.append root e).stored root' := by
      intro root'
      rw [happend.stored_eq, history_append hroot, Table.get?_insert]
      by_cases hr : root' = root
      · subst hr
        simp [hlog.stored_eq]
      · rw [if_neg hr, if_neg hr, hnext, hlog.stored_eq]
    obtain ⟨log', hall, hevents, hlog'⟩ := ih happend hroom' hnext'
      (fun k e' hk => by
        rw [hposition (k + 1) e' (by simpa using hk), size_append]
        congr 2
        omega)
      hrest
    refine ⟨log', ?_, ?_, hlog'⟩
    · rw [appendAll, hroot]
      exact hall
    · rw [hevents, events_append, List.append_assoc, List.singleton_append]

/-! ### Saving -/

/-- The outcomes of a save. An error and a conflict leave the log alone; a batch that is committed
has been appended as it is answered. -/
theorem Consistent.save_cases {log : Log} (hlog : log.Consistent) (batch : Uuid)
    (events : List Event) :
    (∃ err, log.save batch events = (.error err, log)) ∨
    (∃ c, log.save batch events = (.ok (.conflict c), log)) ∨
    ∃ block log', log.save batch events = (.ok (.committed block), log') ∧
      List.Forall₂ (Event.StoredAs batch) events block ∧ log'.events = log.events ++ block ∧
      log'.Consistent := by
  unfold save
  cases events with
  | nil => exact .inr (.inr ⟨[], log, rfl, .nil, by simp, hlog⟩)
  | cons e rest =>
    by_cases hroom : log.HasRoom (e :: rest)
    · simp only [List.isEmpty_cons, Bool.false_eq_true, hroom, not_true, if_false]
      have hroom' : log.HasRoom (stamp batch log.size (e :: rest)) := hroom.stamped batch log.size
      generalize hblock : stamp batch log.size (e :: rest) = block at hroom'
      split
      · exact .inl ⟨_, rfl⟩
      · split
        · exact .inl ⟨_, rfl⟩
        · exact .inr (.inl ⟨_, rfl⟩)
        · rename_i hfits
          have hposition : ∀ (k : Nat) (e : Event), block[k]? = some e →
              e.position = .ok ((log.size + k : Nat) : Int) :=
            fun k e' hk => hroom.position_stamp (hblock ▸ hk)
          obtain ⟨log', hall, hevents, hlog'⟩ :=
            appendAll_of_fits hlog hroom' (fun root => by simp) hposition hfits
          refine .inr (.inr ⟨block, log', ?_, hblock ▸ forall₂_stamp _ _ _, hevents, hlog'⟩)
          rw [hall]
    · simp only [List.isEmpty_cons, Bool.false_eq_true, hroom, not_false_eq_true, if_true, if_false]
      exact .inl ⟨_, rfl⟩

/-- A log stays consistent whatever is saved. -/
theorem Consistent.save {log : Log} (hlog : log.Consistent) (batch : Uuid) (events : List Event) :
    (log.save batch events).2.Consistent := by
  rcases hlog.save_cases batch events with ⟨_, h⟩ | ⟨_, h⟩ | ⟨_, _, h, _, _, hlog'⟩
  · rw [h]
    exact hlog
  · rw [h]
    exact hlog
  · rw [h]
    exact hlog'

end Log

end Chronicle
