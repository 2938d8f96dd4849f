import Chronicle.Proofs.Log.Runs
import Chronicle.Store.Scripted

namespace Chronicle

/-!
# A log that is shared with other writers

* `SharedLog` — a log with what is still to happen to it: before every operation other writers may
  save batches, and the operation itself may fail.
* `SharedLog.store` — its operations. Every interleaving of the steps of one user of the store with
  the commits of other writers, and every pattern of failures, is some list of happenings.
* `SharedLog.Grown` — the log stays consistent and only gets longer. Every operation does that.
* `SharedLog.Passed` — only the other writers have saved something. `SharedLog.Gains` — behind that, a
  block of events has been added.
* `SharedLog.Reliable` — no operation fails. `SharedLog.Later` — a later state of the log.
* `SharedLog.save_answer` — a save is refused, or it meets the log as the other writers have left it.
-/

/-! ### Happenings -/

/-- How an operation of a store fails. -/
inductive Fault where
  /-- The operation is refused. -/
  | refused (err : StoreError)
  /-- The events that are read break off. -/
  | broken (item : BrokenItem)

/-- The events that a read answers, if it fails in this way. -/
def Fault.read : Option Fault → List Event → Except StoreError EventStream
  | some (.refused err), _ => .error err
  | some (.broken item), events => .ok (ScriptedStore.breakOff events (some item))
  | none, events => .ok (events.map .ok)

/-- What happens at an operation. -/
structure Happening where
  /-- The batches that other writers save just before it. -/
  rivals : List Save := []
  /-- How the operation fails, if it does. -/
  fault : Option Fault := none

/-- A log that other writers use too. -/
structure SharedLog where
  /-- The log. -/
  log : Log
  /-- What happens at the next operations, one entry for each; nothing does when they are over. -/
  ahead : List Happening := []

namespace SharedLog

/-! ### Operations -/

/-- Let happen what happens at the next operation: how it fails, and what there is then. -/
def turn (s : SharedLog) : Option Fault × SharedLog :=
  match s.ahead with
  | [] => (none, s)
  | h :: rest => (h.fault, ⟨(s.log.saveAll h.rivals).2, rest⟩)

/-- Save a batch. -/
def save (batch : Uuid) (events : List Event) (s : SharedLog) :
    Except StoreError SaveOutcome × SharedLog :=
  match s.turn with
  | (some (.refused err), s) => (.error err, s)
  | (_, s) =>
    let (outcome, log) := s.log.save batch events
    (outcome, { s with log })

/-- The next position. -/
def nextPosition (s : SharedLog) : Except StoreError Int × SharedLog :=
  match s.turn with
  | (some (.refused err), s) => (.error err, s)
  | (_, s) => (.ok (s.log.size : Int), s)

/-- The operations of the store. -/
def store : EventStore SharedLog where
  save := save
  load root first s := (Fault.read s.turn.1 (s.turn.2.log.load root first), s.turn.2)
  stream first s := (Fault.read s.turn.1 (s.turn.2.log.stream first), s.turn.2)
  nextPosition := nextPosition

/-! ### Growth -/

/-- The log is consistent and begins with the events of an earlier one. -/
structure Grown (s s' : SharedLog) : Prop where
  /-- The log is consistent. -/
  log : s'.log.Consistent
  /-- Nothing is lost. -/
  kept : s.log.Extends s'.log

theorem Grown.refl {s : SharedLog} (hlog : s.log.Consistent) : s.Grown s := ⟨hlog, .refl _⟩

theorem Grown.trans {a b c : SharedLog} (hab : a.Grown b) (hbc : b.Grown c) : a.Grown c :=
  ⟨hbc.log, hab.kept.trans hbc.kept⟩

/-- Whatever happens, the log only grows. -/
theorem grown_turn {s : SharedLog} (hlog : s.log.Consistent) : s.Grown s.turn.2 := by
  unfold turn
  split
  · exact .refl hlog
  · exact ⟨hlog.saveAll _, hlog.extends_saveAll _⟩

/-- Asking for the next position lets happen what happens and does nothing else. -/
theorem nextPosition_snd (s : SharedLog) : (s.nextPosition).2 = s.turn.2 := by
  unfold nextPosition
  rcases s.turn with ⟨_ | _ | _, s'⟩ <;> rfl

/-- A save is refused, or it is made on the log as it is at that moment. -/
theorem save_answer (batch : Uuid) (events : List Event) (s : SharedLog) :
    (∃ err, s.turn.1 = some (.refused err) ∧ s.save batch events = (.error err, s.turn.2)) ∨
      s.save batch events = ((s.turn.2.log.save batch events).1,
        { s.turn.2 with log := (s.turn.2.log.save batch events).2 }) := by
  unfold save
  rcases s.turn with ⟨_ | err | _, s'⟩
  · exact .inr rfl
  · exact .inl ⟨err, rfl, rfl⟩
  · exact .inr rfl

/-- The next position is not told, or it is the size of the log at that moment. -/
theorem nextPosition_fst (s : SharedLog) :
    (∃ err, s.turn.1 = some (.refused err) ∧ s.nextPosition.1 = .error err) ∨
      s.nextPosition.1 = .ok (s.turn.2.log.size : Int) := by
  unfold nextPosition
  rcases s.turn with ⟨_ | err | _, s'⟩
  · exact .inr rfl
  · exact .inl ⟨err, rfl, rfl⟩
  · exact .inr rfl

/-- A save only makes the log grow. -/
theorem grown_save {s : SharedLog} (hlog : s.log.Consistent) (batch : Uuid) (events : List Event) :
    s.Grown (s.save batch events).2 := by
  have hturn := grown_turn hlog
  rcases save_answer batch events s with ⟨_, _, hsaved⟩ | hsaved
  · rw [hsaved]
    exact hturn
  · rw [hsaved]
    exact hturn.trans
      ⟨hturn.log.save batch events, hturn.log.extends_saveAll [⟨batch, events⟩]⟩

/-! ### What other writers add, and what is added to that -/

/-- Some operations have come to pass, and nothing but the saves of the other writers has been done to
the log. -/
def Passed (s s' : SharedLog) : Prop :=
  ∃ used, s.ahead = used ++ s'.ahead ∧
    s'.log = (s.log.saveAll (used.flatMap Happening.rivals)).2

theorem Passed.refl (s : SharedLog) : s.Passed s := ⟨[], rfl, rfl⟩

theorem Passed.trans {a b c : SharedLog} (hab : a.Passed b) (hbc : b.Passed c) : a.Passed c := by
  obtain ⟨used, hahead, hlog⟩ := hab
  obtain ⟨used', hahead', hlog'⟩ := hbc
  refine ⟨used ++ used', by rw [hahead, hahead', List.append_assoc], ?_⟩
  rw [hlog', hlog, List.flatMap_append, Log.saveAll_append]

theorem passed_turn (s : SharedLog) : s.Passed s.turn.2 := by
  unfold turn
  split
  · exact .refl s
  · rename_i h rest hahead
    exact ⟨[h], hahead, by simp⟩

/-- What other writers save only makes the log grow. -/
theorem Passed.grown {s s' : SharedLog} (h : s.Passed s') (hlog : s.log.Consistent) :
    s.Grown s' := by
  obtain ⟨used, _, hsaved⟩ := h
  exact ⟨hsaved ▸ hlog.saveAll _, hsaved ▸ hlog.extends_saveAll _⟩

/-- Behind what the other writers have saved, a block of events has been added, and nothing else. -/
def Gains (s : SharedLog) (block : List Event) (s' : SharedLog) : Prop :=
  ∃ others : SharedLog, s.Passed others ∧ s'.ahead = others.ahead ∧
    s'.log.events = others.log.events ++ block

theorem Passed.gains {a b c : SharedLog} {block : List Event} (hab : a.Passed b)
    (hbc : b.Gains block c) : a.Gains block c := by
  obtain ⟨others, hpassed, hadded⟩ := hbc
  exact ⟨others, hab.trans hpassed, hadded⟩

/-! ### Logs on which nothing fails -/

variable {s s' : SharedLog}

theorem Grown.size_le (h : s.Grown s') : s.log.size ≤ s'.log.size := h.kept.length_le

/-- No operation will fail. -/
def Reliable (s : SharedLog) : Prop := ∀ h ∈ s.ahead, h.fault = none

theorem Reliable.turn_fst (hs : s.Reliable) : s.turn.1 = none := by
  unfold turn
  split
  · rfl
  · rename_i h rest hahead
    exact hs h (hahead ▸ List.mem_cons_self)

/-- The log has grown, and nothing will fail that would not have failed. -/
structure Later (s s' : SharedLog) : Prop where
  /-- The log has grown. -/
  grown : s.Grown s'
  /-- Nothing will fail if nothing would have failed. -/
  reliable : s.Reliable → s'.Reliable

theorem Passed.later (h : s.Passed s') (hlog : s.log.Consistent) : s.Later s' := by
  refine ⟨h.grown hlog, fun hs happening hmem => ?_⟩
  obtain ⟨used, hahead, _⟩ := h
  exact hs happening (hahead ▸ List.mem_append_right _ hmem)

theorem Gains.later {block : List Event} (h : s.Gains block s') (hlog : s.log.Consistent)
    (hlog' : s'.log.Consistent) : s.Later s' := by
  obtain ⟨others, hpassed, hahead, hevents⟩ := h
  have hlater := hpassed.later hlog
  exact ⟨hlater.grown.trans ⟨hlog', ⟨block, hevents.symm⟩⟩, fun hs => by
    unfold Reliable
    rw [hahead]
    exact hlater.reliable hs⟩

end SharedLog

end Chronicle
