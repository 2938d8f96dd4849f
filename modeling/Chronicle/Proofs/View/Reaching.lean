import Chronicle.Proofs.View.CatchingUp

namespace Chronicle

/-!
# How far view managers get

* `ViewManager.Placed` — the position of a manager is in the log; feeding it keeps that.
* `ViewManager.Reaches` — the manager has come to a position, or it is stopped.
* `Feeding.catchUp_reaches` — catching up reaches every position that was in the log, whatever the size
  of the chunks.
* `Feeding.deliver_reaches`, `Feeding.notify_reaches` — so does the delivery of committed events,
  however far the manager has come before.
-/

/-! ### Positions -/

namespace ViewManager

variable {V : Type} {m : ViewManager V}

/-- The position of the manager is in the log. -/
structure Placed (log : Log) (m : ViewManager V) : Prop where
  /-- The position is the one before the first event at least. -/
  lower : -1 ≤ m.position
  /-- The log has come to the position. -/
  upper : m.position < log.size

/-- The manager has come to a position, unless it is stopped. -/
def Reaches (p : Int) (m : ViewManager V) : Prop := m.stopped = true ∨ p ≤ m.position

theorem Placed.mono {log log' : Log} (h : m.Placed log) (hsize : log.size ≤ log'.size) :
    m.Placed log' := by
  have := h.upper
  exact ⟨h.lower, by omega⟩

theorem Placed.purge {log : Log} (_ : m.Placed log) : m.purge.Placed log :=
  ⟨Int.le_refl _, by rw [position_purge]; omega⟩

theorem Placed.of_position {log : Log} {m' : ViewManager V} (h : m.Placed log)
    (hposition : m'.position = m.position) : m'.Placed log :=
  ⟨by rw [hposition]; exact h.lower, by rw [hposition]; exact h.upper⟩

/-- Events that come next in the log keep the position in the log. -/
theorem invariant_placed (context : ViewContext) :
    Invariant context (Placed : Log → ViewManager V → Prop) where
  lower h := h.lower
  upper h := h.upper
  mono h hext := h.mono hext.length_le
  purge h := h.purge
  dispatch {log m n batch} hlog h hn hnext := by
    have hupper := h.upper
    have hlower := h.lower
    cases herror : (m.dispatch context batch).error with
    | some err => exact h.of_position (dispatch_of_error herror).2.1
    | none =>
      cases hlast : batch.getLast? with
      | none =>
        rw [List.getLast?_eq_none_iff.1 hlast]
        unfold dispatch
        split <;> exact h
      | some last =>
        -- The last event stands in the log where the events end.
        have hnonempty : 0 < batch.length :=
          List.length_pos_of_mem (List.mem_of_getLast? hlast)
        have hplace := hlog.position_next (by omega) hnext (batch.length - 1) last
          (by rw [← List.getLast?_eq_getElem?, hlast])
        have hsize := (log.take_next (by omega) hnext).2
        have hmoved := position_dispatch hlast hplace herror
        exact ⟨by rw [hmoved]; omega, by rw [hmoved]; omega⟩

end ViewManager

namespace Feeding

variable {V : Type} {f : Feeding SharedLog V} {src : ViewSource SharedLog}

/-! ### Catching up -/

/-- Catching up leaves the position in the log, and reaches every position that was in the log. -/
theorem catchUp_reaches (hstore : src.store = SharedLog.store)
    (hchunk : 0 < src.config.maxItemsPerBatch) (hlog : f.store.log.Consistent)
    (hreliable : f.store.Reliable) (hplaced : f.target.manager.Placed f.store.log) :
    (f.catchUp src).2.target.manager.Placed (f.catchUp src).2.store.log ∧
      ∀ p : Int, p < f.store.log.size → (f.catchUp src).2.target.manager.Reaches p := by
  have hplaced' : (f.catchUp src).2.target.manager.Placed (f.catchUp src).2.store.log :=
    (advances_catchUpFrom (ViewManager.invariant_placed _) hstore _ hlog hplaced).holds
  refine ⟨hplaced', fun p hp => ?_⟩
  rcases catchUp_stops_or_ends hstore hchunk hlog hreliable with hstopped | hend
  · exact .inl hstopped
  · refine .inr ?_
    have hlower := hplaced'.lower
    by_cases hbefore : p < 0
    · omega
    · have hreached := hend p.toNat (by omega)
      omega

/-- Delivering events that stand in the log without gaps leaves the position in the log, and reaches
the last of them: they have been seen, or they come next, or the manager catches up. -/
theorem deliver_reaches (hstore : src.store = SharedLog.store)
    (hchunk : 0 < src.config.maxItemsPerBatch) (hlog : f.store.log.Consistent)
    (hreliable : f.store.Reliable) (hplaced : f.target.manager.Placed f.store.log)
    {events : List Event} (hevents : events <:+: f.store.log.events) :
    (f.deliver src events).2.target.manager.Placed (f.deliver src events).2.store.log ∧
      ∀ p, Processor.lastPosition events = some p →
        (f.deliver src events).2.target.manager.Reaches p := by
  refine ⟨(advances_deliver (ViewManager.invariant_placed _) hstore hlog hplaced hevents).holds, ?_⟩
  obtain ⟨n, hle, hnext⟩ := Log.exists_next hevents
  cases events with
  | nil => exact nofun
  | cons e rest =>
    have hfirst : e.position = .ok (n : Int) := hlog.position_next hle hnext 0 e rfl
    obtain ⟨last, hlast⟩ :=
      Option.isSome_iff_exists.1 (List.getLast?_isSome.2 (List.cons_ne_nil e rest))
    have hposition : last.position = .ok ((n + rest.length : Nat) : Int) :=
      hlog.position_next hle hnext rest.length last (by rw [← hlast, List.getLast?_eq_getElem?]; rfl)
    have hlt : ((n + rest.length : Nat) : Int) < f.store.log.size := by
      have hsize := (f.store.log.take_next hle hnext).2
      rw [List.length_cons] at hsize
      omega
    have hlastPosition : Processor.lastPosition (e :: rest) = some ((n + rest.length : Nat) : Int) := by
      rw [Processor.lastPosition, hlast, Option.bind_some, hposition]
      rfl
    rw [hlastPosition, deliver, List.head?_cons, hlast]
    simp only [hfirst, hposition, Option.some.injEq, forall_eq']
    unfold deliverRange
    split
    · rename_i hseen
      exact .inr hseen
    · split
      · show (f.target.manager.dispatch src.context (e :: rest)).manager.Reaches _
        cases herror : (f.target.manager.dispatch src.context (e :: rest)).error with
        | some err => exact .inl (ViewManager.dispatch_of_error herror).2.2.2.1
        | none =>
          refine .inr ?_
          rw [ViewManager.position_dispatch hlast hposition herror]
          exact Int.le_max_right _ _
      · exact (catchUp_reaches hstore hchunk hlog hreliable hplaced).2 _ hlt

/-- Committed events bring a registration that is immediate to the last of them, and none out of the
log. -/
theorem notify_reaches (hstore : src.store = SharedLog.store)
    (hchunk : 0 < src.config.maxItemsPerBatch) (hlog : f.store.log.Consistent)
    (hreliable : f.store.Reliable) (hplaced : f.target.manager.Placed f.store.log)
    {events : List Event} (hevents : events <:+: f.store.log.events) :
    (ViewDispatcher.notify src events f).2.target.manager.Placed
        (ViewDispatcher.notify src events f).2.store.log ∧
      ∀ p, Processor.lastPosition events = some p → f.target.mode = .immediate →
        (ViewDispatcher.notify src events f).2.target.manager.Reaches p := by
  unfold ViewDispatcher.notify
  split
  · obtain ⟨hplaced', hreaches⟩ := deliver_reaches hstore hchunk hlog hreliable hplaced hevents
    exact ⟨hplaced', fun p hp _ => hreaches p hp⟩
  · rename_i heventual
    refine ⟨hplaced, fun p _ himmediate => ?_⟩
    rw [heventual] at himmediate
    cases himmediate

end Feeding

end Chronicle
