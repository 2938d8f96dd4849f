import Chronicle.Proofs.Log.Shared
import Chronicle.Proofs.View.Applying
import Chronicle.View.Background

namespace Chronicle

/-!
# Every way to feed a view manager keeps its invariants

* `ViewManager.Invariant` — a property of managers that the next events of the log keep;
  `ViewManager.invariant_follows` says that to be the fold of the log is one.
* `Feeding.Advances` — the log has grown, and the manager still has a property.
* `Feeding.advances_round`, `Feeding.advances_catchUpFrom` — a round of catching up advances, and so do
  any rounds, whatever other writers commit between the chunks and whichever reads fail.
* `Feeding.advances_deliver` — so does the delivery of committed events, whether they come next, come
  again or come too early.
* `Feeding.Safe` — an action on a registration advances it; `Feeding.safe_notify` and
  `Feeding.safe_catchUp` are the actions that are done to it.
* `Feeding.Keeps` — feeding a manager lets other writers save and changes no mode.
-/

/-! ### Invariants of managers -/

namespace ViewManager

variable {V : Type}

/-- A property of managers, in view of a log, that events keep if they come next in the log. -/
structure Invariant (context : ViewContext) (Q : Log → ViewManager V → Prop) : Prop where
  /-- The position is the one before the first event at least. -/
  lower : ∀ {log m}, Q log m → -1 ≤ m.position
  /-- The log has come to the position. -/
  upper : ∀ {log m}, Q log m → m.position < log.size
  /-- The log may grow. -/
  mono : ∀ {log log' m}, Q log m → log.Extends log' → Q log' m
  /-- The manager may be purged. -/
  purge : ∀ {log m}, Q log m → Q log m.purge
  /-- The manager may be handed the events that come next. -/
  dispatch : ∀ {log : Log} {m : ViewManager V} {n : Nat} {batch : List Event}, log.Consistent →
    Q log m → m.position + 1 = n → log.events.take n ++ batch <+: log.events →
    Q log (m.dispatch context batch).manager

/-- A purged manager follows the log from its beginning. -/
theorem Follows.purge {P : Projection V} {m : ViewManager V} {log : Log} (h : m.Follows P log) :
    m.purge.Follows P log where
  serves := ⟨h.serves.locator, h.serves.initial, h.serves.single, h.serves.handles⟩
  lower := Int.le_refl _
  upper := by
    show (-1 : Int) < log.size
    omega
  views := ⟨Table.empty, rfl, fun _ => rfl⟩

/-- A manager whose views are the fold of the log keeps that up. -/
theorem invariant_follows (P : Projection V) : Invariant P.context (Follows P) where
  lower h := h.lower
  upper h := h.upper
  mono h hext := h.mono hext
  purge h := h.purge
  dispatch hlog h hn hnext := h.dispatch hlog hn hnext

/-- A manager that has not come further than a log may be asked for what comes next: the position behind
its own has not come round. -/
theorem next_position {log : Log} (hlog : log.Consistent) {m : ViewManager V} (hlower : -1 ≤ m.position)
    (hupper : m.position < log.size) :
    Word64.next m.position = ((m.position + 1).toNat : Int) := by
  have hroom := hlog.room
  rw [Word64.next_of_ne (by omega)]
  omega

end ViewManager

/-! ### Chunks -/

/-- A stream that is read to its end holds events only. -/
theorem EventStream.collect_eq_ok {stream : EventStream} {events : List Event}
    (h : stream.collect = .ok events) : stream = events.map .ok := by
  induction stream generalizing events with
  | nil =>
    cases h
    rfl
  | cons item rest ih =>
    cases item with
    | error err => cases h
    | ok e =>
      unfold collect at h
      cases hrest : collect rest with
      | error err =>
        rw [hrest] at h
        cases h
      | ok later =>
        rw [hrest] at h
        cases h
        rw [ih hrest, List.map_cons]

/-- What is read from a stream at once without an error is all that was asked for, even if the stream
breaks off further back. -/
theorem Fault.take_of_read {fault : Option Fault} {events chunk : List Event}
    {stream : EventStream} {count : Nat} (hread : Fault.read fault events = .ok stream)
    (hchunk : EventStream.collect (stream.take count) = .ok chunk) :
    chunk = events.take count := by
  have hinjective : Function.Injective (Except.ok : Event → Except StoreError Event) :=
    fun _ _ h => Except.ok.inj h
  have htaken := EventStream.collect_eq_ok hchunk
  apply hinjective.list_map
  rw [← htaken, List.map_take]
  cases fault with
  | none =>
    cases hread
    rfl
  | some fault =>
    cases fault with
    | refused err => cases hread
    | broken item =>
      cases hread
      -- The error is no event, so it was not reached.
      have hcount : count ≤ (events.take item.place).length := by
        by_contra hlt
        have hmem : (Except.error item.error : Except StoreError Event) ∈ chunk.map Except.ok := by
          rw [← htaken]
          unfold ScriptedStore.breakOff
          rw [List.take_of_length_le (by simp at hlt ⊢; omega)]
          simp
        simp at hmem
      unfold ScriptedStore.breakOff
      rw [List.take_append_of_le_length (by rwa [List.length_map]), List.map_take, List.take_take,
        Nat.min_eq_left]
      rw [List.length_take] at hcount
      omega

namespace Feeding

variable {V : Type} {Q : Log → ViewManager V → Prop} {f f' f'' : Feeding SharedLog V}
  {src : ViewSource SharedLog}

/-! ### Advancing -/

/-- The log has grown, and the manager still has the property. -/
structure Advances (Q : Log → ViewManager V → Prop) (f f' : Feeding SharedLog V) : Prop where
  /-- The log has grown. -/
  grown : f.store.Grown f'.store
  /-- The manager has the property. -/
  holds : Q f'.store.log f'.target.manager

theorem Advances.trans (h : Advances Q f f') (h' : Advances Q f' f'') : Advances Q f f'' :=
  ⟨h.grown.trans h'.grown, h'.holds⟩

/-- The manager has the events applied that come next. -/
theorem advances_dispatch {context : ViewContext} (hQ : ViewManager.Invariant context Q)
    (hlog : f.store.log.Consistent) (h : Q f.store.log f.target.manager) {n : Nat}
    (hn : f.target.manager.position + 1 = n) {events : List Event}
    (hnext : f.store.log.events.take n ++ events <+: f.store.log.events) :
    Advances Q f (f.dispatch context events).2 :=
  ⟨.refl hlog, hQ.dispatch hlog h hn hnext⟩

/-- To read a chunk is to let others save. -/
theorem nextChunk_snd (hstore : src.store = SharedLog.store) (f : Feeding SharedLog V) :
    (f.nextChunk src).2 = { f with store := f.store.turn.2 } := by
  have hread : (src.store.stream (Word64.next f.target.manager.position) f.store).2
      = f.store.turn.2 := by
    rw [hstore]
    rfl
  unfold nextChunk
  rcases hstream : src.store.stream (Word64.next f.target.manager.position) f.store
    with ⟨_ | _, store⟩
  · rw [hstream] at hread
    exact hread ▸ rfl
  · rw [hstream] at hread
    exact hread ▸ rfl

theorem eq_of_nextChunk (hstore : src.store = SharedLog.store)
    {answer : Except StoreError (List Event)} (h : f.nextChunk src = (answer, f')) :
    f' = { f with store := f.store.turn.2 } :=
  (congrArg Prod.snd h).symm.trans (nextChunk_snd hstore f)

/-- A chunk that is read holds the events after the position, as other writers have left them and as
many as it may, even if the read breaks off further back. -/
theorem chunk_eq_take (hstore : src.store = SharedLog.store) {chunk : List Event}
    (h : f.nextChunk src = (.ok chunk, f')) :
    chunk = (f.store.turn.2.log.stream (Word64.next f.target.manager.position)).take
      src.config.maxItemsPerBatch := by
  have hread : src.store.stream (Word64.next f.target.manager.position) f.store
      = (Fault.read f.store.turn.1
          (f.store.turn.2.log.stream (Word64.next f.target.manager.position)), f.store.turn.2) := by
    rw [hstore]
    rfl
  unfold nextChunk at h
  rw [hread] at h
  cases hstream : Fault.read f.store.turn.1
      (f.store.turn.2.log.stream (Word64.next f.target.manager.position)) with
  | error err =>
    rw [hstream] at h
    cases h
  | ok stream =>
    rw [hstream] at h
    exact Fault.take_of_read hstream (congrArg Prod.fst h)

/-- A chunk is what comes next in the log. -/
theorem chunk_next (hstore : src.store = SharedLog.store) {n : Nat}
    (hn : Word64.next f.target.manager.position = n) {chunk : List Event}
    (h : f.nextChunk src = (.ok chunk, f')) :
    f.store.turn.2.log.events.take n ++ chunk <+: f.store.turn.2.log.events := by
  have hprefix : chunk <+: f.store.turn.2.log.events.drop n := by
    rw [chunk_eq_take hstore h, hn]
    exact List.take_prefix _ _
  have hnext := (List.prefix_append_right_inj (f.store.turn.2.log.events.take n)).2 hprefix
  rwa [List.take_append_drop] at hnext

section

variable (hQ : ViewManager.Invariant src.context Q)

include hQ

/-- Other writers have their turn before a chunk is read. -/
theorem advances_nextChunk (hstore : src.store = SharedLog.store) (hlog : f.store.log.Consistent)
    (h : Q f.store.log f.target.manager) {answer : Except StoreError (List Event)}
    (hchunk : f.nextChunk src = (answer, f')) : Advances Q f f' := by
  obtain rfl := eq_of_nextChunk hstore hchunk
  have hgrown := SharedLog.grown_turn hlog
  exact ⟨hgrown, hQ.mono h hgrown.kept⟩

/-- A chunk that is read and dispatched is what comes next. -/
theorem advances_chunk (hstore : src.store = SharedLog.store) (hlog : f.store.log.Consistent)
    (h : Q f.store.log f.target.manager) {chunk : List Event} {answer : Option ViewDispatchError}
    (hchunk : f.nextChunk src = (.ok chunk, f'))
    (hdispatch : f'.dispatch src.context chunk = (answer, f'')) : Advances Q f f'' := by
  have hlower := hQ.lower h
  have hn : f.target.manager.position + 1 = ((f.target.manager.position + 1).toNat : Int) := by
    omega
  have hread := advances_nextChunk hQ hstore hlog h hchunk
  have hnext := chunk_next hstore (ViewManager.next_position hlog hlower (hQ.upper h)) hchunk
  obtain rfl := eq_of_nextChunk hstore hchunk
  have hdone := advances_dispatch hQ hread.grown.log hread.holds hn hnext
  rw [hdispatch] at hdone
  exact hread.trans hdone

/-- A round keeps the property, whatever is committed before its chunk and whatever fails. -/
theorem advances_round (hstore : src.store = SharedLog.store) (hlog : f.store.log.Consistent)
    (h : Q f.store.log f.target.manager) : Advances Q f (f.round src).2 := by
  fun_cases Feeding.round src f with
  | case1 => exact ⟨.refl hlog, h⟩
  | case2 _ err f' hchunk => exact advances_nextChunk hQ hstore hlog h hchunk
  | case3 _ f' hchunk => exact advances_nextChunk hQ hstore hlog h hchunk
  | case4 _ e rest f' hchunk err f'' hdispatch =>
    exact advances_chunk hQ hstore hlog h hchunk hdispatch
  | case5 _ e rest f' hchunk f'' hdispatch => exact advances_chunk hQ hstore hlog h hchunk hdispatch

/-- Catching up keeps the property. -/
theorem advances_catchUpFrom (hstore : src.store = SharedLog.store) (rounds : Nat)
    (hlog : f.store.log.Consistent) (h : Q f.store.log f.target.manager) :
    Advances Q f (f.catchUpFrom src rounds).2 := by
  fun_induction Feeding.catchUpFrom src rounds f with
  | case1 f => exact ⟨.refl hlog, h⟩
  | case2 rounds f answer f' hround =>
    have hdone := advances_round hQ hstore hlog h
    rwa [hround] at hdone
  | case3 rounds f f' hround ih =>
    have hdone := advances_round hQ hstore hlog h
    rw [hround] at hdone
    exact hdone.trans (ih hdone.grown.log hdone.holds)

/-- Delivering events that stand in the log without gaps keeps the property: they are passed over, or
they come next, or the manager catches up. -/
theorem advances_deliver (hstore : src.store = SharedLog.store) (hlog : f.store.log.Consistent)
    (h : Q f.store.log f.target.manager) {events : List Event}
    (hevents : events <:+: f.store.log.events) : Advances Q f (f.deliver src events).2 := by
  have hkept : Advances Q f f := ⟨.refl hlog, h⟩
  obtain ⟨n, hle, hnext⟩ := Log.exists_next hevents
  unfold deliver
  cases events with
  | nil => exact hkept
  | cons e rest =>
    -- The events stand where their first position says, so it decides what they are.
    have hfirst : e.position = .ok (n : Int) := hlog.position_next hle hnext 0 e rfl
    rw [List.head?_cons, List.getLast?_cons]
    simp only [hfirst]
    cases hlast : (rest.getLast?.getD e).position with
    | error err => exact hkept
    | ok last =>
      simp only
      unfold deliverRange
      split
      · exact hkept
      · split
        · rename_i hn
          exact advances_dispatch hQ hlog h hn hnext
        · exact advances_catchUpFrom hQ hstore _ hlog h

end

/-! ### Actions -/

/-- Whatever invariant the manager has that the action is done to, it advances, if the log has what
`log` has. -/
def Safe {β : Type} (context : ViewContext) (log : Log)
    (act : Feeding SharedLog V → β × Feeding SharedLog V) : Prop :=
  ∀ (Q : Log → ViewManager V → Prop) (f : Feeding SharedLog V), ViewManager.Invariant context Q →
    f.store.log.Consistent → log.Extends f.store.log → Q f.store.log f.target.manager →
    Advances Q f (act f).2

theorem safe_catchUp (hstore : src.store = SharedLog.store) (log : Log) :
    Safe (V := V) src.context log (Feeding.catchUp src) :=
  fun _ _ hQ hlog _ h => advances_catchUpFrom hQ hstore _ hlog h

/-- Committed events may be handed over at any time, in any order and any number of times. -/
theorem safe_notify (hstore : src.store = SharedLog.store) {log : Log} {events : List Event}
    (hevents : events <:+: log.events) :
    Safe (V := V) src.context log (ViewDispatcher.notify src events) := by
  intro Q f hQ hlog hext h
  unfold ViewDispatcher.notify
  split
  · exact advances_deliver hQ hstore hlog h (hevents.trans hext.isInfix)
  · exact ⟨.refl hlog, h⟩

/-! ### What feeding does besides -/

/-- Other writers have saved something, and the mode of the registration is the same. -/
structure Keeps (f f' : Feeding SharedLog V) : Prop where
  /-- Nobody but other writers has written. -/
  passed : f.store.Passed f'.store
  /-- The mode is the same. -/
  mode : f'.target.mode = f.target.mode

theorem Keeps.refl (f : Feeding SharedLog V) : Keeps f f := ⟨.refl _, rfl⟩

theorem Keeps.trans (h : Keeps f f') (h' : Keeps f' f'') : Keeps f f'' :=
  ⟨h.passed.trans h'.passed, h'.mode.trans h.mode⟩

theorem keeps_nextChunk (hstore : src.store = SharedLog.store)
    {answer : Except StoreError (List Event)} (h : f.nextChunk src = (answer, f')) : Keeps f f' := by
  obtain rfl := eq_of_nextChunk hstore h
  exact ⟨SharedLog.passed_turn _, rfl⟩

theorem keeps_dispatch {context : ViewContext} {events : List Event}
    {answer : Option ViewDispatchError} (h : f.dispatch context events = (answer, f')) :
    Keeps f f' := by
  obtain rfl : (f.dispatch context events).2 = f' := congrArg Prod.snd h
  exact ⟨.refl _, rfl⟩

theorem keeps_round (hstore : src.store = SharedLog.store) (f : Feeding SharedLog V) :
    Keeps f (f.round src).2 := by
  fun_cases Feeding.round src f with
  | case1 => exact .refl f
  | case2 _ err f' hchunk => exact keeps_nextChunk hstore hchunk
  | case3 _ f' hchunk => exact keeps_nextChunk hstore hchunk
  | case4 _ e rest f' hchunk err f'' hdispatch =>
    exact (keeps_nextChunk hstore hchunk).trans (keeps_dispatch hdispatch)
  | case5 _ e rest f' hchunk f'' hdispatch =>
    exact (keeps_nextChunk hstore hchunk).trans (keeps_dispatch hdispatch)

theorem keeps_catchUpFrom (hstore : src.store = SharedLog.store) (rounds : Nat)
    (f : Feeding SharedLog V) : Keeps f (f.catchUpFrom src rounds).2 := by
  fun_induction Feeding.catchUpFrom src rounds f with
  | case1 f => exact .refl f
  | case2 rounds f answer f' hround => exact congrArg Prod.snd hround ▸ keeps_round hstore f
  | case3 rounds f f' hround ih => exact (congrArg Prod.snd hround ▸ keeps_round hstore f).trans ih

theorem keeps_catchUp (hstore : src.store = SharedLog.store) (f : Feeding SharedLog V) :
    Keeps f (f.catchUp src).2 := keeps_catchUpFrom hstore _ f

theorem keeps_deliver (hstore : src.store = SharedLog.store) (events : List Event)
    (f : Feeding SharedLog V) : Keeps f (f.deliver src events).2 := by
  unfold deliver
  split
  · split
    · exact .refl f
    · exact .refl f
    · unfold deliverRange
      split
      · exact .refl f
      · split
        · exact ⟨.refl _, rfl⟩
        · exact keeps_catchUp hstore f
  · exact .refl f

theorem keeps_notify (hstore : src.store = SharedLog.store) (events : List Event)
    (f : Feeding SharedLog V) : Keeps f (ViewDispatcher.notify src events f).2 := by
  unfold ViewDispatcher.notify
  split
  · exact keeps_deliver hstore events f
  · exact ⟨.refl _, rfl⟩

end Feeding

end Chronicle
