import Chronicle.Proofs.Log.Runs
import Chronicle.Proofs.View.Projection

namespace Chronicle

/-!
# View managers apply events as the fold does

* `ViewManager.Serves` — the manager is set up as a projection says.
* `ViewManager.shown` — a view as a batch that is under way shows it: the copy if it was changed, else
  the view of the manager.
* `ViewManager.Shows` — the copies of a batch, laid over the views of the manager, are certain views.
* `ViewManager.applyAll_spec` — applying consecutive events to copies is folding them.
* `ViewManager.Follows` — the invariant of a manager: its views are the fold of the log up to its
  position.
* `ViewManager.Follows.dispatch` — a batch that comes next in the log keeps the invariant, whether it
  succeeds or fails.
-/

/-! ### The events that come next -/

namespace Log

/-- Events that come next in a log have the next positions. -/
theorem Consistent.position_next {log : Log} (hlog : log.Consistent) {n : Nat} (hn : n ≤ log.size)
    {events : List Event} (hnext : log.events.take n ++ events <+: log.events) (k : Nat) (e : Event)
    (hk : events[k]? = some e) : e.position = .ok ((n + k : Nat) : Int) := by
  obtain ⟨later, hlater⟩ := hnext
  have hlength : (log.events.take n).length = n := List.length_take_of_le hn
  apply hlog.position
  rw [← hlater, List.append_assoc, List.getElem?_append_right (by omega), hlength,
    Nat.add_sub_cancel_left, List.getElem?_append_left (List.getElem?_eq_some_iff.1 hk).1]
  exact hk

/-- Events that stand in a log without gaps come next at some point. -/
theorem exists_next {log : Log} {events : List Event} (h : events <:+: log.events) :
    ∃ n ≤ log.size, log.events.take n ++ events <+: log.events := by
  obtain ⟨earlier, later, hsplit⟩ := h
  refine ⟨earlier.length, ?_, ?_⟩
  · rw [size, ← hsplit, List.append_assoc, List.length_append]
    exact Nat.le_add_right _ _
  · rw [← hsplit, List.append_assoc, List.take_left' rfl, ← List.append_assoc]
    exact List.prefix_append _ _

/-- The log up to the end of events that come next. -/
theorem take_next (log : Log) {n : Nat} (hn : n ≤ log.size) {events : List Event}
    (hnext : log.events.take n ++ events <+: log.events) :
    log.events.take (n + events.length) = log.events.take n ++ events ∧
      n + events.length ≤ log.size := by
  have hlength : (log.events.take n ++ events).length = n + events.length := by
    rw [List.length_append, List.length_take_of_le hn]
  constructor
  · rw [← hlength]
    exact (List.prefix_iff_eq_take.1 hnext).symm
  · rw [← hlength]
    exact hnext.length_le

end Log

namespace ViewManager

variable {V : Type} {P : Projection V} {m : ViewManager V}

/-- The manager is set up as the projection says, and takes the events of a batch one by one. -/
structure Serves (P : Projection V) (m : ViewManager V) : Prop where
  /-- The locator is the one of the projection. -/
  locator : m.locator = P.locator
  /-- The initial state is the one of the projection. -/
  initial : m.initial = P.initial
  /-- Batches are not applied as one event. -/
  single : m.batchMode = false
  /-- The handlers are those of the projection. -/
  handles : P.Handles m.handlers

/-! ### Copies over views -/

/-- A view as a batch that is under way shows it. -/
def shown (m : ViewManager V) (w : Working V) (id : String) : Option (ViewInstance V) :=
  match w.get? id with
  | some t => if t.changed then some t.view else m.view? id
  | none => m.view? id

/-- The copies, laid over the views of the manager, are certain views; copies that are not changed
are copies. -/
structure Shows (m : ViewManager V) (w : Working V) (views : Views V) : Prop where
  /-- The views. -/
  views : ∀ id, views.get? id = m.shown w id
  /-- An unchanged copy is the view it was taken from. -/
  unchanged : ∀ {id : String} {t : Touched V}, w.get? id = some t → t.changed = false →
    t.view = m.viewOrNew id

theorem shows_empty {views : Views V} (h : ∀ id, m.view? id = views.get? id) :
    m.Shows Table.empty views where
  views id := (h id).symm
  unchanged h := by cases h

/-- The copy that an event is applied to is the view that the fold applies it to. -/
theorem Shows.touch_view {w : Working V} {views : Views V} (h : m.Shows w views)
    (hm : m.Serves P) (id : String) :
    (m.touch w id).view = P.viewOrNew views id := by
  have hviews := h.views id
  unfold shown at hviews
  unfold touch Projection.viewOrNew
  cases hget : w.get? id with
  | none =>
    rw [hget] at hviews
    rw [hviews]
    simp only [Option.getD_none, viewOrNew, hm.initial]
  | some t =>
    rw [hget] at hviews
    simp only at hviews
    rw [hviews, Option.getD_some]
    cases hchanged : t.changed with
    | true => rfl
    | false =>
      rw [h.unchanged hget hchanged, viewOrNew, hm.initial]
      rfl

/-- A copy that is only taken changes nothing. -/
theorem Shows.touch {w : Working V} {views : Views V} (h : m.Shows w views) (id : String) :
    m.Shows (w.insert id (m.touch w id)) views where
  views := by
    intro id'
    rw [h.views id']
    unfold shown
    rw [Table.get?_insert]
    by_cases hid : id' = id
    · rw [if_pos hid, hid]
      unfold ViewManager.touch
      cases hget : w.get? id <;> rfl
    · rw [if_neg hid]
  unchanged := by
    intro id' t hget hchanged
    rw [Table.get?_insert] at hget
    split at hget
    · rename_i hid
      cases hget
      unfold ViewManager.touch at hchanged ⊢
      cases hget' : w.get? id with
      | none => rw [hid]; rfl
      | some t =>
        rw [hget'] at hchanged
        rw [hid]
        exact h.unchanged hget' hchanged
    · exact h.unchanged hget hchanged

/-- A copy that is changed changes its view. -/
theorem Shows.change {w : Working V} {views : Views V} (h : m.Shows w views) (id : String)
    (view : ViewInstance V) : m.Shows (w.insert id ⟨view, true⟩) (views.insert id view) where
  views := by
    intro id'
    unfold shown
    rw [Table.get?_insert, Table.get?_insert]
    by_cases hid : id' = id
    · rw [if_pos hid, if_pos hid]
      rfl
    · rw [if_neg hid, if_neg hid]
      exact h.views id'
  unchanged := by
    intro id' t hget hchanged
    rw [Table.get?_insert] at hget
    split at hget
    · cases hget
      cases hchanged
    · exact h.unchanged hget hchanged

/-! ### Applying one event -/

/-- The views that an event affects and that have not seen it, each once. -/
def pending (P : Projection V) (position : Int) (views : Views V) (ids : List String) :
    List String :=
  (ids.filter fun id => decide ((P.viewOrNew views id).last < position)).eraseDups

/-- Passing over the views that have seen the event is applying it to every view once. -/
theorem applyTo_spec (hm : m.Serves P) {handle : ViewHandler V} {e : Event}
    {position : Int} {w w' : Working V} {views : Views V} {ids : List String} {isNew isNew' : Bool}
    (h : m.Shows w views) (happly : m.applyTo handle e position w isNew ids = .ok (w', isNew')) :
    ∃ views',
      (pending P position views ids).foldlM (P.update handle e position) views = .ok views' ∧
      m.Shows w' views' := by
  induction ids generalizing w views isNew with
  | nil =>
    cases happly
    exact ⟨views, rfl, h⟩
  | cons id rest ih =>
    have htouch := h.touch_view hm id
    unfold applyTo at happly
    simp only [htouch] at happly
    split at happly
    · rename_i hseen
      have hnot : ¬ (P.viewOrNew views id).last < position := by omega
      have hpending : pending P position views (id :: rest) = pending P position views rest := by
        unfold pending
        rw [List.filter_cons_of_neg (by simpa using hnot)]
      rw [hpending]
      exact ih (h.touch id) happly
    · rename_i hunseen
      split at happly
      · cases happly
      · rename_i state hstate
        have hlt : (P.viewOrNew views id).last < position := by omega
        -- The view has seen the event now, so the rest of the list passes over it.
        have hpending : pending P position views (id :: rest)
            = id :: pending P position
                (views.insert id { P.viewOrNew views id with last := position, state }) rest := by
          unfold pending
          rw [List.filter_cons_of_pos (by simpa using hlt), List.eraseDups_cons, List.filter_filter]
          congr 2
          refine List.filter_congr fun id' _ => ?_
          unfold Projection.viewOrNew
          rw [Table.get?_insert]
          by_cases hid : id' = id
          · simp [hid]
          · simp [hid]
        obtain ⟨views', hfold, hshows⟩ := ih (h.change id _) happly
        refine ⟨views', ?_, hshows⟩
        rw [hpending, List.foldlM_cons]
        have hupdate : P.update handle e position views id
            = .ok (views.insert id { P.viewOrNew views id with last := position, state }) := by
          unfold Projection.update
          rw [hstate]
          rfl
        rw [hupdate]
        exact hfold

/-- An event that comes after all that the views have seen is applied as the fold does. -/
theorem applyEvent_spec (hm : m.Serves P) {handle : ViewHandler V} {e : Event} {position : Int}
    {w w' : Working V} {views : Views V} {isNew : Bool} (h : m.Shows w views)
    (hbefore : Projection.Before position views) (hnonneg : 0 ≤ position)
    (hposition : e.position = .ok position) (hhandle : P.handler? e.tag = some handle)
    (happly : m.applyEvent P.context handle w e = .ok (w', isNew)) :
    ∃ views', P.apply position views e = .ok views' ∧ m.Shows w' views' := by
  unfold applyEvent at happly
  rw [hposition, hm.locator] at happly
  unfold Projection.apply
  rw [hhandle]
  cases hids : P.locator P.context e with
  | error err =>
    rw [hids] at happly
    cases happly
  | ok ids =>
    rw [hids] at happly
    obtain ⟨views', hfold, hshows⟩ := applyTo_spec hm h happly
    -- No view has seen the event, so none is passed over.
    have hall : pending P position views ids = ids.eraseDups := by
      unfold pending
      rw [List.filter_eq_self.2]
      intro id _
      exact decide_eq_true (hbefore.viewOrNew_last_lt hnonneg id)
    rw [hall] at hfold
    exact ⟨views', hfold, hshows⟩

/-! ### Applying a batch -/

/-- Applying consecutive events to copies is folding them, up to the first error. -/
theorem applyAll_spec (hm : m.Serves P) {events : List Event} {position : Nat} {views : Views V}
    (hposition : ∀ (k : Nat) (e : Event), events[k]? = some e →
      e.position = .ok ((position + k : Nat) : Int))
    {p : Progress V} (hhandles : P.Handles p.handlers) (h : m.Shows p.working views)
    (hbefore : Projection.Before position views) :
    P.Handles (m.applyAll P.context p events).1.handlers ∧
      ((m.applyAll P.context p events).2 = none →
        ∃ views', P.foldFrom position views events = .ok views' ∧
          m.Shows (m.applyAll P.context p events).1.working views') := by
  induction events generalizing p position views with
  | nil => exact ⟨hhandles, fun _ => ⟨views, rfl, h⟩⟩
  | cons e rest ih =>
    have hfirst : e.position = .ok (position : Int) := hposition 0 e rfl
    have hrest : ∀ (k : Nat) (e' : Event), rest[k]? = some e' →
        e'.position = .ok ((position + 1 + k : Nat) : Int) := by
      intro k e' hk
      rw [hposition (k + 1) e' hk]
      congr 2
      omega
    have hasked := hhandles.asked e.tag
    have hanswer := hhandles.handler?_eq e.tag
    unfold DispatchTable.asked at hasked
    unfold DispatchTable.handler? at hanswer
    unfold applyAll
    rcases hresolve : p.handlers.resolve e.tag with ⟨_ | handle, handlers⟩
    · -- Nobody subscribes to the tag, and the fold skips the event too.
      rw [hresolve] at hasked hanswer
      have hskip : P.apply position views e = .ok views := by
        unfold Projection.apply
        rw [← hanswer]
      have hnext : Projection.Before ((position + 1 : Nat) : Int) views := by
        push_cast
        exact hbefore.apply hskip
      obtain ⟨hlater, hfold⟩ := ih hrest (p := { p with handlers }) hasked h hnext
      refine ⟨hlater, fun hnone => ?_⟩
      obtain ⟨views', hviews, hshows⟩ := hfold hnone
      exact ⟨views', Projection.foldFrom_cons_eq_ok.2 ⟨views, hskip, hviews⟩, hshows⟩
    · rw [hresolve] at hasked hanswer
      simp only
      cases happly : m.applyEvent P.context handle p.working e with
      | error err =>
        refine ⟨hasked, fun hnone => ?_⟩
        cases hnone
      | ok result =>
        obtain ⟨working, isNew⟩ := result
        obtain ⟨views₁, hviews, hshows⟩ := applyEvent_spec hm h hbefore (by omega) hfirst
          hanswer.symm happly
        have hnext : Projection.Before ((position + 1 : Nat) : Int) views₁ := by
          push_cast
          exact hbefore.apply hviews
        obtain ⟨hlater, hfold⟩ := ih hrest
          (p := ⟨handlers, working, if isNew then p.applied ++ [e] else p.applied⟩) hasked hshows
          hnext
        refine ⟨hlater, fun hnone => ?_⟩
        obtain ⟨views', hviews', hshows'⟩ := hfold hnone
        exact ⟨views', Projection.foldFrom_cons_eq_ok.2 ⟨views₁, hviews, hviews'⟩, hshows'⟩

/-! ### Taking over the copies -/

/-- The value of a key after entries with different keys have been inserted. -/
theorem get?_insertAll {κ α : Type} [DecidableEq κ] (t : Table κ α) (l : List (κ × α))
    (hl : (l.map Prod.fst).Nodup) (k : κ) :
    (t.insertAll l).get? k = (Table.find k l).or (t.get? k) := by
  unfold Table.insertAll
  induction l generalizing t with
  | nil => rfl
  | cons e rest ih =>
    rw [List.map_cons, List.nodup_cons] at hl
    rw [List.foldl_cons, ih _ hl.2, Table.get?_insert, Table.find]
    by_cases hk : e.1 = k
    · have hnone : Table.find k rest = none := (Table.find_eq_none_iff k rest).2 (hk ▸ hl.1)
      rw [if_pos hk, if_pos hk.symm, hnone]
      rfl
    · rw [if_neg hk, if_neg fun h => hk h.symm]

/-- The changed copies have different ids. -/
theorem nodup_changes (w : Working V) : ((changes w).map Prod.fst).Nodup := by
  have hkeys : (changes w).map Prod.fst = (w.entries.filter fun e => e.2.changed).map Prod.fst := by
    unfold changes
    rw [List.map_map]
    rfl
  rw [hkeys]
  exact w.nodup_keys.sublist (List.filter_sublist.map _)

/-- After a batch, the views are what the batch has shown. -/
theorem view?_completed (m : ViewManager V) (p : Progress V) (last : Int) (id : String) :
    (m.completed p last).manager.view? id = m.shown p.working id := by
  -- What is taken over are the copies that were changed.
  have hchanged : ∀ view, Table.find id (changes p.working) = some view ↔
      ∃ t, p.working.get? id = some t ∧ t.changed = true ∧ t.view = view := by
    intro view
    rw [Table.find_eq_some_iff (nodup_changes p.working)]
    unfold changes
    simp [Table.get?_eq_some_iff, and_assoc]
  show (m.views.insertAll (changes p.working)).get? id = _
  rw [get?_insertAll _ _ (nodup_changes p.working)]
  unfold shown
  cases hfind : Table.find id (changes p.working) with
  | some view =>
    obtain ⟨t, hget, hchanged, rfl⟩ := (hchanged view).1 hfind
    rw [hget]
    simp [hchanged]
  | none =>
    cases hget : p.working.get? id with
    | none => rfl
    | some t =>
      cases ht : t.changed with
      | false => simp [ht, view?]
      | true =>
        have hsome := (hchanged t.view).2 ⟨t, hget, ht, rfl⟩
        rw [hfind] at hsome
        cases hsome

/-! ### Following a log -/

/-- The views of the manager are the fold of the log up to the position of the manager. -/
structure Follows (P : Projection V) (log : Log) (m : ViewManager V) : Prop where
  /-- The manager is set up as the projection says. -/
  serves : m.Serves P
  /-- The position is the one before the first event at least. -/
  lower : -1 ≤ m.position
  /-- The log has come to the position. -/
  upper : m.position < log.size
  /-- The views are those that the events up to the position make. -/
  views : ∃ views, P.fold (log.events.take (m.position + 1).toNat) = .ok views ∧
    ∀ id, m.view? id = views.get? id

variable {log log' : Log}

/-- Later commits do not matter. -/
theorem Follows.mono (h : m.Follows P log) (hext : log.Extends log') : m.Follows P log' := by
  obtain ⟨later, hlater⟩ := hext
  have hle : (m.position + 1).toNat ≤ log.events.length := by
    have := h.upper
    unfold Log.size at this
    omega
  refine ⟨h.serves, h.lower, ?_, ?_⟩
  · have := h.upper
    unfold Log.size at this ⊢
    rw [← hlater, List.length_append]
    omega
  · rw [← hlater, List.take_append_of_le_length hle]
    exact h.views

/-- An error leaves the views as they were. -/
theorem Follows.failed (h : m.Follows P log) {p : Progress V} (hhandles : P.Handles p.handlers)
    (err : ViewDispatchError) : (m.failed p err).manager.Follows P log :=
  ⟨⟨h.serves.locator, h.serves.initial, h.serves.single, hhandles⟩, h.lower, h.upper, h.views⟩

/-- A batch that was applied moves the manager on to the end of the batch. -/
theorem Follows.completed (h : m.Follows P log) {n : Nat} (hn : m.position + 1 = n)
    {batch : List Event} (hnext : log.events.take n ++ batch <+: log.events)
    (hnonempty : batch ≠ []) {p : Progress V} (hhandles : P.Handles p.handlers) {views : Views V}
    (hfold : P.fold (log.events.take n ++ batch) = .ok views) (hshows : m.Shows p.working views) :
    (m.completed p ((n + (batch.length - 1) : Nat) : Int)).manager.Follows P log := by
  have hupper := h.upper
  have hlength : 0 < batch.length := List.length_pos_iff.2 hnonempty
  obtain ⟨htake, hsize⟩ := log.take_next (by omega) hnext
  have hposition : max m.position ((n + (batch.length - 1) : Nat) : Int) + 1
      = ((n + batch.length : Nat) : Int) := by
    omega
  refine ⟨⟨h.serves.locator, h.serves.initial, h.serves.single, hhandles⟩, ?_, ?_, views, ?_, ?_⟩
  · show -1 ≤ max m.position _
    omega
  · show max m.position _ < (log.size : Int)
    omega
  · show P.fold (log.events.take (max m.position _ + 1).toNat) = _
    rw [hposition, Int.toNat_natCast, htake]
    exact hfold
  · intro id
    rw [view?_completed, hshows.views]

/-- A batch that comes next in the log is applied as the fold does, or nothing of it is. -/
theorem Follows.dispatch (hlog : log.Consistent) (h : m.Follows P log) {n : Nat}
    (hn : m.position + 1 = n) {batch : List Event}
    (hnext : log.events.take n ++ batch <+: log.events) :
    (ViewManager.dispatch P.context batch m).manager.Follows P log := by
  obtain ⟨views, hfold, hviews⟩ := h.views
  rw [hn, Int.toNat_natCast] at hfold
  have hsize : n ≤ log.size := by
    have := h.upper
    omega
  have hposition := hlog.position_next hsize hnext
  have hlength : (log.events.take n).length = n := List.length_take_of_le hsize
  have hbefore : Projection.Before (n : Int) views := hlength ▸ Projection.before_of_fold hfold
  obtain ⟨hhandles, happlied⟩ := applyAll_spec h.serves hposition (p := { handlers := m.handlers })
    h.serves.handles (shows_empty hviews) hbefore
  unfold ViewManager.dispatch
  split
  · exact h
  · cases hlast : batch.getLast? with
    | none => exact h
    | some last =>
      -- The position that the batch claims to reach is the place of its last event.
      have hlastposition : last.position = .ok ((n + (batch.length - 1) : Nat) : Int) := by
        apply hposition
        rw [← List.getLast?_eq_getElem?]
        exact hlast
      have hpresented : m.presented batch = batch := by
        unfold presented
        rw [h.serves.single]
        rfl
      simp only [hlastposition, hpresented]
      split
      · rename_i p err hall
        rw [hall] at hhandles
        exact h.failed hhandles err
      · rename_i p hall
        rw [hall] at hhandles happlied
        obtain ⟨views', hfold', hshows⟩ := happlied rfl
        have hnonempty : batch ≠ [] := List.ne_nil_of_mem (List.mem_of_getLast? hlast)
        refine h.completed hn hnext hnonempty hhandles ?_ hshows
        unfold Projection.fold at hfold ⊢
        rw [Projection.foldFrom_append hfold, hlength, Nat.zero_add]
        exact hfold'

end ViewManager

end Chronicle
