import Chronicle.Proofs.View.CatchingUp
import Chronicle.Proofs.View.Noting
import Chronicle.Sample.Tally
import Mathlib.Order.Bounds.Basic

namespace Chronicle

/-!
# Batches that come again

* `Event.Ascending` — events that stand in the order of their positions.
* `Event.Deliveries` — parts of a list of events that are handed over one after the other. A part may
  begin with events that were handed over before.
* `ViewManager.Level` — a manager stands at the greatest position that it has come to.
* `ViewManager.HasSeen.deliveries` — without batch mode, what comes of such parts is what comes of the
  whole list.
* `ViewManager.redelivery_changes_nothing` — the views and the position are the same, and every handler
  is given every event once.
-/

/-! ### Events that ascend -/

namespace Event

/-- The events have positions, and these ascend. -/
structure Ascending (events : List Event) : Prop where
  /-- Every event has a position. -/
  placed : ∀ e ∈ events, ∃ p : Int, 0 ≤ p ∧ e.position = .ok p
  /-- Each event stands before those that follow it. -/
  ordered : events.Pairwise fun e e' => ∀ p p' : Int, e.position = .ok p → e'.position = .ok p' →
    p < p'

namespace Ascending

variable {events : List Event}

theorem sublist (h : Ascending events) {part : List Event} (hpart : part.Sublist events) :
    Ascending part :=
  ⟨fun e he => h.placed e (hpart.subset he), h.ordered.sublist hpart⟩

/-- Events that ascend may be followed by others that stand behind them. -/
theorem append (h : Ascending events) {later : List Event} (hlater : Ascending later)
    (hbehind : ∀ e ∈ events, ∀ e' ∈ later, ∀ p p' : Int, e.position = .ok p → e'.position = .ok p' →
      p < p') : Ascending (events ++ later) where
  placed e he := (List.mem_append.1 he).elim (h.placed e) (hlater.placed e)
  ordered := List.pairwise_append.2 ⟨h.ordered, hlater.ordered, hbehind⟩

/-- No event stands behind the last one. -/
theorem le_last (h : Ascending events) {last e : Event} {p p' : Int}
    (hlast : events.getLast? = some last) (hp : last.position = .ok p) (he : e ∈ events)
    (hp' : e.position = .ok p') : p' ≤ p := by
  obtain ⟨front, rfl⟩ := List.getLast?_eq_some_iff.1 hlast
  obtain hfront | hsame := List.mem_append.1 he
  · have hlt := (List.pairwise_append.1 h.ordered).2.2 e hfront last List.mem_cons_self p' p hp' hp
    omega
  · obtain rfl := List.mem_singleton.1 hsame
    cases hp.symm.trans hp'
    exact Int.le_refl p

end Ascending

/-- Parts of a list of events are handed over one after the other. Each begins at or before the first
event that was not handed over yet, so that parts may overlap, come again or hold nothing new, and in
the end all events have been handed over. -/
inductive Deliveries (events : List Event) : Nat → List (List Event) → Prop where
  /-- All events have been handed over. -/
  | done : Deliveries events events.length []
  /-- A part is handed over, and then others. -/
  | part {seen : Nat} {later : List (List Event)} (first count : Nat) : first ≤ seen →
    first + count ≤ events.length → Deliveries events (max seen (first + count)) later →
    Deliveries events seen ((events.drop first).take count :: later)

/-- A part consists of events that were handed over before and of those that come next. -/
theorem split_part (events : List Event) {first seen : Nat} (hfirst : first ≤ seen) (count : Nat) :
    ∃ old new, (events.drop first).take count = old ++ new ∧ old ⊆ events.take seen ∧
      events.take seen ++ new = events.take (max seen (first + count)) := by
  refine ⟨((events.drop first).take count).take (seen - first),
    ((events.drop first).take count).drop (seen - first), (List.take_append_drop _ _).symm,
    fun e he => ?_, ?_⟩
  · have hsame : (events.drop first).take (seen - first) = (events.take seen).drop first :=
      List.drop_take.symm
    rw [List.take_take, Nat.min_comm, ← List.take_take, hsame] at he
    exact List.mem_of_mem_drop (List.mem_of_mem_take he)
  · rw [List.drop_take, List.drop_drop, Nat.add_sub_cancel' hfirst, ← List.take_add]
    congr 1
    omega

end Event

/-- The events of a log ascend. -/
theorem Log.Consistent.ascending {log : Log} (h : log.Consistent) : Event.Ascending log.events where
  placed e he := by
    obtain ⟨i, hi⟩ := List.getElem?_of_mem he
    exact ⟨i, Int.natCast_nonneg i, h.position hi⟩
  ordered := by
    rw [List.pairwise_iff_getElem]
    intro i j hi hj hlt p p' hp hp'
    rw [h.position (List.getElem?_eq_getElem hi), Except.ok.injEq] at hp
    rw [h.position (List.getElem?_eq_getElem hj), Except.ok.injEq] at hp'
    omega

namespace ViewManager

variable {V : Type} {m m₀ : ViewManager V} {context : ViewContext}

/-! ### Where a manager stands -/

/-- A manager stands at the greatest of the position where another one stands and of those of events. -/
def Level (m₀ : ViewManager V) (events : List Event) (m : ViewManager V) : Prop :=
  IsGreatest {p | p = m₀.position ∨ ∃ e ∈ events, e.position = .ok p} m.position

namespace Level

variable {events events' batch : List Event}

theorem refl (m : ViewManager V) : m.Level [] m := by
  simp [Level, IsGreatest, upperBounds]

theorem congr (h : m₀.Level events m) (hevents : ∀ e, e ∈ events ↔ e ∈ events') :
    m₀.Level events' m := by
  simpa only [Level, hevents] using h

/-- A batch that ascends moves the manager to its end, unless the manager is there already. -/
theorem dispatch (h : m₀.Level events m) (hbatch : Event.Ascending batch)
    (hdone : (m.dispatch context batch).error = none) :
    m₀.Level (events ++ batch) (m.dispatch context batch).manager := by
  cases hlast : batch.getLast? with
  | none =>
    obtain rfl := List.getLast?_eq_none_iff.1 hlast
    rwa [List.append_nil, manager_dispatch_nil]
  | some last =>
    have hmem : last ∈ batch := List.mem_of_getLast? hlast
    obtain ⟨p, -, hp⟩ := hbatch.placed last hmem
    unfold Level
    rw [position_dispatch hlast hp hdone]
    obtain ⟨hin, hle⟩ := h
    constructor
    · obtain hmax | hmax := Int.le_total m.position p
      · rw [Int.max_eq_right hmax]
        exact .inr ⟨last, List.mem_append_right events hmem, hp⟩
      · rw [Int.max_eq_left hmax]
        exact hin.imp_right fun ⟨e, he, hposition⟩ => ⟨e, List.mem_append_left batch he, hposition⟩
    · rintro p' (hbefore | ⟨e, he, hp'⟩)
      · exact Int.le_trans (hle (.inl hbefore)) (Int.le_max_left _ _)
      · obtain he | he := List.mem_append.1 he
        · exact Int.le_trans (hle (.inr ⟨e, he, hp'⟩)) (Int.le_max_left _ _)
        · exact Int.le_trans (hbatch.le_last hlast hp he hp') (Int.le_max_right _ _)

end Level

/-! ### What handlers are given of parts -/

/-- To what has been given of the events that were applied before, a batch adds what is new in it. -/
theorem HasSeen.given_runs {events : List Event} (h : m₀.HasSeen context events m)
    {batch old new : List Event} (hne : batch ≠ []) (hpresented : m.presented batch = old ++ new)
    (hold : old ⊆ events) (hdone : (m.dispatch context batch).error = none) (id : String) :
    m₀.newTo context id (m₀.viewOrNew id).last events ++ given id (m.runs context batch)
      = m₀.newTo context id (m₀.viewOrNew id).last (events ++ new) := by
  rw [ViewManager.given_runs hdone, if_neg hne, h.news_eq hpresented hold,
    ViewManager.newTo_append (h.viewOrNew id)]

/-- Without batch mode, the batch itself is what handlers see of it. -/
theorem HasSeen.given_dispatch {events : List Event} (h : m₀.HasSeen context events m)
    (hsingle : m₀.batchMode = false) {old new : List Event} (hold : old ⊆ events)
    (hdone : (m.dispatch context (old ++ new)).error = none) (id : String) :
    m₀.newTo context id (m₀.viewOrNew id).last events ++ given id (m.runs context (old ++ new))
      = m₀.newTo context id (m₀.viewOrNew id).last (events ++ new) := by
  by_cases hne : old ++ new = []
  · obtain ⟨rfl, rfl⟩ := List.append_eq_nil_iff.1 hne
    rw [ViewManager.given_runs hdone]
    simp
  · exact h.given_runs hne (presented_of_single (h.setUp.batchMode.trans hsingle) _) hold hdone id

/-- Of events that ascend, all that affect a view are new to it if it has seen none of them. -/
theorem newTo_eq_filter {events : List Event} (hevents : Event.Ascending events) {id : String}
    {last : Int} (hlast : ∀ e ∈ events, ∀ p, e.position = .ok p → last < p) :
    m.newTo context id last events
      = events.filter fun e => decide (id ∈ m.affected context e) := by
  induction events generalizing last with
  | nil => rfl
  | cons e rest ih =>
    obtain ⟨p, -, hp⟩ := hevents.placed e List.mem_cons_self
    have hrest : Event.Ascending rest := hevents.sublist (List.sublist_cons_self e rest)
    obtain ⟨position, hposition, hid, -, hnew⟩ | ⟨hseen, hpass⟩ :=
      m.newTo_cons_cases context id last e
    · rw [hnew, List.filter_cons_of_pos (by simpa using hid), ih hrest fun e' he' p' hp' =>
        (List.pairwise_cons.1 hevents.ordered).1 e' he' position p' hposition hp']
    · have hnot : id ∉ m.affected context e := fun hid =>
        absurd (hseen p hp hid) (Int.not_le.2 (hlast e List.mem_cons_self p hp))
      rw [hpass, List.filter_cons_of_neg (by simpa using hnot),
        ih hrest fun e' he' => hlast e' (List.mem_cons_of_mem e he')]

/-- Without batch mode, what comes of parts that are handed over is what comes of all their events. -/
theorem HasSeen.deliveries {events : List Event} {seen : Nat} {calls : List (List Event)}
    (hcalls : Event.Deliveries events seen calls) (hevents : Event.Ascending events)
    (hsingle : m₀.batchMode = false) (h : m₀.HasSeen context (events.take seen) m)
    (hlevel : m₀.Level (events.take seen) m)
    (hdone : (ViewManager.dispatchAll context calls m).1 = none) :
    m₀.HasSeen context events (ViewManager.dispatchAll context calls m).2 ∧
      m₀.Level events (ViewManager.dispatchAll context calls m).2 ∧
      ∀ id, m₀.newTo context id (m₀.viewOrNew id).last (events.take seen)
          ++ given id (m.runsAll context calls)
        = m₀.newTo context id (m₀.viewOrNew id).last events := by
  induction hcalls generalizing m with
  | done =>
    rw [List.take_length] at h hlevel ⊢
    exact ⟨h, hlevel, fun id => List.append_nil _⟩
  | @part seen later first count hfirst hstop _ ih =>
    have hpart : Event.Ascending ((events.drop first).take count) :=
      hevents.sublist ((List.take_sublist _ _).trans (List.drop_sublist _ _))
    obtain ⟨old, new, hsplit, hold, htake⟩ := Event.split_part events hfirst count
    rw [hsplit] at hdone hpart ⊢
    obtain ⟨hhead, hsame, htail⟩ := dispatchAll_cons_eq_none hdone
    have hmem : ∀ e, e ∈ events.take seen ++ (old ++ new) ↔ e ∈ events.take seen ++ new := by
      intro e
      simp only [List.mem_append]
      constructor
      · rintro (he | he | he)
        exacts [.inl he, .inl (hold he), .inr he]
      · exact Or.imp_right .inr
    have hseen := h.dispatch hsingle hold hhead
    have hlevel' := (hlevel.dispatch hpart hhead).congr hmem
    have hgiven := fun id => h.given_dispatch hsingle hold hhead id
    rw [htake] at hseen hlevel' hgiven
    obtain ⟨hall, hlevel'', hlater⟩ := ih hseen hlevel' htail
    rw [hsame]
    refine ⟨hall, hlevel'', fun id => ?_⟩
    rw [runsAll, hhead, given_append, ← List.append_assoc, hgiven]
    exact hlater id

/-! ### Redelivery without batch mode -/

/-- **Without batch mode, it does not matter how events are split into batches, whether these overlap
and whether they come again.** A fresh manager is handed parts of a list of events, each beginning at or
before the first event that it has not been handed, until it has been handed all of them
(`Event.Deliveries`), and accepts them all (`dispatchAll`). Then it also accepts the whole list at once, with
the same views and the same `position`; and over all parts (`runsAll`), the handler of a view has been
`given` the events that affect it in order, each once, even if the locator names the view twice. -/
theorem redelivery_changes_nothing (id : String) (locator : Locator) (initial : V)
    (hierarchy : Hierarchy) (subscriptions : List (String × ViewHandler V)) (context : ViewContext)
    {events : List Event} {calls : List (List Event)} (hevents : Event.Ascending events)
    (hcalls : Event.Deliveries events 0 calls) :
    let m := ViewManager.new id locator initial hierarchy subscriptions false
    let parts := m.dispatchAll context calls
    let whole := m.dispatch context events
    parts.1 = none →
      whole.error = none ∧
      (∀ view, parts.2.view? view = whole.manager.view? view) ∧
      parts.2.position = whole.manager.position ∧
      ∀ view, given view (m.runsAll context calls)
        = events.filter fun e => decide (view ∈ m.affected context e) := by
  intro m parts whole hdone
  have hfresh : m.HasSeen context (events.take 0) m := .refl rfl
  obtain ⟨hparts, hlevel, hgiven⟩ := hfresh.deliveries hcalls hevents rfl (.refl m) hdone
  have hplaced : ∀ last, events.getLast? = some last → ∃ p, last.position = .ok p :=
    fun last hlast => (hevents.placed last (List.mem_of_getLast? hlast)).imp fun _ h => h.2
  have hwhole : whole.error = none := dispatch_eq_none rfl rfl hplaced hparts.accepts
  have hseen : m.HasSeen context ([] ++ events) whole.manager :=
    hfresh.dispatch rfl (List.nil_subset _) hwhole
  refine ⟨hwhole, hparts.view?_eq hseen, hlevel.unique ((Level.refl m).dispatch hevents hwhole),
    fun view => ?_⟩
  have hbeyond : ∀ e ∈ events, ∀ p, e.position = .ok p → (m.viewOrNew view).last < p := by
    intro e he p hp
    obtain ⟨p', hle, hp'⟩ := hevents.placed e he
    cases hp.symm.trans hp'
    show (-1 : Int) < p
    omega
  rw [← newTo_eq_filter hevents hbeyond]
  exact hgiven view

end ViewManager

namespace Sample

/-- Names a view of all events, and the view of the root of an event twice. -/
def repeating : Locator := fun _ e => (Locator.rootOf e).map fun root => [root, "all", root]

/-- A tally that writes down the events of these views. -/
def diary : ViewManager Tally :=
  .new "diary" repeating {} Hierarchy.flat [Tally.subscription "*" .log] false

/-- Deposits on two accounts. -/
def twoAccounts : Log :=
  (Log.empty.save .nil (Log.empty.continuation "a" "Deposited" (deposited.encode 5) 2
    ++ Log.empty.continuation "b" "Deposited" (deposited.encode 5) 2)).2

/-- All of them but the second one. -/
def gapped : List Event := twoAccounts.events.eraseIdx 1

/-- The first two events, the first one again, the last two, of which one is known, and that one
again. -/
def overlapping : List (List Event) :=
  [(gapped.drop 0).take 2, (gapped.drop 0).take 1, (gapped.drop 1).take 2, (gapped.drop 1).take 1]

end Sample

set_option maxRecDepth 10000 in
/-- Of three events that are handed over in four parts, the view of all events has each once. -/
theorem ViewManager.redelivery_changes_nothing_overlapping :
    let parts := Sample.diary.dispatchAll Dict.empty Sample.overlapping
    let whole := (Sample.diary.dispatch Dict.empty Sample.gapped).manager
    ((parts.2.view? "all").map fun view => (view.last, view.state.log))
        = some (3, ["Deposited(0)", "Deposited(2)", "Deposited(3)"]) ∧
      (∀ view, parts.2.view? view = whole.view? view) ∧ parts.2.position = whole.position := by
  intro parts whole
  have hevents : Event.Ascending Sample.gapped :=
    (Log.consistent_empty.save _ _).ascending.sublist (List.eraseIdx_sublist _ _)
  have hcalls : Event.Deliveries Sample.gapped 0 Sample.overlapping :=
    .part 0 2 (by decide) (by decide +kernel) (.part 0 1 (by decide) (by decide +kernel)
      (.part 1 2 (by decide) (by decide +kernel) (.part 1 1 (by decide) (by decide +kernel) .done)))
  obtain ⟨-, hviews, hposition, -⟩ := redelivery_changes_nothing "diary" Sample.repeating {}
    Hierarchy.flat [Sample.Tally.subscription "*" .log] Dict.empty hevents hcalls (by decide +kernel)
  exact ⟨by decide +kernel, hviews, hposition⟩

end Chronicle
