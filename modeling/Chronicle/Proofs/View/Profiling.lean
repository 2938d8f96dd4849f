import Chronicle.Proofs.View.Redelivery
import Mathlib.Data.List.Induction

namespace Chronicle

/-!
# A profiler counts every event once

* `sift` — the elements of a list that pass a test which sees what stands before them.
* `ViewManager.reached` — the position that a view has come to after events that were handed over.
* `ViewManager.isNewTo`, `ViewManager.isNew` — an event is applied to a view, and to some view, that
  it affects.
* `ViewManager.applied_applyAll` — the events that a batch reports are those that are new.
* `ProfiledStep` — what may happen to a manager and to the profiler that it reports to.
* `ProfiledStep.Stands` — after steps, the views stand where the events of the steps have brought them.
* `ViewManager.counts_once` — every event is reported once if it is new to some view, and the count of
  a type of events is the number of these since the last reset.
-/

/-! ### Sifting -/

section

variable {α : Type} {test test' : List α → α → Bool}

/-- The elements of a list that pass a test, which sees what stands before them besides. -/
def sift (test : List α → α → Bool) (l : List α) : List α :=
  (l.zipIdx.filter fun x => test (l.take x.2) x.1).map Prod.fst

theorem sift_nil (test : List α → α → Bool) : sift test [] = [] := rfl

theorem sift_cons (test : List α → α → Bool) (a : α) (l : List α) :
    sift test (a :: l)
      = (if test [] a then [a] else []) ++ sift (fun before => test (a :: before)) l := by
  have hlater : (l.zipIdx.map (Prod.map id (· + 1))).filter
        (fun x => test ((a :: l).take x.2) x.1)
      = (l.zipIdx.filter fun x => test (a :: l.take x.2) x.1).map (Prod.map id (· + 1)) := by
    rw [List.filter_map]
    rfl
  unfold sift
  rw [List.zipIdx_cons', List.filter_cons, List.take_zero, hlater]
  split <;> simp [Function.comp_def]

/-- A list can be sifted in two parts. -/
theorem sift_append (test : List α → α → Bool) (l l' : List α) :
    sift test (l ++ l') = sift test l ++ sift (fun before => test (l ++ before)) l' := by
  induction l generalizing test with
  | nil => rfl
  | cons a l ih => rw [List.cons_append, sift_cons, sift_cons, ih, List.append_assoc]; rfl

end

/-! ### Applying an event -/

namespace ViewManager

variable {V : Type} {m : ViewManager V} {context : ViewContext}

/-- An event is reported if there is a view that it affects and that has not seen it. -/
theorem isNew_applyTo {handle : ViewHandler V} {e : Event} {position : Int} {w w' : Working V}
    {isNew isNew' : Bool} {ids : List String}
    (h : m.applyTo handle e position w isNew ids = .ok (w', isNew')) :
    isNew' = (isNew || ids.any fun id => decide ((m.touch w id).view.last < position)) := by
  induction ids generalizing w isNew with
  | nil =>
    cases h
    simp
  | cons id rest ih =>
    unfold applyTo at h
    simp only at h
    split at h
    · rename_i hseen
      rw [ih h, List.any_cons, decide_eq_false (Int.not_lt.2 hseen), Bool.false_or]
      simp only [touch_insert_touch]
    · rename_i hunseen
      split at h
      · cases h
      · rw [ih h, List.any_cons, decide_eq_true (Int.not_le.1 hunseen)]
        simp

/-! ### Where views stand -/

section

variable (m)

/-- Where the views stand. -/
def stand (id : String) : Int := (m.viewOrNew id).last

/-- Where a view stands after an event: at the position of the event, if this affects the view and
comes later. -/
def moveOn (id : String) (last : Int) (x : ViewContext × Event) : Int :=
  match x.2.position with
  | .ok position => if id ∈ m.affected x.1 x.2 then max last position else last
  | .error _ => last

/-- Where a view stands after events, each in a context. -/
def reached (start : String → Int) (flow : List (ViewContext × Event)) (id : String) : Int :=
  flow.foldl (m.moveOn id) (start id)

/-- An event is new to a view: it affects the view, and the view has not come to its position by the
events before. -/
def isNewTo (start : String → Int) (before : List (ViewContext × Event)) (x : ViewContext × Event)
    (id : String) : Bool :=
  match x.2.position with
  | .ok position => decide (id ∈ m.affected x.1 x.2 ∧ m.reached start before id < position)
  | .error _ => false

/-- An event is new to some view that it affects. -/
def isNew (start : String → Int) (before : List (ViewContext × Event)) (x : ViewContext × Event) :
    Bool :=
  (m.affected x.1 x.2).any (m.isNewTo start before x)

end

variable {start : String → Int} {flow : List (ViewContext × Event)} {x : ViewContext × Event}
  {id : String}

/-- After one event, the others start from where it has brought the views. -/
theorem isNewTo_cons (before : List (ViewContext × Event)) (x' : ViewContext × Event) :
    m.isNewTo start (x :: before) x' id
      = m.isNewTo (fun id => m.moveOn id (start id) x) before x' id := rfl

theorem isNewTo_append (flow before : List (ViewContext × Event)) (x : ViewContext × Event) :
    m.isNewTo start (flow ++ before) x id = m.isNewTo (m.reached start flow) before x id := by
  unfold isNewTo reached
  simp only [List.foldl_append]

theorem isNew_append (flow before : List (ViewContext × Event)) (x : ViewContext × Event) :
    m.isNew start (flow ++ before) x = m.isNew (m.reached start flow) before x := by
  unfold isNew
  exact congrArg _ (funext fun id => isNewTo_append flow before x)

/-- An event is new if somebody subscribes to it, and if of the views that the locator names one has
not come to its position. -/
theorem isNew_iff {before : List (ViewContext × Event)} {e : Event} :
    m.isNew start before (context, e) = true ↔ ∃ handle ids position,
      m.handlers.handler? e.tag = some handle ∧ m.locator context e = .ok ids ∧
        e.position = .ok position ∧ ∃ id ∈ ids, m.reached start before id < position := by
  rw [isNew, List.any_eq_true]
  cases hanswer : m.handlers.handler? e.tag with
  | none => simp [affected_of_none context hanswer]
  | some handle =>
    cases hids : m.locator context e with
    | error err => simp [affected, hanswer, hids, Except.toOption]
    | ok ids =>
      have haffected := affected_of_some hanswer hids
      cases hposition : e.position with
      | error err => simp [isNewTo, hposition]
      | ok position =>
        simp only [isNewTo, hposition, haffected]
        simp

theorem moveOn_of_not_mem {last : Int} (h : id ∉ m.affected x.1 x.2) : m.moveOn id last x = last := by
  unfold moveOn
  cases x.2.position <;> simp [h]

/-- A view is moved on by an event that is new to it. -/
theorem moveOn_eq {last position : Int} (h : x.2.position = .ok position) :
    m.moveOn id last x = if id ∈ m.affected x.1 x.2 ∧ last < position then position else last := by
  unfold moveOn
  rw [h]
  by_cases hid : id ∈ m.affected x.1 x.2
  · simp only [hid, true_and, if_true]
    omega
  · simp [hid]

/-- A copy stands, after an event, where the event has brought its view. -/
theorem last_applyTo {handle : ViewHandler V} {e : Event} {position : Int} {w w' : Working V}
    {isNew isNew' : Bool} (hposition : e.position = .ok position)
    (h : m.applyTo handle e position w isNew (m.affected context e) = .ok (w', isNew'))
    (id : String) :
    (m.touch w' id).view.last = m.moveOn id (m.touch w id).view.last (context, e) := by
  obtain ⟨hnew, hold⟩ := applyTo_touch h id
  rw [moveOn_eq hposition]
  split
  · rename_i hid
    obtain ⟨state, -, htouch⟩ := hnew hid
    rw [htouch]
  · rename_i hid
    rw [hold hid]

/-- Of events that are all applied, the first one moves the copies on, and is reported if it is new to
some view. -/
theorem applyAll_cons_isNew {p p' : Progress V} {e : Event} {rest : List Event}
    (hhandlers : ∀ tag, p.handlers.handler? tag = m.handlers.handler? tag)
    (h : m.applyAll context p (e :: rest) = (p', none)) :
    ∃ p₁ : Progress V, (∀ tag, p₁.handlers.handler? tag = m.handlers.handler? tag) ∧
      m.applyAll context p₁ rest = (p', none) ∧
      (∀ id, (m.touch p₁.working id).view.last
        = m.moveOn id (m.touch p.working id).view.last (context, e)) ∧
      p₁.applied = p.applied ++
        if m.isNew (fun id => (m.touch p.working id).view.last) [] (context, e) then [e] else [] := by
  obtain ⟨p₁, hhandlers₁, hrest, hcases⟩ := applyAll_cons_applied hhandlers h
  refine ⟨p₁, hhandlers₁, hrest, ?_⟩
  rcases hcases with ⟨hanswer, hworking, hsame⟩ |
    ⟨handle, position, ids, isNew', hanswer, hposition, hids, hcopies, hreport⟩
  · -- Nobody subscribes to the event: it affects no view.
    have hnone := affected_of_none context hanswer
    refine ⟨fun id => ?_, by simp [isNew, hnone, hsame]⟩
    rw [moveOn_of_not_mem (by simp [hnone]), hworking]
  · obtain rfl := affected_of_some hanswer hids
    refine ⟨last_applyTo hposition hcopies, ?_⟩
    have hany : m.isNew (fun id => (m.touch p.working id).view.last) [] (context, e) = isNew' := by
      rw [isNew_applyTo hcopies, Bool.false_or, isNew]
      rw [Bool.eq_iff_iff, List.any_eq_true, List.any_eq_true]
      refine exists_congr fun id => and_congr_right fun hid => ?_
      simp [isNewTo, hposition, hid, reached]
    rw [hreport, hany]
    split <;> simp

/-- Of events that are all applied, those are reported that are new to some view, and the copies stand
where the events have brought them. -/
theorem applied_applyAll {p p' : Progress V} {events : List Event}
    (hhandlers : ∀ tag, p.handlers.handler? tag = m.handlers.handler? tag)
    (h : m.applyAll context p events = (p', none)) :
    p'.applied = p.applied
        ++ (sift (m.isNew fun id => (m.touch p.working id).view.last)
          (events.map fun e => (context, e))).map Prod.snd ∧
      ∀ id, (m.touch p'.working id).view.last
        = m.reached (fun id => (m.touch p.working id).view.last)
          (events.map fun e => (context, e)) id := by
  induction events generalizing p with
  | nil =>
    cases h
    exact ⟨by simp [sift_nil], fun id => rfl⟩
  | cons e rest ih =>
    obtain ⟨p₁, hhandlers₁, hrest, hmoved, hreport⟩ := applyAll_cons_isNew hhandlers h
    obtain ⟨happlied, hlast⟩ := ih hhandlers₁ hrest
    -- The others find the views where the first event has brought them.
    have hstart : (fun id => (m.touch p₁.working id).view.last)
        = fun id => m.moveOn id (m.touch p.working id).view.last (context, e) := funext hmoved
    rw [hstart] at happlied hlast
    refine ⟨?_, hlast⟩
    rw [happlied, hreport, List.map_cons, sift_cons, List.map_append, List.append_assoc]
    congr 2
    split <;> rfl

/-- The events that are new to a view, sifted. -/
theorem newTo_eq_sift (start : String → Int) (events : List Event) :
    m.newTo context id (start id) events
      = (sift (fun before x => m.isNewTo start before x id)
          (events.map fun e => (context, e))).map Prod.snd := by
  induction events generalizing start with
  | nil => rfl
  | cons e rest ih =>
    have hlater := ih fun id => m.moveOn id (start id) (context, e)
    rw [List.map_cons, sift_cons, List.map_append]
    simp only [isNewTo_cons]
    rw [← hlater, newTo]
    cases hposition : e.position with
    | error err => simp [isNewTo, moveOn, hposition]
    | ok position =>
      rw [moveOn_eq hposition]
      by_cases hnew : id ∈ m.affected context e ∧ start id < position
      · simp [isNewTo, reached, hposition, hnew]
      · simp only [if_neg hnew]
        simp [isNewTo, reached, hposition, hnew]

/-! ### One dispatch -/

/-- The events of a batch as handlers see them, each in the context of the batch. -/
def shownTo (m : ViewManager V) (context : ViewContext) (batch : List Event) :
    List (ViewContext × Event) :=
  if batch.isEmpty then [] else (m.presented batch).map fun e => (context, e)

variable {batch : List Event}

/-- A dispatch that succeeds reports the events that are new to some view, in order. -/
theorem applied_dispatch (h : (m.dispatch context batch).error = none) :
    (m.dispatch context batch).applied
      = (sift (m.isNew m.stand) (m.shownTo context batch)).map Prod.snd := by
  by_cases hne : batch = []
  · subst hne
    unfold dispatch
    split <;> rfl
  · obtain ⟨-, _, _, p, -, -, hall, hdispatch⟩ := dispatch_of_ok hne h
    have hreported := (applied_applyAll (fun _ => rfl) hall).1
    rw [hdispatch, shownTo, if_neg (by simpa using hne)]
    exact hreported

/-- In a dispatch that succeeds, the handler of a view is given the events that are new to it. -/
theorem given_dispatch (h : (m.dispatch context batch).error = none) (id : String) :
    given id (m.runs context batch)
      = (sift (fun before x => m.isNewTo m.stand before x id) (m.shownTo context batch)).map
          Prod.snd := by
  rw [given_runs h, shownTo]
  by_cases hne : batch = []
  · simp [hne, sift_nil]
  · rw [if_neg hne, if_neg (by simpa using hne)]
    exact newTo_eq_sift m.stand (m.presented batch)

/-- A dispatch that succeeds brings every view where the events bring it. -/
theorem stand_dispatch (h : (m.dispatch context batch).error = none) :
    (m.dispatch context batch).manager.stand = m.reached m.stand (m.shownTo context batch) := by
  funext id
  by_cases hne : batch = []
  · subst hne
    rw [manager_dispatch_nil]
    rfl
  · obtain ⟨hrunning, _, _, p, -, -, hall, -⟩ := dispatch_of_ok hne h
    -- What a view has become is what its copy has become.
    have hseen := (HasSeen.refl hrunning).dispatch_presented hne (List.nil_append _).symm
      (List.nil_subset _) h
    have hview := hseen.viewOrNew id
    have hcopy := (applyAll_touch (fun _ => rfl) hall id).1
    rw [List.nil_append] at hview
    have hsame : (m.dispatch context batch).manager.viewOrNew id = (m.touch p.working id).view :=
      Option.some.inj (hview.symm.trans hcopy)
    rw [stand, hsame, (applied_applyAll (fun _ => rfl) hall).2, shownTo,
      if_neg (by simpa using hne)]
    rfl

/-! ### Managers that are set up alike -/

namespace SetUpAs

variable {m₀ : ViewManager V}

theorem shownTo (h : m₀.SetUpAs m) (context : ViewContext) (batch : List Event) :
    m.shownTo context batch = m₀.shownTo context batch := by
  unfold ViewManager.shownTo presented
  rw [h.batchMode]

theorem reached (h : m₀.SetUpAs m) (start : String → Int) (flow : List (ViewContext × Event)) :
    m.reached start flow = m₀.reached start flow := by
  funext id
  unfold ViewManager.reached moveOn
  simp only [h.affected]

theorem isNewTo (h : m₀.SetUpAs m) (start : String → Int) (before : List (ViewContext × Event))
    (x : ViewContext × Event) : m.isNewTo start before x = m₀.isNewTo start before x := by
  funext id
  unfold ViewManager.isNewTo
  rw [h.affected, h.reached]

theorem isNew (h : m₀.SetUpAs m) (start : String → Int) (before : List (ViewContext × Event))
    (x : ViewContext × Event) : m.isNew start before x = m₀.isNew start before x := by
  unfold ViewManager.isNew
  rw [h.affected, h.isNewTo]

end SetUpAs

end ViewManager

/-! ### Reports -/

/-- What a view manager tells a profiler. -/
structure Report where
  /-- The view manager. -/
  manager : String
  /-- The event that was applied. -/
  event : Event
  /-- How long it took. -/
  time : Duration

namespace Profiler

/-- Count what was reported. -/
def record (p : Profiler) (r : Report) : Profiler := p.register r.manager r.event.tag r.time

theorem count_record (p : Profiler) (r : Report) (manager type : String) :
    ((p.record r).total manager type).count
      = (p.total manager type).count
        + if r.manager = manager ∧ r.event.tag = type then 1 else 0 := by
  rw [record, total_register]
  by_cases h : r.manager = manager ∧ r.event.tag = type
  · obtain ⟨rfl, rfl⟩ := h
    simp
  · have hother : (manager, type) ≠ (r.manager, r.event.tag) := fun heq =>
      h ⟨(congrArg Prod.fst heq).symm, (congrArg Prod.snd heq).symm⟩
    rw [if_neg hother, if_neg h, Nat.add_zero]

/-- A count grows by the reports for it. -/
theorem count_foldl_record (reports : List Report) (p : Profiler) (manager type : String) :
    ((reports.foldl record p).total manager type).count
      = (p.total manager type).count
        + reports.countP fun r => decide (r.manager = manager ∧ r.event.tag = type) := by
  induction reports generalizing p with
  | nil => rfl
  | cons r rest ih =>
    rw [List.foldl_cons, ih, count_record, List.countP_cons]
    simp only [decide_eq_true_eq]
    omega

end Profiler

namespace ViewManager

variable {V : Type}

/-- What a dispatch reports, where the `k`-th event that is reported took the time `times k`. -/
def reports (context : ViewContext) (batch : List Event) (times : Nat → Duration)
    (m : ViewManager V) : List Report :=
  (m.dispatch context batch).applied.zipIdx.map fun x => ⟨m.id, x.1, times x.2⟩

theorem map_reports {α : Type} (f : String → Event → α) (context : ViewContext) (batch : List Event)
    (times : Nat → Duration) (m : ViewManager V) :
    (m.reports context batch times).map (fun r => f r.manager r.event)
      = (m.dispatch context batch).applied.map (f m.id) := by
  have hfst := congrArg (List.map (f m.id))
    (List.zipIdx_map_fst 0 (m.dispatch context batch).applied)
  rw [← hfst, reports, List.map_map, List.map_map]
  rfl

/-- Of one type, as many events are reported as were new to some view. -/
theorem countP_reports (context : ViewContext) (batch : List Event) (times : Nat → Duration)
    (m : ViewManager V) (type : String) :
    (m.reports context batch times).countP
        (fun r => decide (r.manager = m.id ∧ r.event.tag = type))
      = (m.dispatch context batch).applied.countP fun e => decide (e.tag = type) := by
  have hcount := congrArg (List.countP fun x => decide (x.1 = m.id ∧ x.2.tag = type))
    (m.map_reports Prod.mk context batch times)
  rw [List.countP_map, List.countP_map] at hcount
  simpa [Function.comp_def] using hcount

end ViewManager

/-- A manager that is fed reports to the profiler what it applies. -/
theorem Feeding.profiler_dispatch {σ V : Type} (f : Feeding σ V) (context : ViewContext)
    (batch : List Event) :
    (f.dispatch context batch).2.profiler
      = (f.target.manager.reports context batch fun _ => Duration.zero).foldl Profiler.record
          f.profiler := by
  rw [ViewManager.reports, List.foldl_map]
  show (f.target.manager.dispatch context batch).applied.foldl
    (fun p e => p.register f.target.manager.id e.tag Duration.zero) f.profiler = _
  conv_lhs => rw [← List.zipIdx_map_fst 0 (f.target.manager.dispatch context batch).applied,
    List.foldl_map]
  rfl

/-! ### Runs -/

/-- A view manager, and a profiler that it reports to. -/
structure Profiled (V : Type) where
  /-- The manager. -/
  manager : ViewManager V
  /-- The profiler. -/
  profiler : Profiler

/-- What may happen to a view manager and its profiler. -/
inductive ProfiledStep where
  /-- A batch is dispatched; these are the times that the reported events take. -/
  | dispatch (context : ViewContext) (batch : List Event) (times : Nat → Duration)
  /-- Another manager reports. -/
  | report (r : Report)
  /-- The profiler forgets what it has counted. -/
  | reset

namespace ProfiledStep

variable {V : Type}

/-- The manager and the profiler after a step. -/
def run (s : Profiled V) : ProfiledStep → Profiled V
  | dispatch context batch times => {
      manager := (s.manager.dispatch context batch).manager
      profiler := (s.manager.reports context batch times).foldl Profiler.record s.profiler }
  | report r => { s with profiler := s.profiler.record r }
  | reset => { s with profiler := s.profiler.reset }

/-- The manager and the profiler after steps. -/
def runAll (steps : List ProfiledStep) (s : Profiled V) : Profiled V := steps.foldl run s

/-- A step in which no dispatch fails, and no other manager reports under the same id. -/
def Succeeds (m : ViewManager V) : ProfiledStep → Prop
  | dispatch context batch _ => (m.dispatch context batch).error = none
  | report r => r.manager ≠ m.id
  | reset => True

/-- Steps in which no dispatch fails. -/
def AllSucceed : List ProfiledStep → Profiled V → Prop
  | [], _ => True
  | step :: rest, s => step.Succeeds s.manager ∧ AllSucceed rest (step.run s)

instance (m : ViewManager V) : (step : ProfiledStep) → Decidable (step.Succeeds m)
  | dispatch context batch _ => inferInstanceAs (Decidable ((m.dispatch context batch).error = none))
  | report r => inferInstanceAs (Decidable (r.manager ≠ m.id))
  | reset => .isTrue trivial

instance decidableAllSucceed :
    (steps : List ProfiledStep) → (s : Profiled V) → Decidable (AllSucceed steps s)
  | [], _ => .isTrue trivial
  | step :: rest, s =>
    have := decidableAllSucceed rest (step.run s)
    inferInstanceAs (Decidable (step.Succeeds s.manager ∧ AllSucceed rest (step.run s)))

/-- The events that the manager is handed, as handlers see them, each in its context. -/
def flow (m : ViewManager V) (steps : List ProfiledStep) : List (ViewContext × Event) :=
  steps.flatMap fun
    | dispatch context batch _ => m.shownTo context batch
    | report _ => []
    | reset => []

variable {m₀ : ViewManager V} {s : Profiled V} {steps later : List ProfiledStep}
  {step : ProfiledStep}

theorem allSucceed_append :
    AllSucceed (steps ++ later) s ↔ AllSucceed steps s ∧ AllSucceed later (runAll steps s) := by
  induction steps generalizing s with
  | nil => simp [AllSucceed, runAll]
  | cons step rest ih => rw [List.cons_append, AllSucceed, AllSucceed, ih, and_assoc]; rfl

theorem runAll_append (steps later : List ProfiledStep) (s : Profiled V) :
    runAll (steps ++ later) s = runAll later (runAll steps s) :=
  List.foldl_append

theorem flow_append (m : ViewManager V) (steps later : List ProfiledStep) :
    flow m (steps ++ later) = flow m steps ++ flow m later :=
  List.flatMap_append

/-! ### What a run keeps -/

/-- The views stand where events have brought them, and nothing else has changed. -/
structure Stands (m₀ : ViewManager V) (flow : List (ViewContext × Event)) (m : ViewManager V) :
    Prop where
  /-- The manager is set up as it was. -/
  setUp : m₀.SetUpAs m
  /-- Its views have come to the positions of the events. -/
  stand : m.stand = m₀.reached m₀.stand flow

namespace Stands

variable {m : ViewManager V} {flow : List (ViewContext × Event)} {context : ViewContext}
  {batch : List Event}

/-- What is new after events is new in view of these. -/
theorem isNewTo (h : Stands m₀ flow m) (before : List (ViewContext × Event))
    (x : ViewContext × Event) (id : String) :
    m.isNewTo m.stand before x id = m₀.isNewTo m₀.stand (flow ++ before) x id := by
  rw [h.setUp.isNewTo, h.stand, ViewManager.isNewTo_append]

theorem isNew (h : Stands m₀ flow m) (before : List (ViewContext × Event))
    (x : ViewContext × Event) :
    m.isNew m.stand before x = m₀.isNew m₀.stand (flow ++ before) x := by
  rw [h.setUp.isNew, h.stand, ViewManager.isNew_append]

theorem dispatch (h : Stands m₀ flow m) (hdone : (m.dispatch context batch).error = none) :
    Stands m₀ (flow ++ m₀.shownTo context batch) (m.dispatch context batch).manager where
  setUp := h.setUp.trans (m.setUpAs_dispatch context batch)
  stand := by
    rw [ViewManager.stand_dispatch hdone, h.setUp.reached, h.setUp.shownTo, h.stand]
    funext id
    exact List.foldl_append.symm

/-- A dispatch reports the events that are new to some view. -/
theorem applied (h : Stands m₀ flow m) (hdone : (m.dispatch context batch).error = none) :
    (m.dispatch context batch).applied
      = (sift (fun before x => m₀.isNew m₀.stand (flow ++ before) x)
          (m₀.shownTo context batch)).map Prod.snd := by
  rw [ViewManager.applied_dispatch hdone, h.setUp.shownTo]
  simp only [← h.isNew]

/-- The handler of a view is given the events that are new to it. -/
theorem given (h : Stands m₀ flow m) (hdone : (m.dispatch context batch).error = none)
    (id : String) :
    ViewManager.given id (m.runs context batch)
      = (sift (fun before x => m₀.isNewTo m₀.stand (flow ++ before) x id)
          (m₀.shownTo context batch)).map Prod.snd := by
  rw [ViewManager.given_dispatch hdone, h.setUp.shownTo]
  simp only [← h.isNewTo]

end Stands

theorem stands_run {flow : List (ViewContext × Event)} (h : Stands m₀ flow s.manager)
    (hstep : step.Succeeds s.manager) :
    Stands m₀ (flow ++ ProfiledStep.flow m₀ [step]) (step.run s).manager := by
  cases step with
  | dispatch context batch times =>
    have hflow : ProfiledStep.flow m₀ [.dispatch context batch times] = m₀.shownTo context batch :=
      List.flatMap_singleton _ _
    rw [hflow]
    exact h.dispatch hstep
  | report r => exact (List.append_nil flow).symm ▸ h
  | reset => exact (List.append_nil flow).symm ▸ h

/-- After steps, the views stand where the events of the steps have brought them. -/
theorem stands_runAll (h : AllSucceed steps s) :
    Stands s.manager (flow s.manager steps) (runAll steps s).manager := by
  induction steps using List.reverseRecOn with
  | nil => exact ⟨.refl _, rfl⟩
  | append_singleton steps step ih =>
    obtain ⟨hbefore, hstep, -⟩ := allSucceed_append.1 h
    rw [flow_append, runAll_append]
    exact stands_run (ih hbefore) hstep

/-- Without a reset, the count of a type of events grows by the events of this type that are new. -/
theorem count_runAll (h : AllSucceed (steps ++ later) s) (hreset : reset ∉ later) (type : String) :
    ((runAll (steps ++ later) s).profiler.total s.manager.id type).count
      = ((runAll steps s).profiler.total s.manager.id type).count
        + (sift (fun before x => s.manager.isNew s.manager.stand (flow s.manager steps ++ before) x)
            (flow s.manager later)).countP fun x => decide (x.2.tag = type) := by
  induction later using List.reverseRecOn with
  | nil => rw [List.append_nil]; rfl
  | append_singleton later step ih =>
    rw [← List.append_assoc] at h ⊢
    obtain ⟨hbefore, hstep, -⟩ := allSucceed_append.1 h
    have hstands := stands_runAll hbefore
    have hcount := ih hbefore fun hmem => hreset (List.mem_append_left _ hmem)
    rw [runAll_append, flow_append, sift_append, List.countP_append, ← Nat.add_assoc, ← hcount]
    simp only [← List.append_assoc, ← flow_append]
    generalize runAll (steps ++ later) s = s' at hstep hstands
    cases step with
    | dispatch context batch times =>
      show (((s'.manager.reports context batch times).foldl Profiler.record s'.profiler).total
        s.manager.id type).count = _
      have hflow : flow s.manager [.dispatch context batch times]
          = s.manager.shownTo context batch := List.flatMap_singleton _ _
      rw [Profiler.count_foldl_record, ← hstands.setUp.id, ViewManager.countP_reports,
        hstands.applied hstep, hflow, List.countP_map]
      rfl
    | report r =>
      have hother : ¬ (r.manager = s.manager.id ∧ r.event.tag = type) := fun hsame =>
        hstep (hsame.1.trans hstands.setUp.id.symm)
      show ((s'.profiler.record r).total s.manager.id type).count = _
      rw [Profiler.count_record, if_neg hother]
      rfl
    | reset => exact absurd (List.mem_append_right _ List.mem_cons_self) hreset

end ProfiledStep

/-- **A profiler counts every event once.** Of any manager, in either mode, whatever its views have
seen, and of any batches that are dispatched to it with success (`ProfiledStep.AllSucceed`): a dispatch
`reports`, in their order, each event of the batch once that is new to some view which it affects, and no
others. That is, the event is given to the handler of a view (`runs`); somebody subscribes to it, and of the
views that the locator names, one has not come to its position by the events that were handed over before
(`isNew`, `reached`). The count of a type of events in `Profiler.total` is the number of these since the
profiler was new or was reset, whatever other managers have reported and however long anything took. A
manager that is fed (`Feeding.dispatch`) tells its profiler the same. -/
theorem ViewManager.counts_once {V : Type} {m : ViewManager V} {p : Profiler}
    {steps : List ProfiledStep} (h : ProfiledStep.AllSucceed steps ⟨m, p⟩) :
    -- What is reported.
    (∀ before context batch times after,
      steps = before ++ .dispatch context batch times :: after →
      let now := (ProfiledStep.runAll before ⟨m, p⟩).manager
      let flow := ProfiledStep.flow m before
      let shown := m.shownTo context batch
      (now.reports context batch times).map (fun r => (r.manager, r.event))
          = (sift (fun seen x => m.isNew m.stand (flow ++ seen) x) shown).map
              (fun x => (m.id, x.2)) ∧
        ∀ id, given id (now.runs context batch)
            = (sift (fun seen x => m.isNewTo m.stand (flow ++ seen) x id) shown).map Prod.snd ∧
          (now.viewOrNew id).last = m.reached m.stand flow id) ∧
    -- What is new.
    (∀ seen context e, m.isNew m.stand seen (context, e) = true ↔ ∃ handle ids position,
      m.handlers.handler? e.tag = some handle ∧ m.locator context e = .ok ids ∧
        e.position = .ok position ∧ ∃ id ∈ ids, m.reached m.stand seen id < position) ∧
    -- What is counted.
    (∀ before after, steps = before ++ after → .reset ∉ after →
      (before = [] ∧ p = Profiler.empty ∨ ∃ earlier, before = earlier ++ [.reset]) →
      ∀ type, ((ProfiledStep.runAll steps ⟨m, p⟩).profiler.total m.id type).count
        = (sift (fun seen x => m.isNew m.stand (ProfiledStep.flow m before ++ seen) x)
            (ProfiledStep.flow m after)).countP fun x => decide (x.2.tag = type)) ∧
    -- What a manager reports that is fed.
    ∀ {σ : Type} (f : Feeding σ V) context batch,
      (f.dispatch context batch).2.profiler
        = (f.target.manager.reports context batch fun _ => Duration.zero).foldl Profiler.record
            f.profiler := by
  refine ⟨?reported, ?new, ?counted, Feeding.profiler_dispatch⟩
  case reported =>
    rintro before context batch times after rfl now flow shown
    obtain ⟨hbefore, hdone, -⟩ := ProfiledStep.allSucceed_append.1 h
    have hstands := ProfiledStep.stands_runAll hbefore
    refine ⟨?_, fun id => ⟨hstands.given hdone id, congrFun hstands.stand id⟩⟩
    rw [now.map_reports Prod.mk, hstands.applied hdone, hstands.setUp.id, List.map_map]
    rfl
  case new => exact fun seen context e => isNew_iff
  case counted =>
    rintro before after rfl hreset hstart type
    have hcount := ProfiledStep.count_runAll h hreset type
    have hzero : ((ProfiledStep.runAll before ⟨m, p⟩).profiler.total m.id type).count = 0 := by
      rcases hstart with ⟨rfl, rfl⟩ | ⟨earlier, rfl⟩
      · rfl
      · rw [ProfiledStep.runAll_append]
        rfl
    rw [hzero, Nat.zero_add] at hcount
    exact hcount

set_option maxRecDepth 10000 in
/-- Every deposit reaches two views, one of them named twice. After a reset, a batch with a known deposit
and a new one counts as one, and nothing when it comes again. -/
theorem ViewManager.counts_once_repeating :
    let batch := Sample.gapped.drop 1
    let first : List ProfiledStep := [
      .dispatch Dict.empty (Sample.gapped.take 2) fun _ => Duration.zero,
      .report ⟨"ledger", Event.new "Deposited" .null, Duration.zero⟩, .reset]
    let later : List ProfiledStep := [.dispatch Dict.empty batch fun _ => Duration.zero,
      .dispatch Dict.empty batch fun _ => Duration.zero]
    let start : Profiled Sample.Tally := ⟨Sample.diary, Profiler.empty⟩
    ProfiledStep.AllSucceed (first ++ later) start ∧
      ((ProfiledStep.runAll (first ++ later) start).profiler.total "diary" "Deposited").count = 1 := by
  intro batch first later start
  have hsucceed : ProfiledStep.AllSucceed (first ++ later) start := by decide +kernel
  have hreset : .reset ∉ later := by simp [later]
  obtain ⟨-, -, hcount, -⟩ := counts_once hsucceed
  refine ⟨hsucceed, (hcount first later rfl hreset (.inr ⟨first.take 2, rfl⟩) "Deposited").trans ?_⟩
  decide +kernel

end Chronicle
