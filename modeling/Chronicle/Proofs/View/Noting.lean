import Chronicle.Proofs.View.Splitting

namespace Chronicle

/-!
# What handlers are given

A dispatch tells what has become of the views, but not how often their handlers were run.

* `ViewManager.dispatchNoting` — a dispatch that also notes every run of a handler, one that refuses the
  event included; `ViewManager.dispatchNoting_fst` says that it does what a dispatch does.
* `ViewManager.runs` — the runs of handlers in a dispatch, and `ViewManager.given` the events among them
  that the handler of one view is given.
* `ViewManager.given_runs` — in a dispatch that succeeds, the handler of a view is given the events that
  are new to it, each once and in order.
-/

namespace ViewManager

variable {V : Type} {m : ViewManager V} {context : ViewContext}

/-! ### Noting the runs -/

/-- As `applyTo`, and the views whose handler is run. -/
def applyToNoting (m : ViewManager V) (handle : ViewHandler V) (e : Event) (position : Int) :
    Working V → Bool → List String →
      Except ViewDispatchError (Working V × Bool) × List String
  | w, applied, [] => (.ok (w, applied), [])
  | w, applied, id :: ids =>
    let t := m.touch w id
    if position ≤ t.view.last then applyToNoting m handle e position (w.insert id t) applied ids
    else match handle t.view.state e with
      | .error err => (.error (.handler m.id t.view.id e.display err), [id])
      | .ok state =>
        let (outcome, later) := applyToNoting m handle e position
          (w.insert id ⟨{ t.view with last := position, state }, true⟩) true ids
        (outcome, id :: later)

/-- As `applyEvent`, and the views whose handler is run. -/
def applyEventNoting (m : ViewManager V) (context : ViewContext) (handle : ViewHandler V)
    (w : Working V) (e : Event) : Except ViewDispatchError (Working V × Bool) × List String :=
  match e.position with
  | .error err => (.error (.invalidEvent m.id err), [])
  | .ok position =>
    match m.locator context e with
    | .error err => (.error (.locator m.id e.display err), [])
    | .ok ids => m.applyToNoting handle e position w false ids

/-- As `applyAll`, and the runs: the views with the events that their handlers are given. -/
def applyAllNoting (m : ViewManager V) (context : ViewContext) :
    Progress V → List Event →
      (Progress V × Option ViewDispatchError) × List (String × Event)
  | p, [] => ((p, none), [])
  | p, e :: rest =>
    match p.handlers.resolve e.tag with
    | (none, handlers) => applyAllNoting m context { p with handlers } rest
    | (some handle, handlers) =>
      match m.applyEventNoting context handle p.working e with
      | (.error err, ids) => (({ p with handlers }, some err), ids.map fun id => (id, e))
      | (.ok (working, isNew), ids) =>
        let (outcome, later) := applyAllNoting m context
          ⟨handlers, working, if isNew then p.applied ++ [e] else p.applied⟩ rest
        (outcome, (ids.map fun id => (id, e)) ++ later)

/-- As `dispatch`, and the runs. -/
def dispatchNoting (context : ViewContext) (batch : List Event) (m : ViewManager V) :
    Dispatched V × List (String × Event) :=
  if m.stopped then ({ manager := m, error := some (.stopped m.id) }, [])
  else match batch.getLast? with
    | none => ({ manager := m }, [])
    | some last =>
      match last.position with
      | .error err => (m.failed { handlers := m.handlers } (.invalidEvent m.id err), [])
      | .ok position =>
        match m.applyAllNoting context { handlers := m.handlers } (m.presented batch) with
        | ((p, some err), runs) => (m.failed p err, runs)
        | ((p, none), runs) => (m.completed p position, runs)

/-! ### Noting changes nothing -/

theorem applyToNoting_fst (m : ViewManager V) (handle : ViewHandler V) (e : Event) (position : Int)
    (w : Working V) (isNew : Bool) (ids : List String) :
    (m.applyToNoting handle e position w isNew ids).1
      = m.applyTo handle e position w isNew ids := by
  induction ids generalizing w isNew with
  | nil => rfl
  | cons id ids ih =>
    rw [applyToNoting, applyTo]
    simp only
    split
    · exact ih _ _
    · cases handle (m.touch w id).view.state e with
      | error err => rfl
      | ok state => exact ih _ _

theorem applyEventNoting_fst (m : ViewManager V) (context : ViewContext) (handle : ViewHandler V)
    (w : Working V) (e : Event) :
    (m.applyEventNoting context handle w e).1 = m.applyEvent context handle w e := by
  unfold applyEventNoting applyEvent
  cases e.position with
  | error err => rfl
  | ok position =>
    cases m.locator context e with
    | error err => rfl
    | ok ids => exact m.applyToNoting_fst handle e position w false ids

theorem applyAllNoting_fst (m : ViewManager V) (context : ViewContext) (p : Progress V)
    (events : List Event) :
    (m.applyAllNoting context p events).1 = m.applyAll context p events := by
  induction events generalizing p with
  | nil => rfl
  | cons e rest ih =>
    rw [applyAllNoting, applyAll]
    rcases p.handlers.resolve e.tag with ⟨_ | handle, handlers⟩
    · exact ih _
    · simp only [← applyEventNoting_fst]
      rcases m.applyEventNoting context handle p.working e with ⟨_ | ⟨working, isNew⟩, ids⟩
      · rfl
      · exact ih _

/-- A dispatch that notes the runs does what a dispatch does. -/
theorem dispatchNoting_fst (context : ViewContext) (batch : List Event) (m : ViewManager V) :
    (m.dispatchNoting context batch).1 = m.dispatch context batch := by
  unfold dispatchNoting dispatch
  split
  · rfl
  · cases batch.getLast? with
    | none => rfl
    | some last =>
      cases hposition : last.position with
      | error err => simp only [hposition]
      | ok position =>
        simp only [hposition, ← applyAllNoting_fst]
        rcases m.applyAllNoting context { handlers := m.handlers } (m.presented batch) with
          ⟨⟨p, _ | err⟩, runs⟩ <;> rfl

/-! ### The runs -/

/-- The runs of handlers in a dispatch, in order. -/
def runs (context : ViewContext) (batch : List Event) (m : ViewManager V) : List (String × Event) :=
  (m.dispatchNoting context batch).2

/-- The events that the handler of a view is given. -/
def given (id : String) (runs : List (String × Event)) : List Event :=
  (runs.filter fun run => decide (run.1 = id)).map Prod.snd

theorem given_append (id : String) (runs later : List (String × Event)) :
    given id (runs ++ later) = given id runs ++ given id later := by
  simp [given]

/-- Of the runs for one event, those of one view. -/
theorem given_map (id : String) (e : Event) (ids : List String) :
    given id (ids.map fun id' => (id', e))
      = (ids.filter fun id' => decide (id' = id)).map fun _ => e := by
  unfold given
  rw [List.filter_map, List.map_map]
  rfl

/-- An event that is applied is given once to each view that it affects and that has not seen it, also
if the view is named twice. -/
theorem filter_applyToNoting {handle : ViewHandler V} {e : Event} {position : Int} {w w' : Working V}
    {isNew isNew' : Bool} {ids ran : List String}
    (h : m.applyToNoting handle e position w isNew ids = (.ok (w', isNew'), ran)) (id : String) :
    (ran.filter fun id' => decide (id' = id))
      = if id ∈ ids ∧ (m.touch w id).view.last < position then [id] else [] := by
  induction ids generalizing w isNew ran with
  | nil =>
    cases h
    simp
  | cons first rest ih =>
    rw [applyToNoting] at h
    simp only at h
    split at h
    · rename_i hseen
      rw [ih h, touch_insert_touch]
      by_cases hid : id = first
      · subst hid
        rw [if_neg fun hlt => by omega, if_neg fun hlt => by omega]
      · simp [hid]
    · rename_i hunseen
      split at h
      · cases congrArg Prod.fst h
      · rename_i state _
        obtain ⟨hdone, rfl⟩ := Prod.mk.inj h
        have hlater := ih (Prod.ext hdone rfl)
        rw [touch_insert] at hlater
        by_cases hid : id = first
        · -- From here on, the view has seen the event.
          subst hid
          rw [if_pos rfl, if_neg fun hlt => Int.lt_irrefl _ hlt.2] at hlater
          rw [List.filter_cons_of_pos (by simp), hlater,
            if_pos ⟨List.mem_cons_self, Int.not_le.1 hunseen⟩]
        · rw [if_neg hid] at hlater
          rw [List.filter_cons_of_neg (by simpa using Ne.symm hid), hlater]
          simp [hid]

/-- Events that are applied are given to a view if they are new to it. -/
theorem given_applyAllNoting {p p' : Progress V} {events : List Event}
    {ran : List (String × Event)}
    (hhandlers : ∀ tag, p.handlers.handler? tag = m.handlers.handler? tag)
    (h : m.applyAllNoting context p events = ((p', none), ran)) (id : String) :
    given id ran = m.newTo context id (m.touch p.working id).view.last events := by
  induction events generalizing p ran with
  | nil =>
    cases h
    rfl
  | cons e rest ih =>
    have hasked : ∀ tag, (p.handlers.asked e.tag).handler? tag = m.handlers.handler? tag :=
      fun tag => (DispatchTable.handler?_asked _ _ _).trans (hhandlers tag)
    rw [applyAllNoting, DispatchTable.resolve_eq, hhandlers] at h
    cases hanswer : m.handlers.handler? e.tag with
    | none =>
      rw [hanswer] at h
      rw [newTo_cons_of_not_mem (by simp [affected_of_none context hanswer])]
      exact ih (p := { p with handlers := p.handlers.asked e.tag }) hasked h
    | some handle =>
      rw [hanswer] at h
      simp only at h
      rcases hnoting : m.applyEventNoting context handle p.working e with
        ⟨err | ⟨working, isNew⟩, ids⟩
      · rw [hnoting] at h
        cases congrArg (fun outcome => outcome.1.2) h
      · rw [hnoting] at h
        obtain ⟨hdone, rfl⟩ := Prod.mk.inj h
        have happly := m.applyEventNoting_fst context handle p.working e
        rw [hnoting] at happly
        obtain ⟨position, located, hposition, hids, hcopies⟩ := applyEvent_eq_ok happly.symm
        rw [applyEventNoting, hposition] at hnoting
        simp only [hids] at hnoting
        have hlater := ih (p := ⟨p.handlers.asked e.tag, working, _⟩) hasked (Prod.ext hdone rfl)
        obtain ⟨hnew, hold⟩ := applyTo_touch hcopies id
        rw [given_append, given_map, filter_applyToNoting hnoting, hlater, newTo, hposition,
          affected_of_some hanswer hids]
        simp only
        by_cases hid : id ∈ located ∧ (m.touch p.working id).view.last < position
        · obtain ⟨state, -, htouch⟩ := hnew hid
          rw [if_pos hid, if_pos hid, htouch]
          rfl
        · rw [if_neg hid, if_neg hid, hold hid]
          rfl

/-- In a dispatch that succeeds, the handler of a view is given the events that are new to it. -/
theorem given_runs {batch : List Event} (h : (m.dispatch context batch).error = none) (id : String) :
    given id (m.runs context batch) = if batch = [] then [] else m.news context batch id := by
  by_cases hne : batch = []
  · subst hne
    rw [if_pos rfl, runs, dispatchNoting]
    split <;> rfl
  · obtain ⟨hrunning, last, position, p, hlast, hposition, hall, -⟩ := dispatch_of_ok hne h
    rw [if_neg hne, runs, dispatchNoting, if_neg (by simp [hrunning]), hlast]
    simp only [hposition]
    have hsame := m.applyAllNoting_fst context { handlers := m.handlers } (m.presented batch)
    rw [hall] at hsame
    rcases hnoting : m.applyAllNoting context { handlers := m.handlers } (m.presented batch) with
      ⟨outcome, ran⟩
    rw [hnoting] at hsame
    obtain rfl : outcome = (p, none) := hsame
    exact given_applyAllNoting (fun _ => rfl) hnoting id

/-! ### The runs in several dispatches -/

/-- The runs of handlers while batches are handed over, up to the first error. -/
def runsAll (context : ViewContext) :
    List (List Event) → ViewManager V → List (String × Event)
  | [], _ => []
  | batch :: rest, m => m.runs context batch ++
    match (m.dispatch context batch).error with
    | some _ => []
    | none => runsAll context rest (m.dispatch context batch).manager

end ViewManager

end Chronicle
