import Chronicle.Proofs.View.Dispatching

namespace Chronicle

/-!
# Batches one after the other

* `ViewManager.after` — what a view becomes of events, of which it takes those that are new to it;
  `ViewManager.after_append_eq_some` and `ViewManager.newTo_append` say that the events may come in two
  parts.
* `ViewManager.Accepts` — the events can be read, and every view takes those that are new to it;
  `ViewManager.dispatch_eq_none_iff` says that this is what a dispatch depends on.
* `ViewManager.SetUpAs` — managers that differ in nothing but what has been applied to them.
* `ViewManager.HasSeen` — a manager has come from another one by applying events;
  `ViewManager.HasSeen.dispatch` says that a batch may begin with events that were applied before.
* `ViewManager.dispatchAll` — hands over batches, up to the first error; what comes of it depends on
  their events and not on where one batch ends (`ViewManager.HasSeen.dispatchAll`,
  `ViewManager.HasSeen.dispatchAll_eq_none`).
-/

namespace ViewManager

variable {V : Type} {m m₀ : ViewManager V} {context : ViewContext} {id : String}

/-! ### What a view becomes of events -/

/-- What a view becomes of events: it takes those that are new to it, unless its handler refuses one. -/
def after (m : ViewManager V) (context : ViewContext) (id : String) (view : ViewInstance V)
    (events : List Event) : Option (ViewInstance V) :=
  (m.newTo context id view.last events).foldlM m.next? view

/-- A view takes an event if the handler accepts it. -/
theorem next?_eq_some_iff {view view' : ViewInstance V} {e : Event} {handle : ViewHandler V}
    {position : Int} (hanswer : m.handlers.handler? e.tag = some handle)
    (hposition : e.position = .ok position) : m.next? view e = some view' ↔
      ∃ state, handle view.state e = .ok state ∧ view' = { view with last := position, state } := by
  simp only [next?, hanswer, hposition]
  cases hstate : handle view.state e with
  | error err => simp [Except.toOption]
  | ok state => simp [Except.toOption, eq_comm]

/-- An event is new to a view, and then it is the first of those that are, or it is passed over. -/
theorem newTo_cons_cases (m : ViewManager V) (context : ViewContext) (id : String) (last : Int)
    (e : Event) :
    (∃ position, e.position = .ok position ∧ id ∈ m.affected context e ∧ last < position ∧
        ∀ rest, m.newTo context id last (e :: rest) = e :: m.newTo context id position rest) ∨
      (∀ position, e.position = .ok position → id ∈ m.affected context e → position ≤ last) ∧
        ∀ rest, m.newTo context id last (e :: rest) = m.newTo context id last rest := by
  simp only [newTo]
  cases hposition : e.position with
  | error err =>
    refine .inr ⟨?_, fun _ => rfl⟩
    rintro _ ⟨⟩
  | ok position =>
    simp only
    by_cases hnew : id ∈ m.affected context e ∧ last < position
    · exact .inl ⟨position, rfl, hnew.1, hnew.2, fun _ => if_pos hnew⟩
    · refine .inr ⟨?_, fun _ => if_neg hnew⟩
      rintro _ ⟨⟩ hid
      exact Int.not_lt.1 fun hlt => hnew ⟨hid, hlt⟩

/-- A view takes an event that is new to it, and then those that are new to what it has become. -/
theorem after_cons_of_new {view : ViewInstance V} {e : Event} {position : Int}
    (hposition : e.position = .ok position)
    (hnew : ∀ rest, m.newTo context id view.last (e :: rest) = e :: m.newTo context id position rest)
    (rest : List Event) : m.after context id view (e :: rest)
      = (m.next? view e).bind fun view' => m.after context id view' rest := by
  unfold after
  rw [hnew, List.foldlM_cons]
  cases hnext : m.next? view e with
  | none => rfl
  | some view' =>
    have hlast : view'.last = position := last_of_next? hposition hnext
    rw [← hlast]
    rfl

/-- The events that are new to a view come in two parts: what is new in the second part depends on what
the view has become of the first. -/
theorem newTo_append {view view' : ViewInstance V} {first : List Event}
    (h : m.after context id view first = some view') (second : List Event) :
    m.newTo context id view.last (first ++ second)
      = m.newTo context id view.last first ++ m.newTo context id view'.last second := by
  induction first generalizing view with
  | nil =>
    obtain rfl : view = view' := Option.some.inj h
    rfl
  | cons e rest ih =>
    rw [List.cons_append]
    obtain ⟨position, hposition, -, -, hnew⟩ | ⟨-, hpass⟩ :=
      m.newTo_cons_cases context id view.last e
    · rw [after_cons_of_new hposition hnew] at h
      obtain ⟨view₁, hview₁, hrest⟩ := Option.bind_eq_some_iff.1 h
      rw [hnew, hnew, ← last_of_next? hposition hview₁, ih hrest]
      rfl
    · rw [after, hpass] at h
      rw [hpass, hpass, ih h]

/-- A view takes events in two parts. -/
theorem after_append_eq_some {view view₂ : ViewInstance V} {first second : List Event} :
    m.after context id view (first ++ second) = some view₂ ↔
      ∃ view₁, m.after context id view first = some view₁ ∧
        m.after context id view₁ second = some view₂ := by
  induction first generalizing view with
  | nil => simp [after, newTo]
  | cons e rest ih =>
    rw [List.cons_append]
    obtain ⟨position, hposition, -, -, hnew⟩ | ⟨-, hpass⟩ :=
      m.newTo_cons_cases context id view.last e
    · rw [after_cons_of_new hposition hnew, after_cons_of_new hposition hnew]
      cases m.next? view e with
      | none => simp
      | some view₀ => exact ih
    · rw [after, after, hpass, hpass]
      exact ih

/-- Events that are not beyond what a view has seen are not new to it. -/
theorem newTo_eq_nil {last : Int} {events : List Event}
    (h : ∀ e ∈ events, ∀ position, e.position = .ok position → id ∈ m.affected context e →
      position ≤ last) : m.newTo context id last events = [] := by
  induction events with
  | nil => rfl
  | cons e rest ih =>
    obtain ⟨position, hposition, hid, hlt, -⟩ | ⟨-, hpass⟩ := m.newTo_cons_cases context id last e
    · exact absurd (h e List.mem_cons_self position hposition hid) (Int.not_le.2 hlt)
    · rw [hpass, ih fun e' he' => h e' (List.mem_cons_of_mem e he')]

/-- A view has seen the events that affect it once it has taken those that were new to it. -/
theorem le_last_of_after {view view' : ViewInstance V} {events : List Event}
    (h : m.after context id view events = some view') {e : Event} (he : e ∈ events) {position : Int}
    (hposition : e.position = .ok position) (hid : id ∈ m.affected context e) :
    position ≤ view'.last := by
  obtain ⟨before, behind, rfl⟩ := List.append_of_mem he
  obtain ⟨view₁, -, hview'⟩ := after_append_eq_some.1 h
  obtain ⟨position', hposition', -, -, hnew⟩ | ⟨hseen, hpass⟩ :=
    m.newTo_cons_cases context id view₁.last e
  · rw [after_cons_of_new hposition' hnew] at hview'
    obtain ⟨view₂, hview₂, hrest⟩ := Option.bind_eq_some_iff.1 hview'
    rw [← last_of_next? hposition hview₂]
    exact (lt_last_of_newTo hrest).1
  · rw [after, hpass] at hview'
    exact Int.le_trans (hseen position hposition hid) (lt_last_of_newTo hview').1

/-! ### Which events a manager accepts -/

/-- The events that somebody subscribes to can be read, and every view takes those that are new to
it. -/
structure Accepts (m : ViewManager V) (context : ViewContext) (events : List Event) : Prop where
  /-- Where there is a handler, the position and the views of an event are known. -/
  readable : ∀ e ∈ events, m.handlers.handler? e.tag ≠ none →
    (∃ position, e.position = .ok position) ∧ ∃ ids, m.locator context e = .ok ids
  /-- No handler refuses an event that is new to a view. -/
  taken : ∀ id, ∃ view, m.after context id (m.viewOrNew id) events = some view

/-- An event is applied if every view that has not seen it takes it. -/
theorem applyTo_eq_ok {handle : ViewHandler V} {e : Event} {position : Int} {w : Working V}
    {ids : List String} (isNew : Bool)
    (h : ∀ id ∈ ids, (m.touch w id).view.last < position →
      ∃ state, handle (m.touch w id).view.state e = .ok state) :
    ∃ w' isNew', m.applyTo handle e position w isNew ids = .ok (w', isNew') := by
  induction ids generalizing w isNew with
  | nil => exact ⟨w, isNew, rfl⟩
  | cons first rest ih =>
    rw [applyTo]
    simp only
    split
    · refine ih isNew fun id hid => ?_
      rw [touch_insert_touch]
      exact h id (List.mem_cons_of_mem first hid)
    · rename_i hunseen
      obtain ⟨state, hstate⟩ := h first List.mem_cons_self (Int.not_le.1 hunseen)
      rw [hstate]
      refine ih true fun id hid => ?_
      rw [touch_insert]
      split
      · -- From here on, the view has seen the event.
        exact fun hlt => absurd hlt (Int.lt_irrefl _)
      · exact h id (List.mem_cons_of_mem first hid)

/-- Events are applied if they can be read and every copy takes those that are new to it. -/
theorem applyAll_eq_ok {p : Progress V} {events : List Event}
    (hhandlers : ∀ tag, p.handlers.handler? tag = m.handlers.handler? tag)
    (hread : ∀ e ∈ events, m.handlers.handler? e.tag ≠ none →
      (∃ position, e.position = .ok position) ∧ ∃ ids, m.locator context e = .ok ids)
    (htaken : ∀ id, ∃ view, m.after context id (m.touch p.working id).view events = some view) :
    ∃ p', m.applyAll context p events = (p', none) := by
  induction events generalizing p with
  | nil => exact ⟨p, rfl⟩
  | cons e rest ih =>
    have hasked : ∀ tag, (p.handlers.asked e.tag).handler? tag = m.handlers.handler? tag :=
      fun tag => (DispatchTable.handler?_asked _ _ _).trans (hhandlers tag)
    have hread' := fun e' he' => hread e' (List.mem_cons_of_mem e he')
    rw [applyAll, DispatchTable.resolve_eq, hhandlers]
    cases hanswer : m.handlers.handler? e.tag with
    | none =>
      refine ih hasked hread' fun id => ?_
      obtain ⟨view, hview⟩ := htaken id
      refine ⟨view, ?_⟩
      rwa [after, newTo_cons_of_not_mem (by simp [affected_of_none context hanswer])] at hview
    | some handle =>
      obtain ⟨⟨position, hposition⟩, ids, hids⟩ := hread e List.mem_cons_self (by simp [hanswer])
      have haffected := affected_of_some hanswer hids
      -- Where the event is new, it is the first one that the view takes.
      have hnew : ∀ id ∈ ids, (m.touch p.working id).view.last < position →
          ∃ state, handle (m.touch p.working id).view.state e = .ok state ∧ ∃ view,
            m.after context id { (m.touch p.working id).view with last := position, state } rest
              = some view := by
        intro id hid hlt
        have hfirst : ∀ rest, m.newTo context id (m.touch p.working id).view.last (e :: rest)
            = e :: m.newTo context id position rest := by
          intro rest
          rw [newTo, hposition, haffected]
          exact if_pos ⟨hid, hlt⟩
        obtain ⟨view, hview⟩ := htaken id
        rw [after_cons_of_new hposition hfirst] at hview
        obtain ⟨view₁, hview₁, hrest⟩ := Option.bind_eq_some_iff.1 hview
        obtain ⟨state, hstate, rfl⟩ := (next?_eq_some_iff hanswer hposition).1 hview₁
        exact ⟨state, hstate, view, hrest⟩
      obtain ⟨w, isNew, hcopies⟩ := applyTo_eq_ok false fun id hid hlt =>
        (hnew id hid hlt).imp fun _ h => h.1
      have happly : m.applyEvent context handle p.working e = .ok (w, isNew) := by
        rw [applyEvent, hposition]
        simp only [hids]
        exact hcopies
      simp only [happly]
      refine ih hasked hread' fun id => ?_
      obtain ⟨hchanged, hsame⟩ := applyTo_touch hcopies id
      by_cases hid : id ∈ ids ∧ (m.touch p.working id).view.last < position
      · obtain ⟨state, hstate, hrest⟩ := hnew id hid.1 hid.2
        obtain ⟨state', hstate', htouch⟩ := hchanged hid
        cases hstate.symm.trans hstate'
        simpa only [htouch] using hrest
      · obtain ⟨view, hview⟩ := htaken id
        rw [after, newTo, hposition, haffected] at hview
        simp only [hid, if_false] at hview
        rw [hsame hid]
        exact ⟨view, hview⟩

/-- Events that are applied can be read. -/
theorem readable_of_applyAll {p p' : Progress V} {events : List Event}
    (hhandlers : ∀ tag, p.handlers.handler? tag = m.handlers.handler? tag)
    (h : m.applyAll context p events = (p', none)) :
    ∀ e ∈ events, m.handlers.handler? e.tag ≠ none →
      (∃ position, e.position = .ok position) ∧ ∃ ids, m.locator context e = .ok ids := by
  induction events generalizing p with
  | nil => exact nofun
  | cons e rest ih =>
    obtain ⟨p₁, hhandlers₁, hrest, hcases⟩ := applyAll_cons hhandlers h
    intro e' he' hsome
    obtain rfl | he' := List.mem_cons.1 he'
    · obtain ⟨hnone, -⟩ | ⟨_, position, ids, _, _, hposition, hids, -⟩ := hcases
      · exact absurd hnone hsome
      · exact ⟨⟨position, hposition⟩, ids, hids⟩
    · exact ih hhandlers₁ hrest e' he' hsome

/-- What handlers see of a batch that is dispatched with success is accepted. -/
theorem accepts_of_dispatch {batch : List Event} (hne : batch ≠ [])
    (h : (m.dispatch context batch).error = none) : m.Accepts context (m.presented batch) := by
  obtain ⟨-, _, _, p, -, -, hall, -⟩ := dispatch_of_ok hne h
  exact ⟨readable_of_applyAll (fun _ => rfl) hall,
    fun id => ⟨_, (applyAll_touch (fun _ => rfl) hall id).1⟩⟩

theorem presented_of_single (h : m.batchMode = false) (batch : List Event) :
    m.presented batch = batch := if_neg (by simp [h])

/-- Events whose last one has a position are dispatched with success if they are accepted. -/
theorem dispatch_eq_none (hsingle : m.batchMode = false) (hrunning : m.stopped = false)
    {batch : List Event} (hplaced : ∀ last, batch.getLast? = some last →
      ∃ position, last.position = .ok position) (h : m.Accepts context batch) :
    (m.dispatch context batch).error = none := by
  unfold dispatch
  rw [if_neg (by simp [hrunning])]
  cases hlast : batch.getLast? with
  | none => rfl
  | some last =>
    obtain ⟨position, hposition⟩ := hplaced last hlast
    obtain ⟨p, hall⟩ := applyAll_eq_ok (p := { handlers := m.handlers }) (fun _ => rfl) h.readable
      h.taken
    simp only [hposition, presented_of_single hsingle, hall]
    rfl

/-! ### Managers that are set up alike -/

/-- A manager is set up as another one: it differs in nothing but what has been applied to it. -/
structure SetUpAs (m₀ m : ViewManager V) : Prop where
  /-- The id is the same. -/
  id : m.id = m₀.id
  /-- The locator is the same. -/
  locator : m.locator = m₀.locator
  /-- The initial state is the same. -/
  initial : m.initial = m₀.initial
  /-- The mode is the same. -/
  batchMode : m.batchMode = m₀.batchMode
  /-- The handlers are the same, whatever has been remembered of them. -/
  handler? : ∀ tag, m.handlers.handler? tag = m₀.handlers.handler? tag

namespace SetUpAs

theorem refl (m : ViewManager V) : m.SetUpAs m := ⟨rfl, rfl, rfl, rfl, fun _ => rfl⟩

theorem trans {m' : ViewManager V} (h : m₀.SetUpAs m) (h' : m.SetUpAs m') : m₀.SetUpAs m' :=
  ⟨h'.id.trans h.id, h'.locator.trans h.locator, h'.initial.trans h.initial,
    h'.batchMode.trans h.batchMode, fun tag => (h'.handler? tag).trans (h.handler? tag)⟩

theorem affected (h : m₀.SetUpAs m) (context : ViewContext) (e : Event) :
    m.affected context e = m₀.affected context e := by
  unfold ViewManager.affected
  rw [h.handler?, h.locator]

theorem newTo (h : m₀.SetUpAs m) (context : ViewContext) (id : String) (last : Int)
    (events : List Event) : m.newTo context id last events = m₀.newTo context id last events := by
  induction events generalizing last with
  | nil => rfl
  | cons e rest ih => simp only [ViewManager.newTo, h.affected, ih]

theorem next? (h : m₀.SetUpAs m) : m.next? = m₀.next? := by
  funext view e
  unfold ViewManager.next?
  rw [h.handler?]

theorem after (h : m₀.SetUpAs m) (context : ViewContext) (id : String) (view : ViewInstance V)
    (events : List Event) : m.after context id view events = m₀.after context id view events := by
  unfold ViewManager.after
  rw [h.newTo, h.next?]

end SetUpAs

/-- What is asked while events are applied does not change the answers. -/
theorem handler?_applyAll (m : ViewManager V) (context : ViewContext) (p : Progress V)
    (events : List Event) (tag : String) :
    (m.applyAll context p events).1.handlers.handler? tag = p.handlers.handler? tag := by
  induction events generalizing p with
  | nil => rfl
  | cons e rest ih =>
    rw [applyAll]
    have hasked : (p.handlers.asked e.tag).handler? tag = p.handlers.handler? tag :=
      DispatchTable.handler?_asked _ _ _
    split
    · rename_i hresolve
      obtain rfl : p.handlers.asked e.tag = _ := congrArg Prod.snd hresolve
      exact (ih _).trans hasked
    · rename_i hresolve
      obtain rfl : p.handlers.asked e.tag = _ := congrArg Prod.snd hresolve
      split
      · exact hasked
      · exact (ih _).trans hasked

/-- A dispatch does not change what a manager is set up for. -/
theorem setUpAs_dispatch (m : ViewManager V) (context : ViewContext) (batch : List Event) :
    m.SetUpAs (m.dispatch context batch).manager := by
  unfold dispatch
  split
  · exact .refl m
  · split
    · exact .refl m
    · split
      · exact ⟨rfl, rfl, rfl, rfl, fun _ => rfl⟩
      · split
        all_goals
          rename_i hall
          refine ⟨rfl, rfl, rfl, rfl, fun tag => ?_⟩
          have hsame := m.handler?_applyAll context { handlers := m.handlers } (m.presented batch) tag
          rw [hall] at hsame
          exact hsame

/-! ### What a manager has seen -/

/-- A running manager has come from another one by applying events: its views are what those of the
other one become of them. -/
structure HasSeen (m₀ : ViewManager V) (context : ViewContext) (events : List Event)
    (m : ViewManager V) : Prop where
  /-- Nothing else has changed. -/
  setUp : m₀.SetUpAs m
  /-- There was no error. -/
  running : m.stopped = false
  /-- The events could be applied. -/
  accepts : m₀.Accepts context events
  /-- The views. -/
  views : ∀ id, m.view? id = if m₀.newTo context id (m₀.viewOrNew id).last events = [] then
    m₀.view? id else m₀.after context id (m₀.viewOrNew id) events

namespace HasSeen

variable {events : List Event}

theorem refl (hrunning : m₀.stopped = false) : m₀.HasSeen context [] m₀ where
  setUp := .refl m₀
  running := hrunning
  accepts := ⟨nofun, fun id => ⟨m₀.viewOrNew id, rfl⟩⟩
  views _ := rfl

/-- Views that have seen the same are the same. -/
theorem view?_eq {m' : ViewManager V} (h : m₀.HasSeen context events m)
    (h' : m₀.HasSeen context events m') (id : String) : m.view? id = m'.view? id := by
  rw [h.views, h'.views]

/-- A view of the manager, or a fresh one, is what the events have made of it. -/
theorem viewOrNew (h : m₀.HasSeen context events m) (id : String) :
    m₀.after context id (m₀.viewOrNew id) events = some (m.viewOrNew id) := by
  have hview := h.views id
  split at hview
  · rename_i hnone
    rw [ViewManager.viewOrNew, ViewManager.viewOrNew, hview, h.setUp.initial, after]
    unfold ViewManager.viewOrNew at hnone
    rw [hnone]
    rfl
  · obtain ⟨view, htaken⟩ := h.accepts.taken id
    rw [htaken] at hview ⊢
    rw [ViewManager.viewOrNew, hview, Option.getD_some]

/-- Events that were applied before are not new to any view. -/
theorem newTo_eq_nil (h : m₀.HasSeen context events m) {old : List Event} (hold : old ⊆ events)
    (id : String) : m₀.newTo context id (m.viewOrNew id).last old = [] :=
  ViewManager.newTo_eq_nil fun _ he _ hposition hid =>
    le_last_of_after (h.viewOrNew id) (hold he) hposition hid

/-- What is new in a batch that begins with events that were applied before is what follows them. -/
theorem newTo_append (h : m₀.HasSeen context events m) {old : List Event} (hold : old ⊆ events)
    (new : List Event) (id : String) :
    m₀.newTo context id (m.viewOrNew id).last (old ++ new)
      = m₀.newTo context id (m.viewOrNew id).last new := by
  have hnone := h.newTo_eq_nil hold id
  have hsame : m₀.after context id (m.viewOrNew id) old = some (m.viewOrNew id) := by
    rw [after, hnone]
    rfl
  rw [ViewManager.newTo_append hsame, hnone, List.nil_append]

/-- What is new to a view in a batch is what is new to it behind the events that were applied before. -/
theorem news_eq (h : m₀.HasSeen context events m) {batch old new : List Event}
    (hpresented : m.presented batch = old ++ new) (hold : old ⊆ events) (id : String) :
    m.news context batch id = m₀.newTo context id (m.viewOrNew id).last new := by
  rw [news, hpresented, h.setUp.newTo, h.newTo_append hold]

/-- What handlers see of a batch may begin with events that were applied before: they are passed
over. -/
theorem dispatch_presented (h : m₀.HasSeen context events m) {batch old new : List Event}
    (hne : batch ≠ []) (hpresented : m.presented batch = old ++ new) (hold : old ⊆ events)
    (hdone : (m.dispatch context batch).error = none) :
    m₀.HasSeen context (events ++ new) (m.dispatch context batch).manager := by
  have haccepts := accepts_of_dispatch hne hdone
  have hnews := h.news_eq hpresented hold
  rw [hpresented] at haccepts
  -- Every view takes what follows the events that it has seen.
  have htaken : ∀ id, ∃ view, m₀.after context id (m.viewOrNew id) new = some view ∧
      m₀.after context id (m₀.viewOrNew id) (events ++ new) = some view := by
    intro id
    obtain ⟨view, hview⟩ := haccepts.taken id
    rw [h.setUp.after, after, h.newTo_append hold, ← after] at hview
    exact ⟨view, hview, after_append_eq_some.2 ⟨_, h.viewOrNew id, hview⟩⟩
  refine ⟨h.setUp.trans (m.setUpAs_dispatch context _), ?running, ?accepts, fun id => ?views⟩
  case running =>
    obtain ⟨hrunning, _, _, _, _, _, _, hdispatch⟩ := dispatch_of_ok hne hdone
    rw [hdispatch]
    exact hrunning
  case accepts =>
    refine ⟨fun e he hsome => ?_, fun id => (htaken id).imp fun _ h => h.2⟩
    obtain he | he := List.mem_append.1 he
    · exact h.accepts.readable e he hsome
    · rw [← h.setUp.locator]
      exact haccepts.readable e (List.mem_append_right old he) (by rwa [h.setUp.handler?])
  case views =>
    obtain ⟨hsame, hchanged⟩ := view?_dispatch hne hdone id
    obtain ⟨view, hview, hall⟩ := htaken id
    rw [ViewManager.newTo_append (h.viewOrNew id), hall, ← hnews id]
    by_cases hnone : m.news context batch id = []
    · rw [hsame hnone, h.views id, hnone, List.append_nil]
      rw [hnews id] at hnone
      rw [after, hnone] at hview
      rw [h.viewOrNew id, ← Option.some.inj hview]
    · obtain ⟨view', hview', hnow, -⟩ := hchanged hnone
      rw [hnews id, h.setUp.next?, ← after, hview] at hview'
      rw [hnow, ← hview', if_neg (by simp [hnone])]

/-- A batch may begin with events that were applied before. -/
theorem dispatch (h : m₀.HasSeen context events m) (hsingle : m₀.batchMode = false)
    {old new : List Event} (hold : old ⊆ events)
    (hdone : (m.dispatch context (old ++ new)).error = none) :
    m₀.HasSeen context (events ++ new) (m.dispatch context (old ++ new)).manager := by
  by_cases hne : old ++ new = []
  · obtain ⟨rfl, rfl⟩ := List.append_eq_nil_iff.1 hne
    rwa [List.append_nil, List.append_nil, manager_dispatch_nil]
  · exact h.dispatch_presented hne
      (presented_of_single (h.setUp.batchMode.trans hsingle) (old ++ new)) hold hdone

end HasSeen

/-! ### Batches one after the other -/

/-- Hand over batches one after the other, up to the first error. -/
def dispatchAll (context : ViewContext) :
    List (List Event) → ViewManager V → Option ViewDispatchError × ViewManager V
  | [], m => (none, m)
  | batch :: rest, m =>
    match (m.dispatch context batch).error with
    | some err => (some err, (m.dispatch context batch).manager)
    | none => dispatchAll context rest (m.dispatch context batch).manager

/-- All batches are dispatched if the first one is, and then the others. -/
theorem dispatchAll_cons_eq_none {batch : List Event} {rest : List (List Event)}
    (h : (dispatchAll context (batch :: rest) m).1 = none) :
    (m.dispatch context batch).error = none ∧
      dispatchAll context (batch :: rest) m
        = dispatchAll context rest (m.dispatch context batch).manager ∧
      (dispatchAll context rest (m.dispatch context batch).manager).1 = none := by
  rw [dispatchAll] at h ⊢
  cases herror : (m.dispatch context batch).error with
  | some err => simp [herror] at h
  | none =>
    rw [herror] at h
    exact ⟨rfl, rfl, h⟩

namespace HasSeen

variable {events : List Event} {batches : List (List Event)}

/-- After batches that come one after the other, their events have been applied. -/
theorem dispatchAll (h : m₀.HasSeen context events m) (hsingle : m₀.batchMode = false)
    (hdone : (dispatchAll context batches m).1 = none) :
    m₀.HasSeen context (events ++ batches.flatten)
      (ViewManager.dispatchAll context batches m).2 := by
  induction batches generalizing m events with
  | nil => simpa [ViewManager.dispatchAll] using h
  | cons batch rest ih =>
    obtain ⟨hfirst, hsame, hrest⟩ := dispatchAll_cons_eq_none hdone
    rw [hsame, List.flatten_cons, ← List.append_assoc]
    exact ih (h.dispatch hsingle (List.nil_subset _) hfirst) hrest

end HasSeen

end ViewManager

end Chronicle
