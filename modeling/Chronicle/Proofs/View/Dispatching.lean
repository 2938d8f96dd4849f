import Chronicle.Proofs.View.Applying

namespace Chronicle

/-!
# Dispatch is all or nothing

* `ViewManager.affected`, `ViewManager.touched` — the views that an event affects, and those that a
  batch touches, in the order in which it does so first.
* `ViewManager.newTo` — the events of a batch that affect a view and that it has not seen yet.
* `ViewManager.applyAll_cons` — what it takes to apply events, one by one.
* `ViewManager.applyAll_touch` — on every copy, a batch has the effect of the events that are new to
  its view.
* `ManagerStep` — what may be done to a manager.
* `ViewManager.dispatch_all_or_nothing` — a dispatch that fails changes nothing and stops the manager
  until it is purged; one that succeeds changes the views that some event was new to, and tells
  subscribers about these.
-/

/-! ### Asking for handlers -/

namespace DispatchTable

variable {H : Type}

/-- To ask a table is to get the handler and the table that was asked. -/
theorem resolve_eq (t : DispatchTable H) (tag : String) :
    t.resolve tag = (t.handler? tag, t.asked tag) := rfl

/-- What a table has been asked for does not change what it answers. -/
theorem handler?_asked (t : DispatchTable H) (tag tag' : String) :
    (t.asked tag).handler? tag' = t.handler? tag' := by
  unfold handler? asked resolve
  cases hget : t.resolved.get? tag with
  | some answer => rfl
  | none =>
    simp only [Table.get?_insert]
    by_cases htag : tag' = tag
    · rw [if_pos htag, htag, hget]
    · rw [if_neg htag]
      cases t.resolved.get? tag' <;> rfl

end DispatchTable

/-! ### First appearances -/

/-- Put a key at the end unless it is there. -/
def addKey {α : Type} [DecidableEq α] (keys : List α) (key : α) : List α :=
  if key ∈ keys then keys else keys ++ [key]

/-- Keys that are put in one after the other stand in the order of their first appearances. -/
theorem foldl_addKey {α : Type} [DecidableEq α] (keys new : List α) :
    new.foldl addKey keys = keys ++ (new.filter fun key => decide (key ∉ keys)).eraseDups := by
  induction new generalizing keys with
  | nil => simp
  | cons key rest ih =>
    rw [List.foldl_cons, ih, addKey]
    by_cases hkey : key ∈ keys
    · rw [if_pos hkey, List.filter_cons_of_neg (by simpa using hkey)]
    · rw [if_neg hkey, List.filter_cons_of_pos (by simpa using hkey), List.eraseDups_cons,
        List.filter_filter, List.append_assoc, List.singleton_append]
      congr 3
      refine List.filter_congr fun key' _ => ?_
      by_cases hkey' : key' = key <;> simp [hkey']

namespace ViewManager

variable {V : Type}

/-! ### The effect of a batch on one view -/

section Effect

variable (m : ViewManager V) (context : ViewContext)

/-- The views that an event affects; none if nobody subscribes to it. -/
def affected (e : Event) : List String :=
  match m.handlers.handler? e.tag with
  | none => []
  | some _ => (m.locator context e).toOption.getD []

/-- The views that events affect, in the order in which they are first touched. -/
def touched (events : List Event) : List String := (events.flatMap (m.affected context)).eraseDups

/-- The events that affect a view and that it has not seen; the view has seen the log up to a
position, and each of these events moves it on. -/
def newTo (id : String) : Int → List Event → List Event
  | _, [] => []
  | last, e :: rest =>
    match e.position with
    | .error _ => newTo id last rest
    | .ok position =>
      if id ∈ m.affected context e ∧ last < position then e :: newTo id position rest
      else newTo id last rest

/-- The events of a batch, as handlers see them, that are new to a view. -/
def news (batch : List Event) (id : String) : List Event :=
  m.newTo context id (m.viewOrNew id).last (m.presented batch)

/-- What an event makes of a view, if its handler accepts it. -/
def next? (view : ViewInstance V) (e : Event) : Option (ViewInstance V) :=
  match m.handlers.handler? e.tag, e.position with
  | some handle, .ok position =>
    (handle view.state e).toOption.map fun state => { view with last := position, state }
  | _, _ => none

end Effect

variable {m : ViewManager V} {context : ViewContext}

theorem affected_of_none (context : ViewContext) {e : Event} (h : m.handlers.handler? e.tag = none) :
    m.affected context e = [] := by
  rw [affected, h]

theorem affected_of_some {e : Event} {handle : ViewHandler V} {ids : List String}
    (h : m.handlers.handler? e.tag = some handle) (hids : m.locator context e = .ok ids) :
    m.affected context e = ids := by
  rw [affected, h, hids]
  rfl

/-- An event that does not affect a view is not new to it. -/
theorem newTo_cons_of_not_mem {id : String} {last : Int} {e : Event} {rest : List Event}
    (h : id ∉ m.affected context e) :
    m.newTo context id last (e :: rest) = m.newTo context id last rest := by
  rw [newTo]
  cases e.position with
  | error err => rfl
  | ok position => exact if_neg fun hnew => h hnew.1

/-- An event that is applied to a view moves it on to its position. -/
theorem last_of_next? {view view' : ViewInstance V} {e : Event} {position : Int}
    (hposition : e.position = .ok position) (h : m.next? view e = some view') :
    view'.last = position := by
  unfold next? at h
  rw [hposition] at h
  split at h
  · rename_i hposition'
    cases hposition'
    obtain ⟨state, _, rfl⟩ := Option.map_eq_some_iff.1 h
    rfl
  · cases h

/-- A view is moved on by every event that is new to it. -/
theorem lt_last_of_newTo {id : String} {events : List Event} {view view' : ViewInstance V}
    (h : (m.newTo context id view.last events).foldlM m.next? view = some view') :
    view.last ≤ view'.last ∧
      (m.newTo context id view.last events ≠ [] → view.last < view'.last) := by
  induction events generalizing view with
  | nil =>
    cases h
    exact ⟨Int.le_refl _, fun hne => absurd rfl hne⟩
  | cons e rest ih =>
    rw [newTo] at h ⊢
    cases hposition : e.position with
    | error err =>
      rw [hposition] at h
      exact ih h
    | ok position =>
      rw [hposition] at h
      simp only at h ⊢
      split at h
      · rename_i hnew
        rw [if_pos hnew]
        obtain ⟨view₁, hview₁, hrest⟩ := Option.bind_eq_some_iff.1 h
        have hlast : view₁.last = position := last_of_next? hposition hview₁
        rw [← hlast] at hrest
        have hle := (ih hrest).1
        have hlt := hnew.2
        exact ⟨by omega, fun _ => by omega⟩
      · rename_i hold
        rw [if_neg hold]
        exact ih h

/-! ### The copies -/

theorem touch_insert (w : Working V) (id id' : String) (t : Touched V) :
    m.touch (w.insert id t) id' = if id' = id then t else m.touch w id' := by
  unfold touch
  rw [Table.get?_insert]
  split <;> rfl

/-- To take a copy as it is changes no copy. -/
theorem touch_insert_touch (w : Working V) (id id' : String) :
    m.touch (w.insert id (m.touch w id)) id' = m.touch w id' := by
  rw [touch_insert]
  split
  · rename_i hid
    rw [hid]
  · rfl

/-- One event changes the copies of the views that it affects and that have not seen it. -/
theorem applyTo_touch {handle : ViewHandler V} {e : Event} {position : Int} {w w' : Working V}
    {isNew isNew' : Bool} {ids : List String}
    (h : m.applyTo handle e position w isNew ids = .ok (w', isNew')) (id : String) :
    (id ∈ ids ∧ (m.touch w id).view.last < position →
      ∃ state, handle (m.touch w id).view.state e = .ok state ∧
        m.touch w' id = ⟨{ (m.touch w id).view with last := position, state }, true⟩) ∧
    (¬ (id ∈ ids ∧ (m.touch w id).view.last < position) → m.touch w' id = m.touch w id) := by
  induction ids generalizing w isNew with
  | nil =>
    cases h
    exact ⟨fun hid => by simp at hid, fun _ => rfl⟩
  | cons first rest ih =>
    unfold applyTo at h
    simp only at h
    split at h
    · -- The view has seen the event: its copy is taken as it is.
      rename_i hseen
      have hrest := ih h
      rw [touch_insert_touch] at hrest
      refine ⟨fun ⟨hid, hlt⟩ => hrest.1 ⟨?_, hlt⟩,
        fun hnot => hrest.2 fun ⟨hid, hlt⟩ => hnot ⟨List.mem_cons_of_mem _ hid, hlt⟩⟩
      rcases List.mem_cons.1 hid with rfl | hid
      · omega
      · exact hid
    · rename_i hunseen
      split at h
      · cases h
      · rename_i state hstate
        have hrest := ih h
        rw [touch_insert] at hrest
        by_cases hid : id = first
        · -- From here on, the view has seen the event.
          subst hid
          rw [if_pos rfl] at hrest
          have hdone := hrest.2 fun hlt => absurd hlt.2 (Int.lt_irrefl _)
          exact ⟨fun _ => ⟨state, hstate, hdone⟩,
            fun hnot => absurd ⟨List.mem_cons_self, by omega⟩ hnot⟩
        · rw [if_neg hid] at hrest
          have hmem : id ∈ first :: rest ↔ id ∈ rest := by simp [hid]
          rw [hmem]
          exact hrest

/-- The copies stand in the order in which they were taken. -/
theorem keys_applyTo {handle : ViewHandler V} {e : Event} {position : Int} {w w' : Working V}
    {isNew isNew' : Bool} {ids : List String}
    (h : m.applyTo handle e position w isNew ids = .ok (w', isNew')) :
    w'.keys = ids.foldl addKey w.keys := by
  induction ids generalizing w isNew with
  | nil =>
    cases h
    rfl
  | cons id rest ih =>
    unfold applyTo at h
    simp only at h
    rw [List.foldl_cons, addKey]
    split at h
    · rw [ih h, Table.keys_insert]
    · split at h
      · cases h
      · rw [ih h, Table.keys_insert]

/-- What an event has to have to be applied. -/
theorem applyEvent_eq_ok {handle : ViewHandler V} {w w' : Working V} {e : Event} {isNew : Bool}
    (h : m.applyEvent context handle w e = .ok (w', isNew)) :
    ∃ position ids, e.position = .ok position ∧ m.locator context e = .ok ids ∧
      m.applyTo handle e position w false ids = .ok (w', isNew) := by
  unfold applyEvent at h
  split at h
  · cases h
  · rename_i position hposition
    split at h
    · cases h
    · rename_i ids hids
      exact ⟨position, ids, hposition, hids, h⟩

/-- To apply events is to apply the first one, report it if it was new to some view, and apply the
others. -/
theorem applyAll_cons_applied {p p' : Progress V} {e : Event} {rest : List Event}
    (hhandlers : ∀ tag, p.handlers.handler? tag = m.handlers.handler? tag)
    (h : m.applyAll context p (e :: rest) = (p', none)) :
    ∃ p₁ : Progress V, (∀ tag, p₁.handlers.handler? tag = m.handlers.handler? tag) ∧
      m.applyAll context p₁ rest = (p', none) ∧
      (m.handlers.handler? e.tag = none ∧ p₁.working = p.working ∧ p₁.applied = p.applied ∨
        ∃ handle position ids isNew, m.handlers.handler? e.tag = some handle ∧
          e.position = .ok position ∧ m.locator context e = .ok ids ∧
          m.applyTo handle e position p.working false ids = .ok (p₁.working, isNew) ∧
          p₁.applied = if isNew then p.applied ++ [e] else p.applied) := by
  have hasked : ∀ tag, (p.handlers.asked e.tag).handler? tag = m.handlers.handler? tag :=
    fun tag => (DispatchTable.handler?_asked _ _ _).trans (hhandlers tag)
  rw [applyAll, DispatchTable.resolve_eq, hhandlers] at h
  cases hanswer : m.handlers.handler? e.tag with
  | none =>
    rw [hanswer] at h
    exact ⟨{ p with handlers := p.handlers.asked e.tag }, hasked, h, .inl ⟨rfl, rfl, rfl⟩⟩
  | some handle =>
    rw [hanswer] at h
    simp only at h
    cases happly : m.applyEvent context handle p.working e with
    | error err =>
      rw [happly] at h
      cases h
    | ok result =>
      obtain ⟨working, isNew⟩ := result
      rw [happly] at h
      obtain ⟨position, ids, hposition, hids, hcopies⟩ := applyEvent_eq_ok happly
      exact ⟨_, hasked, h, .inr ⟨handle, position, ids, isNew, rfl, hposition, hids, hcopies, rfl⟩⟩

/-- To apply events is to apply the first one to the views that it affects, if anybody subscribes to
it, and then the others. -/
theorem applyAll_cons {p p' : Progress V} {e : Event} {rest : List Event}
    (hhandlers : ∀ tag, p.handlers.handler? tag = m.handlers.handler? tag)
    (h : m.applyAll context p (e :: rest) = (p', none)) :
    ∃ p₁ : Progress V, (∀ tag, p₁.handlers.handler? tag = m.handlers.handler? tag) ∧
      m.applyAll context p₁ rest = (p', none) ∧
      (m.handlers.handler? e.tag = none ∧ p₁.working = p.working ∨
        ∃ handle position ids isNew, m.handlers.handler? e.tag = some handle ∧
          e.position = .ok position ∧ m.locator context e = .ok ids ∧
          m.applyTo handle e position p.working false ids = .ok (p₁.working, isNew)) := by
  obtain ⟨p₁, hhandlers₁, hrest, hcases⟩ := applyAll_cons_applied hhandlers h
  refine ⟨p₁, hhandlers₁, hrest, ?_⟩
  rcases hcases with ⟨hanswer, hworking, -⟩ |
    ⟨handle, position, ids, isNew, hanswer, hposition, hids, hcopies, -⟩
  · exact .inl ⟨hanswer, hworking⟩
  · exact .inr ⟨handle, position, ids, isNew, hanswer, hposition, hids, hcopies⟩

/-- The copies stand in the order in which the events touch them. -/
theorem keys_applyAll {p p' : Progress V} {events : List Event}
    (hhandlers : ∀ tag, p.handlers.handler? tag = m.handlers.handler? tag)
    (h : m.applyAll context p events = (p', none)) :
    p'.working.keys = (events.flatMap (m.affected context)).foldl addKey p.working.keys := by
  induction events generalizing p with
  | nil =>
    cases h
    rfl
  | cons e rest ih =>
    obtain ⟨p₁, hhandlers₁, hrest, hcases⟩ := applyAll_cons hhandlers h
    rw [ih hhandlers₁ hrest, List.flatMap_cons, List.foldl_append]
    rcases hcases with ⟨hanswer, hworking⟩ | ⟨_, _, _, _, hanswer, _, hids, hcopies⟩
    · rw [affected_of_none context hanswer, hworking, List.foldl_nil]
    · rw [affected_of_some hanswer hids, keys_applyTo hcopies]

/-- On every copy, events that are all applied have the effect of those that are new to its view. -/
theorem applyAll_touch {p p' : Progress V} {events : List Event}
    (hhandlers : ∀ tag, p.handlers.handler? tag = m.handlers.handler? tag)
    (h : m.applyAll context p events = (p', none)) (id : String) :
    (m.newTo context id (m.touch p.working id).view.last events).foldlM m.next?
        (m.touch p.working id).view = some (m.touch p'.working id).view ∧
      ((m.touch p'.working id).changed = true ↔ (m.touch p.working id).changed = true ∨
        m.newTo context id (m.touch p.working id).view.last events ≠ []) := by
  induction events generalizing p with
  | nil =>
    cases h
    exact ⟨rfl, by simp [newTo]⟩
  | cons e rest ih =>
    obtain ⟨p₁, hhandlers₁, hrest, hcases⟩ := applyAll_cons hhandlers h
    have hdone := ih hhandlers₁ hrest
    rcases hcases with ⟨hanswer, hworking⟩ |
      ⟨handle, position, ids, isNew, hanswer, hposition, hids, hcopies⟩
    · -- Nobody subscribes to the event: it affects no view.
      rw [newTo_cons_of_not_mem (by simp [affected_of_none context hanswer]), ← hworking]
      exact hdone
    · obtain ⟨hnew, hold⟩ := applyTo_touch hcopies id
      rw [newTo, hposition, affected_of_some hanswer hids]
      simp only
      by_cases hid : id ∈ ids ∧ (m.touch p.working id).view.last < position
      · obtain ⟨state, hstate, htouch⟩ := hnew hid
        rw [htouch] at hdone
        have hnext : m.next? (m.touch p.working id).view e
            = some { (m.touch p.working id).view with last := position, state } := by
          rw [next?, hanswer, hposition]
          simp [hstate, Except.toOption]
        rw [if_pos hid, List.foldlM_cons, hnext]
        exact ⟨hdone.1, by simp [hdone.2]⟩
      · rw [hold hid] at hdone
        rw [if_neg hid]
        exact hdone

/-- The ids of the changed copies are the keys of the copies that are changed. -/
theorem ids_changes (m : ViewManager V) (w : Working V) :
    (changes w).map Prod.fst = w.keys.filter fun id => (m.touch w id).changed := by
  unfold changes Table.keys
  rw [List.map_map, List.filter_map]
  show ((w.entries.filter _).map Prod.fst) = _
  congr 1
  refine List.filter_congr fun entry hentry => ?_
  have hget : w.get? entry.1 = some entry.2 := (Table.get?_eq_some_iff _ _ _).2 hentry
  simp [touch, hget]

/-! ### The outcome of a dispatch -/

/-- A dispatch that fails leaves the views and the position, tells nobody and stops the manager. -/
theorem dispatch_of_error {batch : List Event} {err : ViewDispatchError}
    (h : (m.dispatch context batch).error = some err) :
    (m.dispatch context batch).manager.views = m.views ∧
      (m.dispatch context batch).manager.position = m.position ∧
      (m.dispatch context batch).manager.id = m.id ∧
      (m.dispatch context batch).manager.stopped = true ∧
      (m.dispatch context batch).notice = none := by
  unfold dispatch at h ⊢
  split
  · rename_i hstopped
    exact ⟨rfl, rfl, rfl, hstopped, rfl⟩
  · rename_i hrunning
    rw [if_neg hrunning] at h
    split
    · rename_i hnone
      rw [hnone] at h
      cases h
    · rename_i last hlast
      rw [hlast] at h
      simp only at h
      split
      · exact ⟨rfl, rfl, rfl, rfl, rfl⟩
      · rename_i position hposition
        rw [hposition] at h
        simp only at h
        split
        · exact ⟨rfl, rfl, rfl, rfl, rfl⟩
        · rename_i p hall
          rw [hall] at h
          cases h

/-- A dispatch of events that succeeds completes them. -/
theorem dispatch_of_ok {batch : List Event} (hne : batch ≠ [])
    (h : (m.dispatch context batch).error = none) :
    m.stopped = false ∧ ∃ last position p, batch.getLast? = some last ∧
      last.position = .ok position ∧
      m.applyAll context { handlers := m.handlers } (m.presented batch) = (p, none) ∧
      m.dispatch context batch = m.completed p position := by
  unfold dispatch at h ⊢
  split at h
  · cases h
  · rename_i hrunning
    rw [if_neg hrunning]
    refine ⟨by simpa using hrunning, ?_⟩
    split at h
    · rename_i hnone
      exact absurd (List.getLast?_eq_none_iff.1 hnone) hne
    · rename_i last hlast
      split at h
      · cases h
      · rename_i position hposition
        split at h
        · cases h
        · rename_i p hall
          exact ⟨last, position, p, hlast, hposition, hall, rfl⟩

/-- A dispatch of no events changes nothing. -/
theorem manager_dispatch_nil (m : ViewManager V) (context : ViewContext) :
    (m.dispatch context []).manager = m := by
  unfold dispatch
  split <;> rfl

/-- After a dispatch that succeeds, a view is what the events that are new to it have made of it. -/
theorem view?_dispatch {batch : List Event} (hne : batch ≠ [])
    (h : (m.dispatch context batch).error = none) (id : String) :
    (m.news context batch id = [] →
      (m.dispatch context batch).manager.view? id = m.view? id) ∧
    (m.news context batch id ≠ [] → ∃ view,
      (m.news context batch id).foldlM m.next? (m.viewOrNew id) = some view ∧
      (m.dispatch context batch).manager.view? id = some view ∧
      (m.dispatch context batch).manager.view? id ≠ m.view? id) := by
  obtain ⟨_, last, position, p, _, _, hall, hdispatch⟩ := dispatch_of_ok hne h
  obtain ⟨hfold, hchanged⟩ := applyAll_touch (fun _ => rfl) hall id
  have hfresh : m.touch (Table.empty : Working V) id = ⟨m.viewOrNew id, false⟩ := rfl
  simp only [hfresh, Bool.false_eq_true, false_or] at hfold hchanged
  rw [hdispatch, view?_completed]
  change (m.touch p.working id).changed = true ↔ m.news context batch id ≠ [] at hchanged
  unfold shown
  unfold touch at hfold hchanged
  constructor
  · intro hnone
    cases hget : p.working.get? id with
    | none => rfl
    | some t =>
      rw [hget, Option.getD_some] at hchanged
      have hunchanged : t.changed = false := by simpa [hnone] using hchanged
      simp [hunchanged]
  · intro hsome
    cases hget : p.working.get? id with
    | none =>
      rw [hget] at hchanged
      cases hchanged.2 hsome
    | some t =>
      rw [hget, Option.getD_some] at hfold hchanged
      have hlast := (lt_last_of_newTo hfold).2 hsome
      refine ⟨t.view, hfold, by simp [hchanged.2 hsome], ?_⟩
      -- The view has moved on, so it is not the one from before.
      simp only [hchanged.2 hsome, if_true]
      intro hsame
      have hview : m.viewOrNew id = t.view := by rw [viewOrNew, ← hsame, Option.getD_some]
      rw [hview] at hlast
      exact Int.lt_irrefl _ hlast

/-- Subscribers are told about the views that some event was new to, in the order in which the batch
touches them. -/
theorem ids_changes_dispatch {batch : List Event} {p : Progress V}
    (hall : m.applyAll context { handlers := m.handlers } (m.presented batch) = (p, none)) :
    (changes p.working).map Prod.fst
      = (m.touched context (m.presented batch)).filter fun id =>
          decide (m.news context batch id ≠ []) := by
  have horder : p.working.keys = m.touched context (m.presented batch) := by
    rw [keys_applyAll (fun _ => rfl) hall, foldl_addKey]
    simp [touched]
  rw [ids_changes m, horder]
  refine List.filter_congr fun id _ => ?_
  rw [Bool.eq_iff_iff, (applyAll_touch (fun _ => rfl) hall id).2, decide_eq_true_eq]
  exact or_iff_right Bool.false_ne_true

end ViewManager

/-! ### Runs -/

/-- What may be done to a view manager. -/
inductive ManagerStep where
  /-- A batch of events is dispatched. -/
  | dispatch (context : ViewContext) (batch : List Event)
  /-- One view is forgotten. -/
  | delete (id : String)
  /-- All views are forgotten. -/
  | purge

namespace ManagerStep

variable {V : Type}

/-- The manager after a step. -/
def run (m : ViewManager V) : ManagerStep → ViewManager V
  | dispatch context batch => (m.dispatch context batch).manager
  | delete id => (m.delete id).2
  | purge => m.purge

/-- The manager after steps. -/
def runAll (steps : List ManagerStep) (m : ViewManager V) : ViewManager V := steps.foldl run m

/-- Only a purge moves a manager back. -/
theorem position_le_run {step : ManagerStep} (h : step ≠ purge) (m : ViewManager V) :
    m.position ≤ (step.run m).position := by
  cases step with
  | dispatch context batch =>
    show m.position ≤ (m.dispatch context batch).manager.position
    by_cases hbatch : batch = []
    · subst hbatch
      exact Int.le_of_eq (congrArg ViewManager.position (m.manager_dispatch_nil context)).symm
    · cases herror : (m.dispatch context batch).error with
      | some err => exact Int.le_of_eq (ViewManager.dispatch_of_error herror).2.1.symm
      | none =>
        obtain ⟨_, _, position, p, _, _, _, hdispatch⟩ := ViewManager.dispatch_of_ok hbatch herror
        rw [hdispatch]
        exact Int.le_max_left _ _
  | delete id => exact Int.le_refl _
  | purge => exact absurd rfl h

theorem position_le_runAll {steps : List ManagerStep} (h : purge ∉ steps) (m : ViewManager V) :
    m.position ≤ (runAll steps m).position := by
  induction steps generalizing m with
  | nil => exact Int.le_refl _
  | cons step rest ih =>
    rw [List.mem_cons, not_or] at h
    exact Int.le_trans (position_le_run (Ne.symm h.1) m) (ih h.2 _)

/-- Only a purge starts a stopped manager again. -/
theorem stopped_run {step : ManagerStep} (h : step ≠ purge) {m : ViewManager V}
    (hm : m.stopped = true) : (step.run m).stopped = true ∧ (step.run m).id = m.id := by
  cases step with
  | dispatch context batch =>
    show (m.dispatch context batch).manager.stopped = true ∧ (m.dispatch context batch).manager.id = _
    rw [ViewManager.dispatch_of_stopped hm]
    exact ⟨hm, rfl⟩
  | delete id => exact ⟨hm, rfl⟩
  | purge => exact absurd rfl h

theorem stopped_runAll {steps : List ManagerStep} (h : purge ∉ steps) {m : ViewManager V}
    (hm : m.stopped = true) : (runAll steps m).stopped = true ∧ (runAll steps m).id = m.id := by
  induction steps generalizing m with
  | nil => exact ⟨hm, rfl⟩
  | cons step rest ih =>
    rw [List.mem_cons, not_or] at h
    obtain ⟨hstopped, hid⟩ := stopped_run (Ne.symm h.1) hm
    obtain ⟨hstopped', hid'⟩ := ih h.2 hstopped
    exact ⟨hstopped', hid'.trans hid⟩

end ManagerStep

/-- **Dispatch is all or nothing.** Of any manager, in either mode, and any batch: if `m.dispatch` fails,
`views` and `position` are as before, there is no `notice`, and until the manager is purged every dispatch
is refused (`ViewDispatchError.stopped`) and changes nothing. If a batch of events is dispatched with
success, the manager has come to `max m.position` of the last of them, the views that have changed are
those that some event was new to (`m.news`), and subscribers are told about these in the order in which
the batch touched them (`m.touched`), if there are any. Nothing but a purge moves the manager back. -/
theorem ViewManager.dispatch_all_or_nothing {V : Type} (m : ViewManager V) (context : ViewContext)
    (batch : List Event) :
    let d := m.dispatch context batch
    -- A dispatch that fails.
    (∀ err, d.error = some err →
      d.manager.views = m.views ∧ d.manager.position = m.position ∧ d.notice = none ∧
      d.manager.stopped = true ∧
      ∀ steps : List ManagerStep, ManagerStep.purge ∉ steps →
        ∀ (context' : ViewContext) (batch' : List Event),
          let later := ManagerStep.runAll steps d.manager
          later.dispatch context' batch' = { manager := later, error := some (.stopped m.id) }) ∧
    -- A dispatch of no events that succeeds.
    (batch = [] → d.error = none → d.manager = m ∧ d.notice = none) ∧
    -- A dispatch of events that succeeds.
    (batch ≠ [] → d.error = none → ∃ last position, batch.getLast? = some last ∧
      last.position = .ok position ∧
      d.manager.position = max m.position position ∧ d.manager.stopped = false ∧
      -- A view has changed if some event was new to it, and it is what these have made of it.
      (∀ id, (m.news context batch id = [] → d.manager.view? id = m.view? id) ∧
        (m.news context batch id ≠ [] → ∃ view,
          (m.news context batch id).foldlM m.next? (m.viewOrNew id) = some view ∧
          d.manager.view? id = some view ∧ d.manager.view? id ≠ m.view? id)) ∧
      -- Subscribers are told about the changed views.
      let changed := (m.touched context (m.presented batch)).filter fun id =>
        decide (m.news context batch id ≠ [])
      d.notice = if changed = [] then none else some ⟨m.id, d.manager.position, changed⟩) ∧
    -- The position never decreases without a purge.
    (∀ steps : List ManagerStep, ManagerStep.purge ∉ steps →
      m.position ≤ (ManagerStep.runAll steps m).position) := by
  intro d
  refine ⟨?failed, ?empty, ?completed, fun steps hsteps => ManagerStep.position_le_runAll hsteps m⟩
  case failed =>
    intro err herror
    obtain ⟨hviews, hposition, hid, hstopped, hnotice⟩ := dispatch_of_error herror
    refine ⟨hviews, hposition, hnotice, hstopped, fun steps hsteps context' batch' => ?_⟩
    obtain ⟨hlater, hid'⟩ := ManagerStep.stopped_runAll hsteps hstopped
    intro later
    rw [dispatch_of_stopped hlater, hid', hid]
  case empty =>
    rintro rfl herror
    have hrunning : ¬ m.stopped = true := by
      intro hstopped
      have hd : d.error = some (.stopped m.id) := by
        show (m.dispatch context []).error = _
        rw [dispatch_of_stopped hstopped]
      rw [hd] at herror
      cases herror
    show (m.dispatch context []).manager = m ∧ (m.dispatch context []).notice = none
    rw [dispatch, if_neg hrunning]
    exact ⟨rfl, rfl⟩
  case completed =>
    intro hne herror
    obtain ⟨hrunning, last, position, p, hlast, hposition, hall, hdispatch⟩ :=
      dispatch_of_ok hne herror
    have hd : d = m.completed p position := hdispatch
    refine ⟨last, position, hlast, hposition, by rw [hd]; rfl, by rw [hd]; exact hrunning,
      view?_dispatch hne herror, ?_⟩
    intro changed
    have hchanged : (changes p.working).map Prod.fst = changed := ids_changes_dispatch hall
    rw [hd]
    show m.noticeOf (max m.position position) (changes p.working) = _
    rw [noticeOf, hchanged]
    refine if_congr ?_ rfl rfl
    rw [← hchanged, List.map_eq_nil_iff, List.isEmpty_iff]

end Chronicle
