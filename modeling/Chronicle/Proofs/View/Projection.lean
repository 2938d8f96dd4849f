import Chronicle.View.Manager

namespace Chronicle

/-!
# Views as a fold of the log

* `DispatchTable.Sound` — remembered answers are right, so that a table answers what a search does.
* `Projection` — what decides about the views of one kind: the locator with its context, the initial
  state, the handlers.
* `Projection.fold` — the views that events make when they are applied one by one to no views. It
  looks at one event at a time and knows of no batches, no positions and no errors met before.
* `Projection.foldFrom_append` — events can be applied in two parts.
* `Projection.before_of_fold` — a view has seen no event that was not applied.
-/

/-! ### Remembered answers -/

namespace DispatchTable

variable {H : Type} {t : DispatchTable H}

/-- Every remembered answer is what a search finds. -/
def Sound (t : DispatchTable H) : Prop :=
  ∀ ⦃tag : String⦄ ⦃answer : Option H⦄, t.resolved.get? tag = some answer →
    answer = search t.hierarchy t.handlers tag

theorem sound_unasked (hierarchy : Hierarchy) (handlers : Table String H) :
    Sound { hierarchy, handlers } := by
  intro tag answer h
  cases h

/-- A sound table answers what a search finds. -/
theorem Sound.handler?_eq (h : t.Sound) (tag : String) :
    t.handler? tag = search t.hierarchy t.handlers tag := by
  unfold handler? resolve
  split
  · exact h ‹_›
  · rfl

/-- A table that was asked is still sound. -/
theorem Sound.asked (h : t.Sound) (tag : String) : (t.asked tag).Sound := by
  unfold DispatchTable.asked resolve
  split
  · exact h
  · intro tag' answer hget
    rw [Table.get?_insert] at hget
    split at hget
    · rename_i htag
      rw [htag]
      exact (Option.some.inj hget).symm
    · exact h hget

/-- Asking for tags one after the other changes only what is remembered. -/
theorem foldl_asked (h : t.Sound) (tags : List String) :
    (tags.foldl DispatchTable.asked t).Sound ∧
      (tags.foldl DispatchTable.asked t).hierarchy = t.hierarchy ∧
      (tags.foldl DispatchTable.asked t).handlers = t.handlers := by
  induction tags generalizing t with
  | nil => exact ⟨h, rfl, rfl⟩
  | cons tag rest ih =>
    obtain ⟨hsound, hhierarchy, hhandlers⟩ := ih (h.asked tag)
    exact ⟨hsound, hhierarchy.trans (hierarchy_asked t tag),
      hhandlers.trans (handlers_asked t tag)⟩

end DispatchTable

/-! ### Projections -/

/-- Views by id. -/
abbrev Views (V : Type) := Table String (ViewInstance V)

/-- What decides about the views of one kind. -/
structure Projection (V : Type) where
  /-- Which views an event affects. -/
  locator : Locator
  /-- What the locator looks at besides. -/
  context : ViewContext
  /-- The state of a view without any event. -/
  initial : V
  /-- Which tags an event type matches. -/
  hierarchy : Hierarchy
  /-- What views make of events, by registered tag. -/
  handlers : Table String (ViewHandler V)

namespace Projection

variable {V : Type} (P : Projection V)

/-- What views make of events with a tag; none if the tag is not subscribed to. -/
def handler? (tag : String) : Option (ViewHandler V) :=
  DispatchTable.search P.hierarchy P.handlers tag

/-- The view with an id, or a fresh one. -/
def viewOrNew (views : Views V) (id : String) : ViewInstance V :=
  (views.get? id).getD ⟨id, ViewManager.noPosition, P.initial⟩

/-- Apply the event at a position to one view. -/
def update (handle : ViewHandler V) (e : Event) (position : Int) (views : Views V) (id : String) :
    Except AppError (Views V) :=
  (handle (P.viewOrNew views id).state e).map fun state =>
    views.insert id { P.viewOrNew views id with last := position, state }

/-- Apply the event at a position to every view it affects, to each once. -/
def apply (position : Int) (views : Views V) (e : Event) : Except AppError (Views V) :=
  match P.handler? e.tag with
  | none => .ok views
  | some handle =>
    match P.locator P.context e with
    | .error err => .error err
    | .ok ids => ids.eraseDups.foldlM (P.update handle e position) views

/-- Apply events one by one; the first one stands at a position. -/
def foldFrom : Nat → Views V → List Event → Except AppError (Views V)
  | _, views, [] => .ok views
  | position, views, e :: rest =>
    match P.apply position views e with
    | .error err => .error err
    | .ok views => foldFrom (position + 1) views rest

/-- The views that the events of a log make of no views. -/
def fold (events : List Event) : Except AppError (Views V) := P.foldFrom 0 Table.empty events

/-- A dispatch table that answers what the projection says. -/
structure Handles (t : DispatchTable (ViewHandler V)) : Prop where
  /-- The hierarchy is the one of the projection. -/
  hierarchy : t.hierarchy = P.hierarchy
  /-- The handlers are those of the projection. -/
  handlers : t.handlers = P.handlers
  /-- What is remembered is right. -/
  sound : t.Sound

variable {P}

theorem Handles.handler?_eq {t : DispatchTable (ViewHandler V)} (h : P.Handles t) (tag : String) :
    t.handler? tag = P.handler? tag := by
  rw [h.sound.handler?_eq, h.hierarchy, h.handlers]
  rfl

theorem Handles.asked {t : DispatchTable (ViewHandler V)} (h : P.Handles t) (tag : String) :
    P.Handles (t.asked tag) :=
  ⟨by rw [DispatchTable.hierarchy_asked, h.hierarchy],
    by rw [DispatchTable.handlers_asked, h.handlers], h.sound.asked tag⟩

/-! ### Folding -/

/-- Events are applied if the first one is applied and the others are applied to what it makes. -/
theorem foldFrom_cons_eq_ok {position : Nat} {views views' : Views V} {e : Event}
    {rest : List Event} : P.foldFrom position views (e :: rest) = .ok views' ↔
      ∃ views₁, P.apply position views e = .ok views₁ ∧
        P.foldFrom (position + 1) views₁ rest = .ok views' := by
  rw [foldFrom]
  cases P.apply position views e <;> simp

/-- Events can be applied in two parts. -/
theorem foldFrom_append {position : Nat} {views views' : Views V} {events : List Event}
    (h : P.foldFrom position views events = .ok views') (later : List Event) :
    P.foldFrom position views (events ++ later)
      = P.foldFrom (position + events.length) views' later := by
  induction events generalizing position views with
  | nil =>
    cases h
    rfl
  | cons e rest ih =>
    obtain ⟨views₁, hfirst, hrest⟩ := foldFrom_cons_eq_ok.1 h
    rw [List.cons_append, foldFrom, hfirst, List.length_cons, Nat.add_comm rest.length 1,
      ← Nat.add_assoc]
    exact ih hrest

/-- No view has seen an event at or behind a position. -/
def Before (position : Int) (views : Views V) : Prop :=
  ∀ ⦃id : String⦄ ⦃view : ViewInstance V⦄, views.get? id = some view → view.last < position

theorem Before.viewOrNew_last_lt {position : Int} {views : Views V} (h : Before position views)
    (hposition : 0 ≤ position) (id : String) : (P.viewOrNew views id).last < position := by
  unfold viewOrNew
  cases hget : views.get? id with
  | none =>
    show ViewManager.noPosition < position
    unfold ViewManager.noPosition
    omega
  | some view => exact h hget

/-- A view that is updated has seen the event. -/
theorem Before.update {handle : ViewHandler V} {e : Event} {position bound : Int}
    {views views' : Views V} {id : String} (h : Before bound views) (hlt : position < bound)
    (hupdate : P.update handle e position views id = .ok views') : Before bound views' := by
  unfold Projection.update at hupdate
  cases hstate : handle (P.viewOrNew views id).state e with
  | error err =>
    rw [hstate] at hupdate
    cases hupdate
  | ok state =>
    rw [hstate] at hupdate
    cases hupdate
    intro id' view hget
    rw [Table.get?_insert] at hget
    split at hget
    · cases hget
      exact hlt
    · exact h hget

/-- Views that are updated have seen the event. -/
theorem Before.updateAll {handle : ViewHandler V} {e : Event} {position bound : Int}
    {views views' : Views V} {ids : List String} (h : Before bound views) (hlt : position < bound)
    (hupdate : ids.foldlM (P.update handle e position) views = .ok views') :
    Before bound views' := by
  induction ids generalizing views with
  | nil =>
    cases hupdate
    exact h
  | cons id rest ih =>
    rw [List.foldlM_cons] at hupdate
    cases hfirst : P.update handle e position views id with
    | error err =>
      rw [hfirst] at hupdate
      cases hupdate
    | ok views₁ =>
      rw [hfirst] at hupdate
      exact ih (h.update hlt hfirst) hupdate

/-- No view has seen more than the event that was applied last. -/
theorem Before.apply {position : Int} {views views' : Views V} {e : Event}
    (h : Before position views) (happly : P.apply position views e = .ok views') :
    Before (position + 1) views' := by
  have hnext : Before (position + 1) views := by
    intro id view hget
    have := h hget
    omega
  unfold Projection.apply at happly
  split at happly
  · cases happly
    exact hnext
  · split at happly
    · cases happly
    · exact hnext.updateAll (by omega) happly

/-- No view has seen an event that was not applied. -/
theorem Before.foldFrom {position : Nat} {views views' : Views V} {events : List Event}
    (h : Before position views) (hfold : P.foldFrom position views events = .ok views') :
    Before ((position + events.length : Nat) : Int) views' := by
  induction events generalizing position views with
  | nil =>
    cases hfold
    exact h
  | cons e rest ih =>
    obtain ⟨views₁, hfirst, hrest⟩ := foldFrom_cons_eq_ok.1 hfold
    have hnext : Before ((position + 1 : Nat) : Int) views₁ := by
      push_cast
      exact h.apply hfirst
    rw [List.length_cons, Nat.add_comm rest.length 1, ← Nat.add_assoc]
    exact ih hnext hrest

/-- A view that events make of no views has seen none but these. -/
theorem before_of_fold {views : Views V} {events : List Event} (h : P.fold events = .ok views) :
    Before events.length views := by
  have hempty : Before ((0 : Nat) : Int) (Table.empty : Views V) := by
    intro id view hget
    cases hget
  have hbefore := hempty.foldFrom h
  rwa [Nat.zero_add] at hbefore

end Projection

end Chronicle
