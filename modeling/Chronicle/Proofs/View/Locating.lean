import Chronicle.Proofs.Data.Distinct
import Chronicle.Proofs.View.Splitting

namespace Chronicle

/-!
# Batches are located as their events are

* `Event.root_eq_error_iff` — an event without a root says so.
* `Locator.rootsOf_eq_ok_iff`, `Locator.rootsOf_eq_error_iff` — the roots of events, or the first event
  that has none.
* `Locator.mapM_perRoot` — what is located for events one by one.
* `ViewManager.keys_of_perRoot` — the views that a dispatch touches, one for each root.
* `Locator.perRoot_batch` — a batch can be read back, stands where its last event stands, and affects
  the views that its events affect.
-/

namespace Event

/-- Reading the root of an event fails if there is none. -/
theorem root_eq_error_iff (e : Event) (err : EventError) : e.root = .error err ↔
    e.metadata.get? Metadata.Key.root = none ∧ err = .missing e.tag Metadata.Key.root := by
  rw [root, require]
  cases e.metadata.get? Metadata.Key.root <;> simp [eq_comm]

/-- A batch carries the metadata of its last event. -/
theorem metadata_batch (events : List Event) :
    (batch events).metadata = (events.getLast?.map Event.metadata).getD Dict.empty := by
  unfold batch
  cases events.getLast? <;> rfl

end Event

namespace Locator

variable {events : List Event} {roots : List String} {err : AppError} {context : ViewContext}

/-! ### The roots of events -/

theorem rootOf_eq_ok_iff {e : Event} {root : String} : rootOf e = .ok root ↔ e.root = .ok root := by
  unfold rootOf
  cases e.root <;> simp

theorem rootOf_eq_error_iff {e : Event} : rootOf e = .error err ↔
    e.metadata.get? Metadata.Key.root = none ∧
      err = .event (.missing e.tag Metadata.Key.root) := by
  unfold rootOf
  cases hroot : e.root with
  | ok root => simp [(Event.root_eq_ok_iff e root).1 hroot]
  | error cause =>
    obtain ⟨hnone, rfl⟩ := (Event.root_eq_error_iff e cause).1 hroot
    simp [hnone, eq_comm]

theorem rootsOf_cons (e : Event) (rest : List Event) :
    rootsOf (e :: rest) = (rootOf e).bind fun root => (rootsOf rest).map (root :: ·) := by
  rw [rootsOf]
  cases rootOf e with
  | error err => rfl
  | ok root => cases rootsOf rest <;> rfl

/-- The roots of events are read if every event has one. -/
theorem rootsOf_eq_ok_iff : rootsOf events = .ok roots ↔ events.map Event.root = roots.map .ok := by
  induction events generalizing roots with
  | nil => cases roots <;> simp [rootsOf]
  | cons e rest ih =>
    rw [rootsOf_cons, List.map_cons]
    cases hroot : rootOf e with
    | error err =>
      have hnot : ∀ root, e.root ≠ .ok root := fun root h => by
        rw [rootOf_eq_ok_iff.2 h] at hroot
        cases hroot
      cases roots <;> simp [hnot, Except.bind]
    | ok root =>
      rw [rootOf_eq_ok_iff.1 hroot]
      cases roots with
      | nil => cases rootsOf rest <;> simp [Except.bind, Except.map]
      | cons root' roots =>
        rw [List.map_cons, List.cons.injEq, ← ih]
        cases rootsOf rest <;> simp [Except.bind, Except.map]

theorem mem_rootsOf (h : rootsOf events = .ok roots) (id : String) :
    id ∈ roots ↔ ∃ e ∈ events, e.root = .ok id := by
  have hroots : .ok id ∈ events.map Event.root ↔ id ∈ roots := by
    rw [rootsOf_eq_ok_iff.1 h]
    simp
  rw [← hroots, List.mem_map]

/-- Reading them fails at the first event that has none. -/
theorem rootsOf_eq_error_iff : rootsOf events = .error err ↔ ∃ before e after,
    events = before ++ e :: after ∧ (∀ x ∈ before, x.metadata.get? Metadata.Key.root ≠ none) ∧
      e.metadata.get? Metadata.Key.root = none ∧
      err = .event (.missing e.tag Metadata.Key.root) := by
  induction events with
  | nil =>
    refine iff_of_false nofun ?_
    rintro ⟨before, e, after, hsplit, -⟩
    simp at hsplit
  | cons e rest ih =>
    rw [rootsOf_cons]
    cases hroot : rootOf e with
    | error cause =>
      -- It is the first event itself.
      obtain ⟨hnone, rfl⟩ := rootOf_eq_error_iff.1 hroot
      constructor
      · rintro ⟨⟩
        exact ⟨[], e, rest, rfl, nofun, hnone, rfl⟩
      · rintro ⟨before, e', after, hsplit, hbefore, -, rfl⟩
        rcases List.cons_eq_append_iff.1 hsplit with ⟨rfl, hfirst⟩ | ⟨before, rfl, -⟩
        · cases hfirst
          rfl
        · exact absurd hnone (hbefore e List.mem_cons_self)
    | ok root =>
      have hsome : e.metadata.get? Metadata.Key.root ≠ none := by
        rw [(Event.root_eq_ok_iff e root).1 (rootOf_eq_ok_iff.1 hroot)]
        exact nofun
      have hrest : (rootsOf rest).map (root :: ·) = .error err ↔ rootsOf rest = .error err := by
        cases rootsOf rest <;> simp [Except.map]
      rw [Except.bind, hrest, ih]
      constructor
      · rintro ⟨before, e', after, rfl, hbefore, hfails⟩
        exact ⟨e :: before, e', after, rfl, List.forall_mem_cons.2 ⟨hsome, hbefore⟩, hfails⟩
      · rintro ⟨before, e', after, hsplit, hbefore, hnone, herr⟩
        rcases List.cons_eq_append_iff.1 hsplit with ⟨rfl, hfirst⟩ | ⟨before, rfl, hlater⟩
        · cases hfirst
          exact absurd hnone hsome
        · exact ⟨before, e', after, hlater, (List.forall_mem_cons.1 hbefore).2, hnone, herr⟩

/-- All roots are read exactly if no event is without one. -/
theorem exists_rootsOf_iff : (∃ roots, rootsOf events = .ok roots) ↔
    ∀ e ∈ events, e.metadata.get? Metadata.Key.root ≠ none := by
  cases hroots : rootsOf events with
  | ok roots =>
    refine iff_of_true ⟨_, rfl⟩ fun e he hnone => ?_
    have hmem : e.root ∈ roots.map .ok := rootsOf_eq_ok_iff.1 hroots ▸ List.mem_map_of_mem he
    obtain ⟨root, -, hroot⟩ := List.mem_map.1 hmem
    rw [(Event.root_eq_ok_iff e root).1 hroot.symm] at hnone
    cases hnone
  | error err =>
    obtain ⟨before, e, after, rfl, -, hnone, -⟩ := rootsOf_eq_error_iff.1 hroots
    refine iff_of_false nofun fun hall => ?_
    exact hall e (List.mem_append_right _ List.mem_cons_self) hnone

/-! ### Locating -/

/-- A batch affects the views of its roots. -/
theorem perRoot_batch_eq (context : ViewContext) (events : List Event) :
    perRoot context (Event.batch events) = (rootsOf events).map List.eraseDups := by
  rw [perRoot, Event.batched?_batch]

/-- An event that holds no batch affects the view of its root. -/
theorem perRoot_single {e : Event} (h : e.batched? = none) (context : ViewContext) :
    perRoot context e = (rootOf e).map fun root => [root] := by
  rw [perRoot, h]

/-- What is located for events one by one: the view of each root, or the first error. -/
theorem mapM_perRoot (h : ∀ e ∈ events, e.batched? = none) (context : ViewContext) :
    events.mapM (perRoot context) = (rootsOf events).map fun roots => roots.map fun root => [root] := by
  induction events with
  | nil => rfl
  | cons e rest ih =>
    rw [List.mapM_cons, perRoot_single (h e List.mem_cons_self),
      ih fun x hx => h x (List.mem_cons_of_mem _ hx), rootsOf_cons]
    cases rootOf e with
    | error err => rfl
    | ok root => cases rootsOf rest <;> rfl

end Locator

/-- A manager with a view for each root that applies events one by one touches the views of their
roots, if somebody subscribes to each of them. -/
theorem ViewManager.keys_of_perRoot {V : Type} {m : ViewManager V} {context : ViewContext}
    {events : List Event} {p : ViewManager.Progress V} (hlocator : m.locator = Locator.perRoot)
    (hsubscribed : ∀ e ∈ events, m.handlers.handles e.tag = true)
    (hsingle : ∀ e ∈ events, e.batched? = none)
    (hall : m.applyAll context { handlers := m.handlers } events = (p, none)) :
    ∃ roots, Locator.rootsOf events = .ok roots ∧ p.working.keys = roots.eraseDups := by
  have haffected : ∀ e ∈ events, ∃ root, e.root = .ok root ∧ m.affected context e = [root] := by
    intro e he
    obtain ⟨handle, hhandle⟩ := Option.isSome_iff_exists.1 (hsubscribed e he)
    obtain ⟨-, ids, hids⟩ := readable_of_applyAll (fun _ => rfl) hall e he (by simp [hhandle])
    have hlocated := hids
    rw [hlocator, Locator.perRoot_single (hsingle e he)] at hlocated
    cases hroot : Locator.rootOf e with
    | error err =>
      rw [hroot] at hlocated
      cases hlocated
    | ok root =>
      rw [hroot] at hlocated
      cases hlocated
      exact ⟨root, Locator.rootOf_eq_ok_iff.1 hroot, affected_of_some hhandle hids⟩
  refine ⟨events.flatMap (m.affected context), Locator.rootsOf_eq_ok_iff.2 ?_, ?_⟩
  · rw [List.map_flatMap, List.map_eq_flatMap]
    refine List.flatMap_congr fun e he => ?_
    obtain ⟨root, hroot, hids⟩ := haffected e he
    rw [hroot, hids]
    rfl
  · rw [keys_applyAll (fun _ => rfl) hall, foldl_addKey]
    simp

/-- **A batch affects the views of its events.** Of any events, `Event.batch` gives them back by
`batched?`, and carries the metadata of the last of them. With `Locator.perRoot` it affects the views of
their roots, each once, in the order in which the roots come up (`FirstsOf`), or else the first event
without a root is the error. If the events hold no batches themselves, that is what is located for them one
by one, and these are the views that a manager touches which applies them one by one (`applyAll`). -/
theorem Locator.perRoot_batch (events : List Event) (context : ViewContext) :
    (Event.batch events).batched? = some (.ok events) ∧
    (Event.batch events).metadata = (events.getLast?.map Event.metadata).getD Dict.empty ∧
    (∀ roots, events.map Event.root = roots.map .ok →
      ∃ ids, perRoot context (Event.batch events) = .ok ids ∧ FirstsOf roots ids) ∧
    ((∃ ids, perRoot context (Event.batch events) = .ok ids) ↔
      ∀ e ∈ events, e.metadata.get? Metadata.Key.root ≠ none) ∧
    (∀ err, perRoot context (Event.batch events) = .error err ↔ ∃ before e after,
      events = before ++ e :: after ∧ (∀ x ∈ before, x.metadata.get? Metadata.Key.root ≠ none) ∧
        e.metadata.get? Metadata.Key.root = none ∧
        err = .event (.missing e.tag Metadata.Key.root)) ∧
    -- Against the events one by one.
    ((∀ e ∈ events, e.batched? = none) →
      perRoot context (Event.batch events)
        = (events.mapM (perRoot context)).map (fun located => located.flatten.eraseDups) ∧
      ∀ {V : Type} (m : ViewManager V) (p : ViewManager.Progress V), m.locator = perRoot →
        (∀ e ∈ events, m.handlers.handles e.tag = true) →
        m.applyAll context { handlers := m.handlers } events = (p, none) →
        perRoot context (Event.batch events) = .ok p.working.keys) := by
  rw [perRoot_batch_eq]
  refine ⟨Event.batched?_batch events, Event.metadata_batch events, fun roots hroots => ?roots, ?ok,
    fun err => ?error, fun hsingle => ⟨?located, fun m p hlocator hsubscribed hall => ?touched⟩⟩
  case roots =>
    rw [rootsOf_eq_ok_iff.2 hroots]
    exact ⟨_, rfl, firstsOf_eraseDups roots⟩
  case ok =>
    rw [← exists_rootsOf_iff]
    cases rootsOf events <;> simp [Except.map]
  case error =>
    rw [← rootsOf_eq_error_iff]
    cases rootsOf events <;> simp [Except.map]
  case located =>
    rw [mapM_perRoot hsingle]
    cases rootsOf events with
    | error err => rfl
    | ok roots =>
      show Except.ok roots.eraseDups = .ok ((roots.map fun root => [root]).flatten.eraseDups)
      rw [← List.flatMap_def, List.flatMap_singleton']
  case touched =>
    obtain ⟨roots, hroots, hkeys⟩ := ViewManager.keys_of_perRoot hlocator hsubscribed hsingle hall
    rw [hroots, hkeys]
    rfl

end Chronicle
