import Chronicle.Proofs.Aggregate.Refusals
import Chronicle.Proofs.Command.Emissions
import Chronicle.Proofs.Data.Distinct
import Mathlib.Data.Set.List

namespace Chronicle

/-!
# What a unit of work holds

Roots are acquired and events emitted on them in any order, while the store changes in between.

* `Root.kept` — the events of some calls that a root keeps.
* `WorkStep` — a step with a unit of work. `WorkStep.runAll` takes many.
* `WorkStep.acquired` — the ids under which steps acquire roots.
* `Acquired` — one of the steps is an acquisition of a root; `Acquired.held` is the root after the calls
  that emit on it later.
* `UnitOfWork.roots_stay` — a root that was acquired stays at hand with all that was emitted on it, and
  the roots are taken in the order in which they were acquired first.
-/

/-! ### Events that are kept -/

namespace Root

variable {S : Type}

/-- The events of some calls that a root keeps, in order: those that it takes, with its mark. -/
def kept (T : AggregateType S) : Root S → List (Except AppError Event) → List Event
  | _, [] => []
  | r, .error _ :: rest => kept T r rest
  | r, .ok e :: rest =>
    (if (r.emit T e).2.isNone then [r.mark T e] else []) ++ kept T (r.emit T e).1 rest

/-- Calls add the events that are kept to the uncommitted ones, and leave the numbers alone. -/
theorem offerAll_pending (T : AggregateType S) (r : Root S) (calls : List (Except AppError Event)) :
    (r.offerAll T calls).sequence = r.sequence ∧
      (r.offerAll T calls).uncommitted = r.uncommitted ++ r.kept T calls := by
  induction calls generalizing r with
  | nil => exact ⟨rfl, (List.append_nil _).symm⟩
  | cons made rest ih =>
    rcases made with err | e
    · exact ih r
    · obtain ⟨hsequence, huncommitted⟩ := ih (r.emit T e).1
      refine ⟨hsequence.trans (sequence_emit T r e), huncommitted.trans ?_⟩
      rw [uncommitted_emit, kept]
      split
      · exact List.append_assoc _ _ _
      · rfl

end Root

/-! ### Steps -/

/-- A step with a unit of work, or one that the rest of the world takes. -/
inductive WorkStep (σ κ : Type) where
  /-- A root is acquired. -/
  | acquire (mode : Acquisition) (kind : κ) (id : String)
  /-- A call emits an event on a root at hand, or fails to make the event. -/
  | emit (id : String) (made : Except AppError Event)
  /-- The store, the snapshots and the time are other ones. -/
  | change (b : Backing σ)

namespace WorkStep

variable {σ κ S : Type}

/-- The calls that emit on the root with an id. -/
def calls (id : String) (steps : List (WorkStep σ κ)) : List (Except AppError Event) :=
  steps.filterMap fun
    | emit id' made => if id' = id then some made else none
    | _ => none

variable [DecidableEq κ] (types : κ → AggregateType S) (repo : Repository σ)

/-- What a step makes of a unit of work and of what it loads from. -/
def run : WorkStep σ κ → UnitOfWork κ S × Backing σ → UnitOfWork κ S × Backing σ
  | acquire mode kind id, w => (w.1.acquire types repo mode kind id w.2).2
  | emit id (.ok e), w => ((w.1.emit types id e).2, w.2)
  | emit _ (.error _), w => w
  | change b, w => (w.1, b)

/-- What steps make of a unit of work and of what it loads from. -/
def runAll (steps : List (WorkStep σ κ)) (w : UnitOfWork κ S × Backing σ) :
    UnitOfWork κ S × Backing σ :=
  steps.foldl (fun w step => step.run types repo w) w

/-- The id under which a step acquires a root, if it does. -/
def acquires : WorkStep σ κ → UnitOfWork κ S × Backing σ → List String
  | acquire mode kind id, w =>
    match (w.1.acquire types repo mode kind id w.2).1 with
    | .ok (some _) => [id]
    | _ => []
  | emit _ _, _ => []
  | change _, _ => []

/-- The ids under which steps acquire roots, each time that one does. -/
def acquired : List (WorkStep σ κ) → UnitOfWork κ S × Backing σ → List String
  | [], _ => []
  | step :: rest, w => step.acquires types repo w ++ acquired rest (step.run types repo w)

end WorkStep

/-! ### Acquisitions again -/

namespace UnitOfWork

variable {σ κ S : Type} [DecidableEq κ] {types : κ → AggregateType S} {repo : Repository σ}
  {u : UnitOfWork κ S} {kind : κ} {id : String} {root : Root S}

/-- A root at hand is acquired as it is, and the store is not asked. -/
theorem acquire_held (h : u.roots.get? id = some (kind, root)) (mode : Acquisition)
    (b : Backing σ) : u.acquire types repo mode kind id b = (.ok (some root), u, b) := by
  rw [acquire, h]
  exact if_pos rfl

/-- A root at hand is not acquired as another type. -/
theorem acquire_other (h : u.roots.get? id = some (kind, root)) (mode : Acquisition) {kind' : κ}
    (hkind : kind' ≠ kind) (b : Backing σ) : u.acquire types repo mode kind' id b
      = (.error (.typeMismatch id (types kind').name (types kind).name), u, b) := by
  rw [acquire, h]
  exact if_neg (Ne.symm hkind)

/-- A root that is acquired is at hand. -/
theorem get?_of_acquire {mode : Acquisition} {b : Backing σ}
    (h : (u.acquire types repo mode kind id b).1 = .ok (some root)) :
    (u.acquire types repo mode kind id b).2.1.roots.get? id = some (kind, root) := by
  rcases u.acquire_cases types repo mode kind id b with
    ⟨hsame, _, hnot⟩ | ⟨root', _, hanswer, hadded, _⟩
  · rw [hsame]
    cases hget : u.roots.get? id with
    | none => exact absurd h (hnot hget root)
    | some entry =>
      obtain ⟨held, root'⟩ := entry
      by_cases hkind : kind = held
      · subst hkind
        rw [acquire_held hget] at h
        cases h
        rfl
      · rw [acquire_other hget mode hkind] at h
        cases h
  · cases h.symm.trans hanswer
    rw [hadded, Table.get?_insert_self]

/-- A root that is not at hand is acquired exactly if the repository finds it, or if it has no history
and is created. -/
theorem acquire_eq_ok_iff (h : u.roots.get? id = none) {mode : Acquisition} {b : Backing σ} :
    (u.acquire types repo mode kind id b).1 = .ok (some root) ↔
      (repo.hydrate (types kind) id Repository.latest b).1 = .ok (some root) ∨
      (repo.hydrate (types kind) id Repository.latest b).1 = .ok none ∧ mode = .load ∧
        Repository.create (types kind) id = .ok root := by
  have hfetch : (u.acquire types repo mode kind id b).1 = .ok (some root) ↔
      (fetch repo (types kind) mode id b).1 = .ok (some root) := by
    rw [acquire, h]
    rcases fetch repo (types kind) mode id b with ⟨_ | _ | found, _⟩ <;> simp
  rw [hfetch]
  cases mode with
  | tryGet =>
    simp only [reduceCtorEq, false_and, and_false, or_false]
    rfl
  | get =>
    unfold fetch Repository.get Repository.getAt
    rcases repo.hydrate (types kind) id Repository.latest b with ⟨_ | _ | found, _⟩ <;>
      simp [Except.map]
  | load =>
    unfold fetch Repository.loadOrCreate
    rcases repo.hydrate (types kind) id Repository.latest b with ⟨_ | _ | found, _⟩
    · simp [Except.map]
    · cases Repository.create (types kind) id <;> simp [Except.map]
    · simp [Except.map]

/-- An acquisition that finds no root leaves the roots at hand as they are. -/
theorem acquire_unit {mode : Acquisition} {b : Backing σ}
    (h : ∀ root, (u.acquire types repo mode kind id b).1 ≠ .ok (some root)) :
    (u.acquire types repo mode kind id b).2.1 = u := by
  rcases u.acquire_cases types repo mode kind id b with ⟨hsame, _⟩ | ⟨root, _, hanswer, _⟩
  · exact hsame
  · exact absurd hanswer (h root)

end UnitOfWork

/-! ### What steps keep -/

namespace WorkStep

variable {σ κ S : Type} [DecidableEq κ] {types : κ → AggregateType S} {repo : Repository σ}
  {w : UnitOfWork κ S × Backing σ} {kind : κ} {id : String} {root : Root S}

/-- A root at hand stays there, with what is emitted on it. -/
theorem get?_run (h : w.1.roots.get? id = some (kind, root)) (step : WorkStep σ κ) :
    (step.run types repo w).1.roots.get? id
      = some (kind, root.offerAll (types kind) (calls id [step])) := by
  cases step with
  | acquire mode kind' id' =>
    rcases w.1.acquire_cases types repo mode kind' id' w.2 with
      ⟨hsame, _⟩ | ⟨root', hnone, _, hadded, _⟩
    · show (w.1.acquire types repo mode kind' id' w.2).2.1.roots.get? id = _
      rw [hsame]
      exact h
    · show (w.1.acquire types repo mode kind' id' w.2).2.1.roots.get? id = _
      -- Only a root that was not at hand is added.
      have hne : id ≠ id' := by
        rintro rfl
        cases hnone.symm.trans h
      rw [hadded, Table.get?_insert, if_neg hne]
      exact h
  | emit id' made =>
    by_cases hid : id' = id
    · subst hid
      have hcalls : calls id' [(emit id' made : WorkStep σ κ)] = [made] := by simp [calls]
      rw [hcalls]
      rcases made with err | e
      · exact h
      · show (w.1.emit types id' e).2.roots.get? id' = _
        rw [UnitOfWork.get?_emit, if_pos rfl, h]
        rfl
    · have hcalls : calls id [(emit id' made : WorkStep σ κ)] = [] := by simp [calls, hid]
      rw [hcalls]
      rcases made with err | e
      · exact h
      · show (w.1.emit types id' e).2.roots.get? id = _
        rw [UnitOfWork.get?_emit, if_neg (Ne.symm hid)]
        exact h
  | change b => exact h

theorem get?_runAll (h : w.1.roots.get? id = some (kind, root)) (steps : List (WorkStep σ κ)) :
    (runAll types repo steps w).1.roots.get? id
      = some (kind, root.offerAll (types kind) (calls id steps)) := by
  induction steps generalizing w root with
  | nil => exact h
  | cons step rest ih =>
    have hcalls : calls id (step :: rest) = calls id [step] ++ calls id rest :=
      List.filterMap_append (l := [step])
    rw [hcalls, Root.offerAll, List.foldl_append]
    exact ih (get?_run h step)

/-- An acquisition acquires its id, or it finds no root. -/
theorem acquires_cases (types : κ → AggregateType S) (repo : Repository σ) (mode : Acquisition)
    (kind : κ) (id : String) (w : UnitOfWork κ S × Backing σ) :
    ((acquire mode kind id).acquires types repo w = [id] ∧
      ∃ root, (w.1.acquire types repo mode kind id w.2).1 = .ok (some root)) ∨
    (acquire mode kind id).acquires types repo w = [] ∧
      ∀ root, (w.1.acquire types repo mode kind id w.2).1 ≠ .ok (some root) := by
  rw [acquires]
  rcases (w.1.acquire types repo mode kind id w.2).1 with err | _ | root
  · exact .inr ⟨rfl, nofun⟩
  · exact .inr ⟨rfl, nofun⟩
  · exact .inl ⟨rfl, root, rfl⟩

/-- The ids at hand are those under which roots have been acquired, in the order in which they first
were. -/
theorem keys_run {ids : List String} (h : w.1.roots.keys = ids.eraseDups) (step : WorkStep σ κ) :
    (step.run types repo w).1.roots.keys = (ids ++ step.acquires types repo w).eraseDups := by
  cases step with
  | acquire mode kind id =>
    show (w.1.acquire types repo mode kind id w.2).2.1.roots.keys = _
    have hmem : id ∈ w.1.roots.keys ↔ id ∈ ids := by rw [h, List.mem_eraseDups]
    rcases w.1.acquire_cases types repo mode kind id w.2 with
      ⟨hsame, _, hnot⟩ | ⟨root, hnone, hanswer, hadded, _⟩ <;>
    rcases acquires_cases types repo mode kind id w with ⟨hacquires, hsome⟩ | ⟨hacquires, hnever⟩
    · -- The root was at hand before.
      obtain ⟨root, hroot⟩ := hsome
      have hheld : id ∈ w.1.roots.keys := by
        by_contra hnew
        exact hnot ((Table.get?_eq_none_iff _ _).2 hnew) root hroot
      rw [hsame, hacquires, eraseDups_concat, if_pos (hmem.1 hheld), h]
    · rw [hsame, hacquires, List.append_nil, h]
    · have hnew := (Table.get?_eq_none_iff _ _).1 hnone
      rw [hadded, hacquires, eraseDups_concat, if_neg (mt hmem.2 hnew), Table.keys_insert,
        if_neg hnew, h]
    · exact absurd hanswer (hnever root)
  -- Nothing else adds a root.
  | emit id made =>
    rw [acquires, List.append_nil, ← h]
    rcases made with err | e
    · rfl
    · exact UnitOfWork.keys_emit types id e
  | change b =>
    rw [acquires, List.append_nil]
    exact h

theorem keys_runAll {ids : List String} (h : w.1.roots.keys = ids.eraseDups)
    (steps : List (WorkStep σ κ)) :
    (runAll types repo steps w).1.roots.keys = (ids ++ acquired types repo steps w).eraseDups := by
  induction steps generalizing w ids with
  | nil =>
    rw [acquired, List.append_nil]
    exact h
  | cons step rest ih =>
    rw [acquired, ← List.append_assoc]
    exact ih (keys_run h step)

theorem keys_runAll_empty (types : κ → AggregateType S) (repo : Repository σ) (start : Backing σ)
    (steps : List (WorkStep σ κ)) : (runAll types repo steps (.empty, start)).1.roots.keys
      = (acquired types repo steps (.empty, start)).eraseDups := by
  have hnone : (UnitOfWork.empty : UnitOfWork κ S).roots.keys = [].eraseDups := rfl
  exact keys_runAll (w := (.empty, start)) hnone steps

/-- If a root is acquired, there is a step that is the first to acquire it. -/
theorem exists_first {steps : List (WorkStep σ κ)} (h : id ∈ acquired types repo steps w) :
    ∃ before mode kind root after, steps = before ++ acquire mode kind id :: after ∧
      ((runAll types repo before w).1.acquire types repo mode kind id
        (runAll types repo before w).2).1 = .ok (some root) ∧
      id ∉ acquired types repo before w := by
  induction steps generalizing w with
  | nil => cases h
  | cons step rest ih =>
    by_cases hstep : id ∈ step.acquires types repo w
    · cases step with
      | acquire mode kind id' =>
        rcases acquires_cases types repo mode kind id' w with ⟨hacquires, root, hroot⟩ | ⟨hacquires, _⟩
        · rw [hacquires, List.mem_singleton] at hstep
          subst hstep
          exact ⟨[], mode, kind, root, rest, rfl, hroot, List.not_mem_nil⟩
        · rw [hacquires] at hstep
          cases hstep
      | emit | change => cases hstep
    · rw [acquired] at h
      obtain ⟨before, mode, kind, root, after, rfl, hroot, hnew⟩ :=
        ih ((List.mem_append.1 h).resolve_left hstep)
      refine ⟨step :: before, mode, kind, root, after, rfl, hroot, ?_⟩
      rw [acquired, List.mem_append]
      exact not_or.2 ⟨hstep, hnew⟩

end WorkStep

/-! ### Acquired roots -/

/-- One of some steps from an empty unit of work acquires a root. -/
structure Acquired {σ κ S : Type} [DecidableEq κ] (types : κ → AggregateType S) (repo : Repository σ)
    (start : Backing σ) (steps : List (WorkStep σ κ)) where
  /-- The steps before. -/
  before : List (WorkStep σ κ)
  /-- How the root is acquired. -/
  mode : Acquisition
  /-- The kind as which it is acquired. -/
  kind : κ
  /-- The id of the root. -/
  id : String
  /-- The root as it is acquired. -/
  root : Root S
  /-- The steps after. -/
  after : List (WorkStep σ κ)
  /-- The steps are these. -/
  steps_eq : steps = before ++ .acquire mode kind id :: after
  /-- The answer is the root. -/
  answer_eq : let w := WorkStep.runAll types repo before (.empty, start)
    (w.1.acquire types repo mode kind id w.2).1 = .ok (some root)

namespace Acquired

variable {σ κ S : Type} [DecidableEq κ] {types : κ → AggregateType S} {repo : Repository σ}
  {start : Backing σ} {steps : List (WorkStep σ κ)}

/-- The unit of work in which the root is acquired, and what it is loaded from. -/
def place (a : Acquired types repo start steps) : UnitOfWork κ S × Backing σ :=
  WorkStep.runAll types repo a.before (.empty, start)

/-- The root has not been acquired before. -/
def IsFirst (a : Acquired types repo start steps) : Prop :=
  a.id ∉ WorkStep.acquired types repo a.before (.empty, start)

/-- The root after what was emitted on it since. -/
def held (a : Acquired types repo start steps) : Root S :=
  a.root.offerAll (types a.kind) (WorkStep.calls a.id a.after)

/-- The events of the root: those that it had when it was acquired, and those that it has kept since. -/
def pending (a : Acquired types repo start steps) : Pending :=
  ⟨a.root.sequence,
    a.root.uncommitted ++ a.root.kept (types a.kind) (WorkStep.calls a.id a.after)⟩

theorem pendingOf_held (a : Acquired types repo start steps) :
    UnitOfWork.pendingOf a.held = a.pending := by
  obtain ⟨hsequence, huncommitted⟩ :=
    a.root.offerAll_pending (types a.kind) (WorkStep.calls a.id a.after)
  rw [UnitOfWork.pendingOf, pending, held, hsequence, huncommitted]

/-- A root that was acquired is at hand, with what was emitted on it since. -/
theorem get?_held (a : Acquired types repo start steps) :
    (WorkStep.runAll types repo steps (.empty, start)).1.roots.get? a.id = some (a.kind, a.held) := by
  have hrun : WorkStep.runAll types repo steps (.empty, start)
      = WorkStep.runAll types repo a.after
        (a.place.1.acquire types repo a.mode a.kind a.id a.place.2).2 := by
    conv_lhs => rw [a.steps_eq]
    exact List.foldl_append
  rw [hrun]
  exact WorkStep.get?_runAll (UnitOfWork.get?_of_acquire a.answer_eq) a.after

/-- What is acquired first comes from the repository: its history has made it, or it has no history and
its creation has. -/
theorem IsFirst.origin {a : Acquired types repo start steps} (h : a.IsFirst) :
    let answer := (repo.hydrate (types a.kind) a.id Repository.latest a.place.2).1
    (answer = .ok (some a.root) ∧ a.root.uncommitted = []) ∨
    (answer = .ok none ∧ a.mode = .load ∧ Repository.create (types a.kind) a.id = .ok a.root ∧
      a.root.sequence = Root.noNumber ∧
      a.root.uncommitted = (((types a.kind).creation a.id).filter Emission.accepted).map fun x =>
        (Root.new (types a.kind) a.id).mark (types a.kind) x.event) := by
  have hkeys : a.place.1.roots.keys
      = (WorkStep.acquired types repo a.before (.empty, start)).eraseDups :=
    WorkStep.keys_runAll_empty types repo start a.before
  have hnew : a.place.1.roots.get? a.id = none := by
    rw [Table.get?_eq_none_iff, hkeys, List.mem_eraseDups]
    exact h
  have hanswer : (a.place.1.acquire types repo a.mode a.kind a.id a.place.2).1 = .ok (some a.root) :=
    a.answer_eq
  rcases a.place.1.acquire_cases types repo a.mode a.kind a.id a.place.2 with
    ⟨_, _, hnot⟩ | ⟨root, _, hroot, _, ⟨_, hfound⟩ | ⟨_, hmode, hnone, hcreate⟩⟩
  · exact absurd hanswer (hnot hnew _)
  · cases hanswer.symm.trans hroot
    exact .inl ⟨hfound, (Repository.hydrate_eq_ok hfound).2.1⟩
  · cases hanswer.symm.trans hroot
    have hemits := (types a.kind).created (Root.new (types a.kind) a.id) |>.emits_emissions
      (types a.kind) (Root.new (types a.kind) a.id)
    rw [Repository.create_eq hcreate] at hemits
    exact .inr ⟨hnone, hmode, hcreate, hemits.uncommitted.2.1, hemits.uncommitted.2.2.2⟩

/-- The roots that are at hand, in order, were acquired first by some of the steps. -/
theorem exists_firsts (types : κ → AggregateType S) (repo : Repository σ) (start : Backing σ)
    (steps : List (WorkStep σ κ)) : ∃ firsts : List (Acquired types repo start steps),
      (∀ a ∈ firsts, a.IsFirst) ∧
      firsts.map id = (WorkStep.acquired types repo steps (.empty, start)).eraseDups := by
  have hrange : (WorkStep.acquired types repo steps (.empty, start)).eraseDups ∈ Set.range
      (List.map fun a : { a : Acquired types repo start steps // a.IsFirst } => a.1.id) := by
    rw [Set.range_list_map]
    intro id hid
    obtain ⟨before, mode, kind, root, after, hsteps, hroot, hnew⟩ :=
      WorkStep.exists_first (List.mem_eraseDups.1 hid)
    exact ⟨⟨⟨before, mode, kind, id, root, after, hsteps, hroot⟩, hnew⟩, rfl⟩
  obtain ⟨firsts, hfirsts⟩ := hrange
  refine ⟨firsts.map Subtype.val, ?_, ?_⟩
  · intro a ha
    obtain ⟨⟨_, hisFirst⟩, _, rfl⟩ := List.mem_map.1 ha
    exact hisFirst
  · rw [List.map_map]
    exact hfirsts

end Acquired

/-! ### Units of work -/

/-- What was taken out is not taken out again. -/
theorem UnitOfWork.takePending_twice {κ S : Type} (u : UnitOfWork κ S) :
    u.takePending.2.takePending.1 = [] := by
  show ((u.takePending.2.roots.values.map _).filter _) = []
  rw [List.filter_eq_nil_iff]
  intro p hp
  obtain ⟨value, hvalue, rfl⟩ := List.mem_map.1 hp
  obtain ⟨entry, hentry, rfl⟩ := List.mem_map.1 hvalue
  -- All roots are drained.
  obtain ⟨_, _, rfl⟩ := List.mem_map.1 (show entry ∈ List.map _ _ from hentry)
  exact nofun

/-- **Roots that were acquired stay at hand.** Roots are acquired from a repository in any ways and
kinds, and calls emit events on them or fail to, while the store, the snapshots and the time become
what they like in between. The roots at hand are those that were acquired, in the order in which they
first were, each with all that was emitted on it since (`Acquired.held`). Whoever acquires one of them
again gets just that, without a look at the store, and as another type an error. Another root is acquired
exactly if `Repository.hydrate` finds it, or finds nothing and it is to be loaded and
`Repository.create` makes it. An acquisition that finds no root leaves the roots at hand as they are. What
is acquired first has no uncommitted events, or just those of the creation. At last `takePending` takes
the events out of the roots that have any, in that order: for each root its sequence number, and its
events as they were emitted (`Acquired.pending`). Nothing is left then. -/
theorem UnitOfWork.roots_stay {σ κ S : Type} [DecidableEq κ] (types : κ → AggregateType S)
    (repo : Repository σ) (start : Backing σ) (steps : List (WorkStep σ κ)) :
    let u := (WorkStep.runAll types repo steps (.empty, start)).1
    let order := (WorkStep.acquired types repo steps (.empty, start)).eraseDups
    u.roots.keys = order ∧
    (∀ a : Acquired types repo start steps, u.roots.get? a.id = some (a.kind, a.held) ∧
      (∀ mode b, u.acquire types repo mode a.kind a.id b = (.ok (some a.held), u, b)) ∧
      ∀ mode kind b, kind ≠ a.kind → u.acquire types repo mode kind a.id b
        = (.error (.typeMismatch a.id (types kind).name (types a.kind).name), u, b)) ∧
    (∀ mode kind id b root, id ∉ order →
      ((u.acquire types repo mode kind id b).1 = .ok (some root) ↔
        (repo.hydrate (types kind) id Repository.latest b).1 = .ok (some root) ∨
        (repo.hydrate (types kind) id Repository.latest b).1 = .ok none ∧ mode = .load ∧
          Repository.create (types kind) id = .ok root)) ∧
    (∀ mode kind id b, (∀ root, (u.acquire types repo mode kind id b).1 ≠ .ok (some root)) →
      (u.acquire types repo mode kind id b).2.1 = u) ∧
    (∀ a : Acquired types repo start steps, a.IsFirst →
      let answer := (repo.hydrate (types a.kind) a.id Repository.latest a.place.2).1
      (answer = .ok (some a.root) ∧ a.root.uncommitted = []) ∨
      (answer = .ok none ∧ a.mode = .load ∧ Repository.create (types a.kind) a.id = .ok a.root ∧
        a.root.sequence = Root.noNumber ∧
        a.root.uncommitted = (((types a.kind).creation a.id).filter Emission.accepted).map fun x =>
          (Root.new (types a.kind) a.id).mark (types a.kind) x.event)) ∧
    (∃ firsts : List (Acquired types repo start steps), (∀ a ∈ firsts, a.IsFirst) ∧
      firsts.map Acquired.id = order ∧
      u.takePending.1 = (firsts.map Acquired.pending).filter fun p => !p.events.isEmpty) ∧
    u.takePending.2.takePending.1 = [] := by
  intro u order
  have hkeys : u.roots.keys = order := WorkStep.keys_runAll_empty types repo start steps
  refine ⟨hkeys, fun a => ⟨a.get?_held, acquire_held a.get?_held,
    fun mode kind b hkind => acquire_other a.get?_held mode hkind b⟩,
    fun mode kind id b root hnew => acquire_eq_ok_iff ?_,
    fun _ _ _ _ => acquire_unit, fun a ha => ha.origin, ?_, u.takePending_twice⟩
  · rw [Table.get?_eq_none_iff, hkeys]
    exact hnew
  obtain ⟨firsts, hfirst, hids⟩ := Acquired.exists_firsts types repo start steps
  refine ⟨firsts, hfirst, hids, ?_⟩
  -- The roots stand in the order of their ids, each as it is held.
  have hvalues : u.roots.values = firsts.map fun a => (a.kind, a.held) :=
    Table.values_eq (hkeys.trans hids.symm) fun a _ => a.get?_held
  rw [takePending, hvalues, List.map_map]
  exact congrArg _ (List.map_congr_left fun a _ => a.pendingOf_held)

namespace Sample

/-- A log with a deposit on an account, and no snapshots. -/
def saved : Backing Log where
  store := (Log.empty.save .nil
    (Log.empty.continuation "a" "Deposited" (deposited.encode 5) 1)).2
  cache := SnapshotCache.new 10
  now := ⟨0, 0⟩

/-- The account with the deposit and a new one are acquired, a third one is not found, and two of them
get deposits; then the log is lost. -/
def errands : List (WorkStep Log Kind) :=
  let deposit (n : Int) : Except AppError Event := .ok (Event.new "Deposited" (deposited.encode n))
  [.acquire .tryGet .account "c", .acquire .load .account "b", .acquire .get .account "a",
    .emit "a" (deposit 5), .change (Backing.fresh 10 ⟨0, 0⟩), .emit "b" (.error (.text "no")),
    .emit "a" (deposit 2)]

end Sample

/-- The account is still at hand with both of its deposits, although the log is lost. -/
theorem UnitOfWork.roots_stay_errands :
    let repo : Repository Log := ⟨Log.store, 1⟩
    let lost := Backing.fresh 10 ⟨0, 0⟩
    let u := (WorkStep.runAll Sample.aggregateType repo Sample.errands (.empty, Sample.saved)).1
    u.roots.keys = ["b", "a"] ∧
    (∃ root, u.acquire Sample.aggregateType repo .get .account "a" lost = (.ok (some root), u, lost) ∧
      root.sequence = 0 ∧ root.uncommitted.length = 2) ∧
    (u.acquire Sample.aggregateType repo .tryGet .account "c" lost).2.1 = u ∧
    u.takePending.1.length = 1 := by
  intro repo lost u
  have horder : WorkStep.acquired Sample.aggregateType repo Sample.errands (.empty, Sample.saved)
      = ["b", "a"] := by decide +kernel
  have hlook : (u.roots.get? "a").map
      (fun held => (held.1, held.2.sequence, held.2.uncommitted.length))
        = some (Sample.Kind.account, 0, 2) := by decide +kernel
  have hmissing : (u.acquire Sample.aggregateType repo .tryGet .account "c"
      lost).1.toOption.join.isNone = true := by decide +kernel
  have hpending : u.takePending.1.length = 1 := by decide +kernel
  obtain ⟨hkeys, hheld, _, hnone, _⟩ :=
    UnitOfWork.roots_stay Sample.aggregateType repo Sample.saved Sample.errands
  rw [horder] at hkeys
  have hmem : "a" ∈ WorkStep.acquired Sample.aggregateType repo Sample.errands
      (.empty, Sample.saved) := by
    rw [horder]
    exact List.mem_cons_of_mem _ List.mem_cons_self
  obtain ⟨before, mode, kind, root, after, hsteps, hroot, _⟩ := WorkStep.exists_first hmem
  obtain ⟨hget, hagain, _⟩ := hheld ⟨before, mode, kind, "a", root, after, hsteps, hroot⟩
  -- The unit of work is not to be computed again.
  have hu : u = (WorkStep.runAll Sample.aggregateType repo Sample.errands
      (.empty, Sample.saved)).1 := rfl
  clear_value u
  rw [← hu] at hkeys hnone hget hagain
  rw [hget] at hlook
  simp only [Option.map_some, Option.some.injEq, Prod.mk.injEq] at hlook
  obtain ⟨rfl, hsequence, hcount⟩ := hlook
  refine ⟨hkeys, ⟨_, hagain .get lost, hsequence, hcount⟩, hnone .tryGet .account "c" lost ?_, hpending⟩
  intro found hfound
  rw [hfound] at hmissing
  cases hmissing

end Chronicle
