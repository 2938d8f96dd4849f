import Chronicle.Proofs.Command.Acquiring

namespace Chronicle

/-!
# What a command emits

* `Emission` — an event that was emitted on a root, by the command or by the creation of the root, and
  what the aggregate said to it.
* `Root.Emits` — what emissions make of a root. Emissions can be put together (`Root.Emits.append`).
* `AggregateType.creation` — the emissions of the creation of a root.
* `Program.emissions` — the emissions of a program that is executed, in order.
* `UnitOfWork.Traced` — every root at hand is what its own emissions have made of it since it was
  loaded, the ones of its creation first. Acquisitions and emissions keep it so.
-/

/-! ### Emissions -/

/-- An event that was emitted on a root. -/
structure Emission where
  /-- The root. -/
  root : String
  /-- The event as it was emitted. -/
  event : Event
  /-- The creation of the root has emitted it, and not the command. -/
  hook : Bool
  /-- The error of the aggregate, if it has refused the event. -/
  refusal : Option AppError

namespace Emission

/-- The emission is one on the root with an id. -/
def isOn (id : String) (x : Emission) : Bool := decide (x.root = id)

/-- The aggregate has taken the event. -/
def accepted (x : Emission) : Bool := x.refusal.isNone

@[simp] theorem isOn_iff (id : String) (x : Emission) : x.isOn id = true ↔ x.root = id := by
  simp [isOn]

end Emission

namespace Root

variable {S : Type} {T : AggregateType S}

/-- Emissions, one after the other, make one root of another, with the refusals that they tell. -/
def Emits (T : AggregateType S) : Root S → List Emission → Root S → Prop
  | r, [], r' => r' = r
  | r, x :: rest, r' => x.root = r.id ∧ x.refusal = (r.emit T x.event).2 ∧
      (r.emit T x.event).1.Emits T rest r'

/-- More emissions go on from where some have led. -/
theorem Emits.append {xs ys : List Emission} {r r₁ r' : Root S} (h : r.Emits T xs r₁)
    (h' : r₁.Emits T ys r') : r.Emits T (xs ++ ys) r' := by
  induction xs generalizing r with
  | nil =>
    obtain rfl : r₁ = r := h
    exact h'
  | cons x rest ih =>
    obtain ⟨hroot, hrefusal, hrest⟩ := h
    exact ⟨hroot, hrefusal, ih hrest⟩

/-- Emissions keep the id and the numbers of a root. What the aggregate takes becomes uncommitted, in
order. -/
theorem Emits.uncommitted {xs : List Emission} {r r' : Root S} (h : r.Emits T xs r') :
    r'.id = r.id ∧ r'.sequence = r.sequence ∧ r'.cutoff = r.cutoff ∧ r'.uncommitted
      = r.uncommitted ++ (xs.filter Emission.accepted).map fun x => r.mark T x.event := by
  induction xs generalizing r with
  | nil =>
    obtain rfl : r' = r := h
    simp
  | cons x rest ih =>
    obtain ⟨_, hrefusal, hrest⟩ := h
    obtain ⟨hid, hsequence, hcutoff, huncommitted⟩ := ih hrest
    rw [id_emit] at hid
    rw [sequence_emit] at hsequence
    rw [cutoff_emit] at hcutoff
    refine ⟨hid, hsequence, hcutoff, ?_⟩
    -- The mark is the same for all of them, since it tells the id and the type only.
    have hmark : ∀ e, (r.emit T x.event).1.mark T e = r.mark T e := by
      intro e
      rw [mark, mark, id_emit]
    rw [huncommitted, uncommitted_emit, ← hrefusal, List.filter_cons]
    simp only [hmark, Emission.accepted]
    by_cases hx : x.refusal.isNone = true <;> simp [hx]

end Root

/-! ### Scripts -/

namespace Script

variable {S : Type}

/-- The emissions of a script that runs on a root when it is created. -/
def emissions (T : AggregateType S) : Script S → Root S → List Emission
  | done, _ => []
  | fail _, _ => []
  | emit e next, r =>
    ⟨r.id, e, true, (r.emit T e).2⟩ ::
      emissions T (next (r.emit T e).1 (r.emit T e).2) (r.emit T e).1

/-- A script makes of a root what its emissions make of it. -/
theorem emits_emissions (T : AggregateType S) (script : Script S) (r : Root S) :
    r.Emits T (script.emissions T r) (script.run T r).1 := by
  induction script generalizing r with
  | done => rfl
  | fail err => rfl
  | emit e next ih => exact ⟨rfl, rfl, ih _ _ _⟩

theorem mem_emissions {T : AggregateType S} {script : Script S} {r : Root S} {x : Emission}
    (h : x ∈ script.emissions T r) : x.root = r.id ∧ x.hook = true := by
  induction script generalizing r with
  | done => cases h
  | fail err => cases h
  | emit e next ih =>
    rcases List.mem_cons.1 h with rfl | h
    · exact ⟨rfl, rfl⟩
    · obtain ⟨hroot, hhook⟩ := ih _ _ h
      exact ⟨by rwa [Root.id_emit] at hroot, hhook⟩

end Script

/-- What is emitted when a root is created: the emissions of the script of its type on a root without
history. -/
def AggregateType.creation {S : Type} (T : AggregateType S) (id : String) : List Emission :=
  (T.created (Root.new T id)).emissions T (Root.new T id)

theorem AggregateType.mem_creation {S : Type} {T : AggregateType S} {id : String} {x : Emission}
    (h : x ∈ T.creation id) : x.root = id ∧ x.hook = true :=
  Script.mem_emissions h

/-! ### The emissions of a program -/

section

variable {σ κ S : Type} [DecidableEq κ] (types : κ → AggregateType S) (repo : Repository σ)

/-- The emissions that an acquisition leaves behind: those of the creation of the root, if it creates
one. -/
def UnitOfWork.hookEmissions (mode : Acquisition) (kind : κ) (id : String) (u : UnitOfWork κ S)
    (b : Backing σ) : List Emission :=
  match u.created? types repo mode kind id b with
  | some _ => (types kind).creation id
  | none => []

omit [DecidableEq κ] in
/-- The emission of an event on a root at hand. -/
def UnitOfWork.emission (id : String) (e : Event) (u : UnitOfWork κ S) : List Emission :=
  match u.roots.get? id with
  | some (kind, root) => [⟨id, e, false, (root.emit (types kind) e).2⟩]
  | none => []

/-- The emissions of a program that is executed, in order. -/
def Program.emissions : Program κ S → UnitOfWork κ S → Backing σ → List Emission
  | done, _, _ => []
  | fail _, _, _ => []
  | acquire mode kind id next, u, b =>
    u.hookEmissions types repo mode kind id b ++
      match u.acquire types repo mode kind id b with
      | (answer, u, b) => emissions (next answer) u b
  | emit id e next, u, b =>
    u.emission types id e ++
      match u.emit types id e with
      | (answer, u) => emissions (next answer) u b

end

/-! ### Roots at hand and their emissions -/

namespace UnitOfWork

variable {σ κ S : Type} {types : κ → AggregateType S}

/-- Every root at hand is what its own emissions have made of the root that it was at first. What is
known about roots at first is a parameter. -/
structure Traced (types : κ → AggregateType S) (first : κ → String → Root S → Prop)
    (trace : List Emission) (u : UnitOfWork κ S) : Prop where
  /-- A root at hand comes from one without uncommitted events by its emissions. -/
  held : ∀ id kind root, u.roots.get? id = some (kind, root) → ∃ r, first kind id r ∧ r.id = id ∧
    r.uncommitted = [] ∧ r.Emits (types kind) (trace.filter (Emission.isOn id)) root
  /-- The emissions are on roots at hand. -/
  others : ∀ id, u.roots.get? id = none → trace.filter (Emission.isOn id) = []
  /-- On every root, the emissions of its creation come first. -/
  hooks : ∀ id, (trace.filter (Emission.isOn id)).Pairwise fun a b => b.hook = true → a.hook = true

namespace Traced

variable {first first' : κ → String → Root S → Prop} {trace : List Emission} {u : UnitOfWork κ S}

theorem empty (types : κ → AggregateType S) (first : κ → String → Root S → Prop) :
    (UnitOfWork.empty : UnitOfWork κ S).Traced types first [] where
  held _ _ _ h := by cases h
  others _ _ := rfl
  hooks _ := .nil

/-- What is known of more roots is known of these. -/
theorem mono (h : u.Traced types first trace) (hle : ∀ kind id r, first kind id r → first' kind id r) :
    u.Traced types first' trace where
  held id kind root hget := by
    obtain ⟨r, hr, hrest⟩ := h.held id kind root hget
    exact ⟨r, hle _ _ _ hr, hrest⟩
  others := h.others
  hooks := h.hooks

/-- More emissions on one root are the matter of that root alone. -/
theorem put (h : u.Traced types first trace) {kind : κ} {id : String} {r root : Root S}
    {xs : List Emission} (hr : first kind id r) (hid : r.id = id) (huncommitted : r.uncommitted = [])
    (hxs : ∀ x ∈ xs, x.root = id)
    (hemits : r.Emits (types kind) (trace.filter (Emission.isOn id) ++ xs) root)
    (hhooks : (trace.filter (Emission.isOn id) ++ xs).Pairwise fun a b =>
      b.hook = true → a.hook = true) :
    Traced types first (trace ++ xs) ⟨u.roots.insert id (kind, root)⟩ := by
  have hself : (trace ++ xs).filter (Emission.isOn id) = trace.filter (Emission.isOn id) ++ xs := by
    rw [List.filter_append, List.filter_eq_self.2 fun x hx => (Emission.isOn_iff id x).2 (hxs x hx)]
  have hother : ∀ id', id' ≠ id →
      (trace ++ xs).filter (Emission.isOn id') = trace.filter (Emission.isOn id') := by
    intro id' hne
    have hnone : xs.filter (Emission.isOn id') = [] := by
      rw [List.filter_eq_nil_iff]
      intro x hx hon
      exact hne (((Emission.isOn_iff id' x).1 hon).symm.trans (hxs x hx))
    rw [List.filter_append, hnone, List.append_nil]
  constructor
  case held =>
    intro id' kind' root' hget'
    rw [Table.get?_insert] at hget'
    split at hget'
    · rename_i hid'
      cases hget'
      subst hid'
      exact ⟨r, hr, hid, huncommitted, hself ▸ hemits⟩
    · rename_i hne
      rw [hother id' hne]
      exact h.held id' kind' root' hget'
  case others =>
    intro id' hget'
    rw [Table.get?_insert] at hget'
    split at hget'
    · cases hget'
    · rename_i hne
      rw [hother id' hne]
      exact h.others id' hget'
  case hooks =>
    intro id'
    by_cases hne : id' = id
    · subst hne
      rw [hself]
      exact hhooks
    · rw [hother id' hne]
      exact h.hooks id'

/-- An emission on a root at hand is one more emission of it. -/
theorem emit (h : u.Traced types first trace) (id : String) (e : Event) :
    (u.emit types id e).2.Traced types first (trace ++ u.emission types id e) := by
  unfold UnitOfWork.emit UnitOfWork.emission
  cases hget : u.roots.get? id with
  | none =>
    simp only [List.append_nil]
    exact h
  | some entry =>
    obtain ⟨kind, root⟩ := entry
    obtain ⟨r, hr, hid, huncommitted, hemits⟩ := h.held id kind root hget
    refine h.put hr hid huncommitted (fun x hx => by rw [List.mem_singleton.1 hx]) ?_ ?_
    · exact hemits.append ⟨hid.symm.trans hemits.uncommitted.1.symm, rfl, rfl⟩
    · rw [List.pairwise_append]
      refine ⟨h.hooks id, List.pairwise_singleton _ _, fun a _ b hb hhook => ?_⟩
      rw [List.mem_singleton.1 hb] at hhook
      cases hhook

variable [DecidableEq κ]

/-- An acquisition adds a root without emissions, or a created one with the emissions of its creation,
or nothing. -/
theorem acquire (h : u.Traced types first trace) (repo : Repository σ) (mode : Acquisition) (kind : κ)
    (id : String) (b : Backing σ)
    (hfirst : ∀ r root, u.roots.get? id = none →
      (u.acquire types repo mode kind id b).1 = .ok (some root) →
      ((repo.hydrate (types kind) id Repository.latest b).1 = .ok (some root) ∧ r = root ∨
        (repo.hydrate (types kind) id Repository.latest b).1 = .ok none ∧
          Repository.create (types kind) id = .ok root ∧ r = Root.new (types kind) id) →
      first kind id r) :
    (u.acquire types repo mode kind id b).2.1.Traced types first
      (trace ++ u.hookEmissions types repo mode kind id b) := by
  unfold UnitOfWork.hookEmissions
  rcases u.acquire_cases types repo mode kind id b with
    ⟨hsame, hcreated, _⟩ | ⟨root, hget, hanswer, hadded, ⟨hcreated, hfound⟩ | ⟨hcreated, _, hnone, hcreate⟩⟩
  · rw [hsame, hcreated, List.append_nil]
    exact h
  · obtain ⟨hid, huncommitted, _⟩ := Repository.hydrate_eq_ok hfound
    rw [hadded, hcreated]
    refine h.put (hfirst root root hget hanswer (.inl ⟨hfound, rfl⟩)) hid huncommitted nofun ?_ ?_ <;>
      rw [h.others id hget]
    · rfl
    · exact .nil
  · -- The creation has run on the root without history.
    have hrun := (types kind).created (Root.new (types kind) id) |>.emits_emissions (types kind)
      (Root.new (types kind) id)
    rw [Repository.create_eq hcreate] at hrun
    rw [hadded, hcreated]
    refine h.put (hfirst _ root hget hanswer (.inr ⟨hnone, hcreate, rfl⟩)) rfl rfl
      (fun x hx => (AggregateType.mem_creation hx).1) ?_ ?_ <;> rw [h.others id hget]
    · exact hrun
    · exact List.pairwise_of_forall_mem_list fun a ha _ _ _ =>
        (AggregateType.mem_creation ha).2

end Traced

end UnitOfWork

end Chronicle
