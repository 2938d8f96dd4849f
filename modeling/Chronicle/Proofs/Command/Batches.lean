import Chronicle.Proofs.Command.Emissions
import Chronicle.Proofs.Command.Numbering

namespace Chronicle

/-!
# What the batch of a command tells

* `Event.content` — what aggregates read of an event. `Event.told` — that, and its root. Neither is
  changed when an event is numbered and stored.
* `UnitOfWork.told_number` — a numbered batch tells what was emitted, root by root in the order of
  acquisition.
* `UnitOfWork.content_filter` — a stored batch has, of every root, what was emitted on it.
-/

/-! ### What events tell -/

/-- What aggregates may read of an event. -/
def Event.content (e : Event) : String × Json := (e.tag, e.payload)

@[simp] theorem Root.content_mark {S : Type} (T : AggregateType S) (r : Root S) (e : Event) :
    (r.mark T e).content = e.content := rfl

/-- What an event tells of itself: its root, its type tag and its payload. -/
def Event.told (e : Event) : Except EventError String × String × Json := (e.root, e.content)

namespace Batch

/-- Numbering does not change what aggregates read. -/
theorem Stamp.content_markFrom (s : Stamp) (sequence position : Int) (events : List Event) :
    (s.markFrom sequence position events).map Event.content = events.map Event.content := by
  induction events generalizing sequence position with
  | nil => rfl
  | cons e rest ih =>
    rw [markFrom, List.map_cons, List.map_cons, ih]
    rfl

/-- Numbering does not change what the events of one root tell of themselves. -/
theorem Stamp.told_markFrom (s : Stamp) (sequence position : Int) {events : List Event} {id : String}
    (h : ∀ e ∈ events, e.root = .ok id) : (s.markFrom sequence position events).map Event.told
      = events.map fun e => (.ok id, e.content) := by
  have htold : ∀ e ∈ s.markFrom sequence position events, e.told = (.ok id, e.content) := by
    intro e he
    obtain ⟨e₀, he₀, _, _, rfl⟩ := mem_markFrom he
    rw [Event.told, s.root_mark _ _ (h e₀ he₀)]
  have hcontent := congrArg
    (List.map fun content => ((.ok id, content) : Except EventError String × String × Json))
    (s.content_markFrom sequence position events)
  rw [List.map_map, List.map_map] at hcontent
  exact (List.map_congr_left htold).trans hcontent

/-- Numbering does not change what events tell of themselves. -/
theorem told_number (s : Stamp) (position : Int) {entries : List (String × Pending)}
    (hby : ById entries) : (number s position (entries.map Prod.snd)).map Event.told
      = entries.flatMap fun entry => entry.2.events.map fun e => (.ok entry.1, e.content) := by
  induction entries generalizing position with
  | nil => rfl
  | cons entry rest ih =>
    rw [List.map_cons, number, List.map_append, List.flatMap_cons, ih _ hby.tail,
      s.told_markFrom _ _ (hby.owned entry List.mem_cons_self)]

end Batch

namespace Event.StoredAs

variable {batch : Uuid} {events block : List Event}

/-- A stored batch tells what the saved one tells. -/
theorem told (h : List.Forall₂ (StoredAs batch) events block) :
    block.map Event.told = events.map Event.told := by
  induction h with
  | nil => rfl
  | cons hfirst _ ih =>
    rw [List.map_cons, List.map_cons, ih, Event.told, Event.told, hfirst.root_eq, content, content,
      hfirst.tag, hfirst.payload]

/-- The stored events of a root are the saved ones of that root. -/
theorem filter (h : List.Forall₂ (StoredAs batch) events block) (id : String) :
    List.Forall₂ (StoredAs batch) (events.filter (isOf id)) (block.filter (isOf id)) := by
  refine List.rel_filter (fun saved stored hstored => ?_) h
  show isOf id saved = true ↔ isOf id stored = true
  rw [isOf_iff, isOf_iff, hstored.root_eq]

end Event.StoredAs

/-! ### What the batch of a unit of work tells -/

namespace UnitOfWork

variable {κ S : Type} {types : κ → AggregateType S} {first : κ → String → Root S → Prop}
  {trace : List Emission} {u : UnitOfWork κ S}

/-- The batch of a unit of work tells what has been emitted and taken, root by root in the order of
acquisition. -/
theorem told_number (h : u.Traced types first trace) (howned : u.Owned) (s : Batch.Stamp)
    (position : Int) :
    (Batch.number s position u.takePending.1).map Event.told
      = u.roots.keys.flatMap fun id =>
          ((trace.filter (Emission.isOn id)).filter Emission.accepted).map fun x =>
            (.ok id, x.event.content) := by
  rw [takePending_fst, Batch.told_number s position howned.byId, Table.keys, List.flatMap_map]
  unfold pendingById
  -- Roots without events do not matter.
  have hall : ∀ entries : List (String × Pending),
      (entries.filter fun entry => !entry.2.events.isEmpty).flatMap (fun entry =>
          entry.2.events.map fun e => ((.ok entry.1, e.content) : Except EventError String × _))
        = entries.flatMap fun entry => entry.2.events.map fun e => (.ok entry.1, e.content) := by
    intro entries
    induction entries with
    | nil => rfl
    | cons entry rest ih =>
      cases hevents : entry.2.events <;> simp [hevents, ih]
  rw [hall, List.flatMap_map]
  refine List.flatMap_congr fun entry hentry => ?_
  obtain ⟨id, kind, root⟩ := entry
  obtain ⟨r, _, _, huncommitted, hemits⟩ :=
    h.held id kind root ((Table.get?_eq_some_iff _ _ _).2 hentry)
  obtain ⟨_, _, _, htaken⟩ := hemits.uncommitted
  rw [huncommitted, List.nil_append] at htaken
  simp [pendingOf, htaken]

section

variable {batch : Uuid} {s : Batch.Stamp} {position : Int} {block : List Event} {id : String}

/-- A stored batch has no events of roots that are not at hand. -/
theorem Owned.filter_eq_nil (howned : u.Owned)
    (hblock : List.Forall₂ (Event.StoredAs batch) (Batch.number s position u.takePending.1) block)
    (hget : u.roots.get? id = none) : block.filter (Event.isOf id) = [] := by
  have hnot : id ∉ u.pendingById.map Prod.fst := by
    intro hid
    obtain ⟨⟨_, p⟩, hentry, rfl⟩ := List.mem_map.1 hid
    obtain ⟨_, _, hget', _⟩ := mem_pendingById.1 hentry
    cases hget.symm.trans hget'
  have hstored := Event.StoredAs.filter hblock id
  rw [takePending_fst, Batch.filter_number_of_notMem howned.byId hnot] at hstored
  exact List.forall₂_nil_left_iff.1 hstored

/-- The first event of a root in a stored batch has the number after the one of the root, as a word. -/
theorem Owned.sequence_head (howned : u.Owned)
    (hblock : List.Forall₂ (Event.StoredAs batch) (Batch.number s position u.takePending.1) block)
    {kind : κ} {root : Root S} (hget : u.roots.get? id = some (kind, root)) {e : Event}
    {rest : List Event} (he : block.filter (Event.isOf id) = e :: rest) {n : Int}
    (hn : e.sequence = .ok n) : n = Word64.wrap (root.sequence + 1) := by
  obtain ⟨position', hfilter⟩ := howned.filter_number s position hget
  have hstored := Event.StoredAs.filter hblock id
  rw [hfilter, he] at hstored
  cases hevents : root.uncommitted with
  | nil =>
    rw [hevents] at hstored
    cases hstored
  | cons e₀ rest₀ =>
    rw [hevents] at hstored
    obtain ⟨hfirst, _⟩ := List.forall₂_cons.1 hstored
    exact s.sequence_mark (hfirst.sequence_eq ▸ hn)

/-- A stored batch has, of every root, what has been emitted on it and taken. -/
theorem content_filter (h : u.Traced types first trace) (howned : u.Owned)
    (hblock : List.Forall₂ (Event.StoredAs batch) (Batch.number s position u.takePending.1) block)
    (id : String) : (block.filter (Event.isOf id)).map Event.content
      = ((trace.filter (Emission.isOn id)).filter Emission.accepted).map fun x =>
          x.event.content := by
  cases hget : u.roots.get? id with
  | none => rw [howned.filter_eq_nil hblock hget, h.others id hget]; rfl
  | some entry =>
    obtain ⟨kind, root⟩ := entry
    obtain ⟨r, _, _, huncommitted, hemits⟩ := h.held id kind root hget
    obtain ⟨position', hfilter⟩ := howned.filter_number s position hget
    have hstored := Event.StoredAs.filter hblock id
    rw [hfilter] at hstored
    have htold := congrArg (List.map Prod.snd) (Event.StoredAs.told hstored)
    rw [List.map_map, List.map_map] at htold
    refine htold.trans ((s.content_markFrom _ _ _).trans ?_)
    rw [hemits.uncommitted.2.2.2, huncommitted, List.nil_append, List.map_map]
    rfl

end

end UnitOfWork

/-! ### What an attempt has done -/

namespace Processor

section

variable {σ δ κ S : Type} [DecidableEq κ] (p : Processor σ δ κ S) (c : Command κ S)

/-- The roots that the attempt that starts in a state has at hand at its end. -/
def work (w : Processing σ δ) : UnitOfWork κ S :=
  (c.program.run p.types p.repository UnitOfWork.empty w.backing).2.1

/-- The emissions of the attempt that starts in a state. -/
def emissions (w : Processing σ δ) : List Emission :=
  c.program.emissions p.types p.repository UnitOfWork.empty w.backing

end

/-- An attempt that has not given up has emitted what is taken out of its roots. -/
theorem emitted_eq_some {δ κ S : Type} [DecidableEq κ] {p : Processor SharedLog δ κ S}
    {c : Command κ S} {w : Processing SharedLog δ} {pending : List Pending}
    (h : p.emitted c w = some pending) : pending = (p.work c w).takePending.1 := by
  unfold emitted at h
  unfold work
  rcases hrun : c.program.run p.types p.repository UnitOfWork.empty w.backing with ⟨_ | err, work, b⟩
  · rw [hrun] at h
    cases h
    rfl
  · rw [hrun] at h
    cases h

end Processor

end Chronicle
