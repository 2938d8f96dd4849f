import Chronicle.Proofs.Command.Batches

namespace Chronicle

/-!
# What a command saw is what a replay gives

* `AggregateType.ReadsContent` — aggregates read the type tag and the payload of an event only, so it
  means the same before and after it was numbered and stored.
* `Root.Emits.replay` — a root that has emitted events and a root that replays events with the same
  contents come to the same state.
* `Loaded.Origin` — what a root at hand was at first: what the history makes of it with which it was
  loaded. `Program.traced` — so it is for every root of every program.
* `Repository.getAt_end` — what a history makes can be loaded at the last position of its log ever after.
* `Processor.replay_agrees` — a committed block holds just that, and whoever loads one of its roots at
  the last position of the block gets the root that the command had in its hands.
-/

/-! ### What aggregates read -/

/-- Applying an event looks at its type tag and its payload only. -/
def AggregateType.ReadsContent {S : Type} (T : AggregateType S) : Prop :=
  ∀ state e e', e.content = e'.content → T.apply state e = T.apply state e'

namespace Root

variable {S : Type} {T : AggregateType S}

/-- Emitting an event that is taken and replaying an event of the same content lead to the same
state. -/
theorem advance_of_emit (hT : T.ReadsContent) {r r₀ : Root S} (hstate : r₀.state = r.state)
    {e e' : Event} (hcontent : e'.content = e.content) {position : Int}
    (hposition : e'.position = .ok position) (htaken : (r.emit T e).2 = none) :
    ∃ r₁, r₀.advance T e' = .ok r₁ ∧ r₁.state = (r.emit T e).1.state := by
  have happly : T.apply r₀.state e' = T.apply r.state (r.mark T e) := by
    rw [hstate]
    exact hT _ _ _ hcontent
  unfold emit buffer at htaken ⊢
  unfold advance replay
  rw [hposition, happly]
  rcases happlied : T.apply r.state (r.mark T e) with ⟨state, _ | err⟩
  · exact ⟨_, rfl, rfl⟩
  · simp [happlied] at htaken

/-- Emissions that are all taken lead to the state to which a replay of their contents leads. -/
theorem Emits.replay (hT : T.ReadsContent) {xs : List Emission} {events : List Event}
    {r r' r₀ : Root S} (h : r.Emits T xs r') (htaken : ∀ x ∈ xs, x.refusal = none)
    (hcontent : events.map Event.content = xs.map fun x => x.event.content)
    (hposition : ∀ e ∈ events, ∃ position, e.position = .ok position)
    (hstate : r₀.state = r.state) :
    ∃ r₁, events.foldlM (advance T) r₀ = .ok r₁ ∧ r₁.state = r'.state := by
  induction xs generalizing r r₀ events with
  | nil =>
    obtain rfl : r' = r := h
    obtain rfl : events = [] := by simpa using hcontent
    exact ⟨r₀, rfl, hstate⟩
  | cons x rest ih =>
    obtain ⟨_, hrefusal, hrest⟩ := h
    obtain ⟨e, later, rfl⟩ : ∃ e later, events = e :: later := by
      cases events with
      | nil => simp at hcontent
      | cons e later => exact ⟨e, later, rfl⟩
    rw [List.map_cons, List.map_cons, List.cons.injEq] at hcontent
    obtain ⟨position, hp⟩ := hposition e List.mem_cons_self
    obtain ⟨r₁, hadvance, hstate'⟩ := advance_of_emit hT hstate hcontent.1 hp
      (hrefusal.symm.trans (htaken x List.mem_cons_self))
    obtain ⟨r₂, hfold, hstate''⟩ := ih hrest (fun y hy => htaken y (List.mem_cons_of_mem _ hy))
      hcontent.2 (fun e' he' => hposition e' (List.mem_cons_of_mem _ he')) hstate'
    exact ⟨r₂, by rw [List.foldlM_cons, hadvance]; exact hfold, hstate''⟩

/-- If nothing was uncommitted at first, the replay leads to the root that the emissions have led to,
with their events committed. -/
theorem Emits.replay_eq (hT : T.ReadsContent) {xs : List Emission} {events : List Event}
    {r r' : Root S} (h : r.Emits T xs r') (htaken : ∀ x ∈ xs, x.refusal = none)
    (hcontent : events.map Event.content = xs.map fun x => x.event.content)
    (hposition : ∀ e ∈ events, ∃ position, e.position = .ok position)
    (huncommitted : r.uncommitted = []) {last : Event} (hlast : events.getLast? = some last)
    {cutoff : Int} (hcutoff : last.position = .ok cutoff) :
    events.foldlM (advance T) r = .ok { r' with
      sequence := r'.sequence + events.length, cutoff, uncommitted := [] } := by
  obtain ⟨r₁, hfold, hstate⟩ := h.replay hT htaken hcontent hposition rfl
  obtain ⟨hid, hsequence, hnone, hlast'⟩ := foldlM_advance_eq_ok hfold
  obtain ⟨hid', hsequence', _, _⟩ := h.uncommitted
  rw [hfold]
  obtain ⟨id, sequence, cutoff', uncommitted, state⟩ := r₁
  obtain rfl : cutoff' = cutoff := Except.ok.inj ((hlast' last hlast).symm.trans hcutoff)
  simp_all

end Root

/-! ### Where the roots at hand come from -/

section

variable {κ S : Type} (types : κ → AggregateType S)

/-- What a root at hand was at first: the root that the history makes with which it was loaded. A root
that was created then had none. -/
def Loaded.Origin (loads : List (Loaded κ S)) (kind : κ) (id : String) (r : Root S) : Prop :=
  ∃ l ∈ loads, l.kind = kind ∧ l.id = id ∧
    Root.ofHistory (types kind) id (l.log.history id) = .ok r

variable {types} [DecidableEq κ] {repo : Repository SharedLog} {u : UnitOfWork κ S}
  {b : Backing SharedLog}

/-- Loads are what is added to the roots at hand. -/
theorem UnitOfWork.loads_cases (types : κ → AggregateType S) (repo : Repository SharedLog)
    (mode : Acquisition) (kind : κ) (id : String) (u : UnitOfWork κ S) (b : Backing SharedLog) :
    (u.loads types repo mode kind id b = [] ∧ (u.acquire types repo mode kind id b).2.1 = u ∧
      (u.roots.get? id = none → ∀ root, (u.acquire types repo mode kind id b).1 ≠ .ok (some root))) ∨
    ∃ root, u.roots.get? id = none ∧
      u.loads types repo mode kind id b
        = [⟨mode, kind, id, root, (u.acquire types repo mode kind id b).2.2.store.log⟩] ∧
      (u.acquire types repo mode kind id b).1 = .ok (some root) ∧
      (u.acquire types repo mode kind id b).2.1 = ⟨u.roots.insert id (kind, root)⟩ := by
  unfold loads
  rcases u.acquire_cases types repo mode kind id b with
    ⟨hsame, _, hnot⟩ | ⟨root, hget, hanswer, hadded, _⟩
  · refine .inl ⟨?_, hsame, hnot⟩
    split
    · rename_i root _ b' hget hacquire
      exact absurd (by rw [hacquire]) (hnot hget root)
    · rfl
  · refine .inr ⟨root, hget, ?_, hanswer, hadded⟩
    rcases hacquire : u.acquire types repo mode kind id b with ⟨answer, u', b'⟩
    rw [hacquire] at hanswer
    obtain rfl : answer = .ok (some root) := hanswer
    rw [hget]

omit [DecidableEq κ] in
/-- A root that was loaded right comes from the history that the load has met: it is that root, or it
was created from the root without history. -/
theorem Loaded.Right.origin {l : Loaded κ S} (h : l.Right types) {r : Root S}
    (hr : l.root.hasHistory = true ∧ r = l.root ∨
      Repository.create (types l.kind) l.id = .ok l.root ∧ r = Root.new (types l.kind) l.id) :
    Root.ofHistory (types l.kind) l.id (l.log.history l.id) = .ok r := by
  have hcreated : Repository.create (types l.kind) l.id = .ok l.root → l.root.hasHistory = false := by
    intro hcreate
    rw [Root.hasHistory, (Repository.create_eq_ok hcreate).2.1]
    rfl
  rcases Log.answer_cases h.consistent h.answer with hroot | ⟨hnone, hcreate⟩
  · rcases hr with ⟨_, rfl⟩ | ⟨hcreate, rfl⟩
    · exact hroot
    · -- A created root has no history, so neither has the log.
      have hempty := Root.hasHistory_ofHistory hroot
      rw [hcreated hcreate] at hempty
      have hnone : l.log.history l.id = [] := by simpa using hempty
      rw [hnone]
      rfl
  · rcases hr with ⟨hhistory, rfl⟩ | ⟨_, rfl⟩
    · rw [hcreated hcreate] at hhistory
      cases hhistory
    · rw [hnone]
      rfl

/-- The roots at hand are in the order of the loads. -/
theorem UnitOfWork.keys_acquire {loads : List (Loaded κ S)}
    (hkeys : u.roots.keys = loads.map Loaded.id) (types : κ → AggregateType S)
    (repo : Repository SharedLog) (mode : Acquisition) (kind : κ) (id : String)
    (b : Backing SharedLog) : (u.acquire types repo mode kind id b).2.1.roots.keys
      = (loads ++ u.loads types repo mode kind id b).map Loaded.id := by
  rcases u.loads_cases types repo mode kind id b with
    ⟨hloads, hsame, _⟩ | ⟨root, hget, hloads, _, hadded⟩
  · rw [hsame, hloads, List.append_nil, hkeys]
  · have hnew : id ∉ u.roots.keys := (Table.get?_eq_none_iff _ _).1 hget
    rw [hadded, hloads, Table.keys_insert, if_neg hnew, hkeys, List.map_append]
    rfl

/-- A root that is added comes from the history that the log has at that moment. -/
theorem Working.traced_acquire {loads : List (Loaded κ S)} {trace : List Emission}
    (hstore : repo.store = SharedLog.store)
    (hfaithful : AggregateType.Faithful (S := fun _ => S) types) (h : Working types loads u b)
    (htraced : u.Traced types (Loaded.Origin types loads) trace) (mode : Acquisition) (kind : κ)
    (id : String) : (u.acquire types repo mode kind id b).2.1.Traced types
      (Loaded.Origin types (loads ++ u.loads types repo mode kind id b))
      (trace ++ u.hookEmissions types repo mode kind id b) := by
  refine (htraced.mono fun kind' id' r hr => ?_).acquire repo mode kind id b ?_
  · obtain ⟨l, hl, hrest⟩ := hr
    exact ⟨l, List.mem_append_left _ hl, hrest⟩
  · intro r root hget hanswer hr
    rcases u.loads_cases types repo mode kind id b with
      ⟨_, _, hnot⟩ | ⟨root', _, hloads, hanswer', _⟩
    · exact absurd hanswer (hnot hget root)
    · cases hanswer.symm.trans hanswer'
      have hmem : (⟨mode, kind, id, root, (u.acquire types repo mode kind id b).2.2.store.log⟩ :
          Loaded κ S) ∈ loads ++ u.loads types repo mode kind id b := by simp [hloads]
      have hright := ((h.acquire hstore hfaithful mode kind id).right _ hmem).1
      refine ⟨_, hmem, rfl, rfl, hright.origin ?_⟩
      rcases hr with ⟨hfound, rfl⟩ | ⟨_, hcreate, rfl⟩
      · exact .inl ⟨(Repository.hydrate_eq_ok hfound).2.2, rfl⟩
      · exact .inr ⟨hcreate, rfl⟩

/-- Every program keeps its roots in the order of its loads, and every root is what its emissions have
made of what was loaded. -/
theorem Program.traced (hstore : repo.store = SharedLog.store)
    (hfaithful : AggregateType.Faithful (S := fun _ => S) types) (program : Program κ S)
    {loads : List (Loaded κ S)} {trace : List Emission} (h : Working types loads u b)
    (htraced : u.Traced types (Loaded.Origin types loads) trace)
    (hkeys : u.roots.keys = loads.map Loaded.id) :
    (program.run types repo u b).2.1.Traced types
        (Loaded.Origin types (loads ++ program.loads types repo u b))
        (trace ++ program.emissions types repo u b) ∧
      (program.run types repo u b).2.1.roots.keys
        = (loads ++ program.loads types repo u b).map Loaded.id := by
  induction program generalizing loads trace u b with
  | done =>
    rw [Program.loads, emissions, List.append_nil, List.append_nil]
    exact ⟨htraced, hkeys⟩
  | fail err =>
    rw [Program.loads, emissions, List.append_nil, List.append_nil]
    exact ⟨htraced, hkeys⟩
  | acquire mode kind id next ih =>
    rw [Program.loads, emissions, ← List.append_assoc, ← List.append_assoc]
    exact ih _ (h.acquire hstore hfaithful mode kind id)
      (h.traced_acquire hstore hfaithful htraced mode kind id)
      (UnitOfWork.keys_acquire hkeys types repo mode kind id b)
  | emit id e next ih =>
    rw [Program.loads, emissions, ← List.append_assoc]
    exact ih _ (h.emit id e) (htraced.emit id e) ((UnitOfWork.keys_emit types id e).trans hkeys)

end

/-- The stored events of a root at hand, replayed on what it was at first, make the root that is at
hand, with its events committed. -/
theorem UnitOfWork.replay_filter {κ S : Type} {types : κ → AggregateType S}
    {first : κ → String → Root S → Prop} {trace : List Emission} {u : UnitOfWork κ S}
    (h : u.Traced types first trace) (howned : u.Owned)
    (hread : ∀ k, (types k).ReadsContent) (htaken : ∀ x ∈ trace, x.refusal = none) {batch : Uuid}
    {s : Batch.Stamp} {position : Int} {block : List Event}
    (hblock : List.Forall₂ (Event.StoredAs batch) (Batch.number s position u.takePending.1) block)
    (hposition : ∀ e ∈ block, ∃ p, e.position = .ok p) {id : String} {kind : κ} {root : Root S}
    (hget : u.roots.get? id = some (kind, root)) {last : Event}
    (hlast : (block.filter (Event.isOf id)).getLast? = some last) {cutoff : Int}
    (hcutoff : last.position = .ok cutoff) : ∃ r, first kind id r ∧
      (block.filter (Event.isOf id)).foldlM (Root.advance (types kind)) r = .ok { root with
        sequence := root.sequence + (block.filter (Event.isOf id)).length
        cutoff
        uncommitted := [] } := by
  obtain ⟨r, hr, _, huncommitted, hemits⟩ := h.held id kind root hget
  have hall : (trace.filter (Emission.isOn id)).filter Emission.accepted
      = trace.filter (Emission.isOn id) := by
    refine List.filter_eq_self.2 fun x hx => ?_
    rw [Emission.accepted, htaken x (List.mem_filter.1 hx).1]
    rfl
  have hcontent := UnitOfWork.content_filter h howned hblock id
  rw [hall] at hcontent
  exact ⟨r, hr, hemits.replay_eq (hread kind) (fun x hx => htaken x (List.mem_filter.1 hx).1)
    hcontent (fun e he => hposition e (List.mem_filter.1 he).1) huncommitted hlast hcutoff⟩

/-- If nothing was refused, a stored batch tells what was emitted, root by root in the order of the
loads. -/
theorem UnitOfWork.told_loads {κ S : Type} {types : κ → AggregateType S}
    {first : κ → String → Root S → Prop} {trace : List Emission} {u : UnitOfWork κ S}
    (h : u.Traced types first trace) (howned : u.Owned) {loads : List (Loaded κ S)}
    (hkeys : u.roots.keys = loads.map Loaded.id) (htaken : ∀ x ∈ trace, x.refusal = none) {batch : Uuid}
    {s : Batch.Stamp} {position : Int} {block : List Event}
    (hblock : List.Forall₂ (Event.StoredAs batch) (Batch.number s position u.takePending.1) block) :
    block.map Event.told = loads.flatMap fun l =>
      (trace.filter (Emission.isOn l.id)).map fun x => (.ok l.id, x.event.content) := by
  rw [Event.StoredAs.told hblock, UnitOfWork.told_number h howned, hkeys, List.flatMap_map]
  refine List.flatMap_congr fun l _ => ?_
  rw [List.filter_eq_self.2 fun x hx => ?_]
  rw [Emission.accepted, htaken x (List.mem_filter.1 hx).1]
  rfl

/-- If the loads of the roots with events in a block are up to date with the log before it, the history
behind the block makes of each of them the root at hand, with its events committed. -/
theorem Working.replay_block {κ S : Type} {types : κ → AggregateType S} {loads : List (Loaded κ S)}
    {u : UnitOfWork κ S} {b : Backing SharedLog} (h : Working types loads u b) {trace : List Emission}
    (htraced : u.Traced types (Loaded.Origin types loads) trace) (howned : u.Owned)
    (hread : ∀ k, (types k).ReadsContent) (htaken : ∀ x ∈ trace, x.refusal = none) {batch : Uuid}
    {s : Batch.Stamp} {position : Int} {block : List Event}
    (hblock : List.Forall₂ (Event.StoredAs batch) (Batch.number s position u.takePending.1) block)
    {earlier log : Log} (hlog : log.Consistent) (hevents : log.events = earlier.events ++ block)
    (hcurrent : ∀ l ∈ loads, (∃ e ∈ block, e.root = .ok l.id) → l.Current types earlier)
    {l : Loaded κ S} (hl : l ∈ loads) (hhas : ∃ e ∈ block, e.root = .ok l.id) :
    ∃ root last cutoff, u.roots.get? l.id = some (l.kind, root) ∧
      (block.filter (Event.isOf l.id)).getLast? = some last ∧ last.position = .ok cutoff ∧
      log.history l.id ≠ [] ∧ Root.ofHistory (types l.kind) l.id (log.history l.id) = .ok { root with
        sequence := root.sequence + (block.filter (Event.isOf l.id)).length
        cutoff
        uncommitted := [] } := by
  obtain ⟨e, he, hroot⟩ := id hhas
  have hposition : ∀ e ∈ block, ∃ p, e.position = .ok p := by
    intro e he
    obtain ⟨i, hi⟩ := List.getElem?_of_mem (hevents ▸ List.mem_append_right _ he)
    exact ⟨_, hlog.position hi⟩
  obtain ⟨root, hget, _⟩ := h.kept l hl
  have hmine : block.filter (Event.isOf l.id) ≠ [] :=
    List.ne_nil_of_mem (List.mem_filter.2 ⟨he, (Event.isOf_iff _ _).2 hroot⟩)
  have hlast := List.getLast?_eq_some_getLast hmine
  obtain ⟨cutoff, hcutoff⟩ := hposition _ (List.mem_filter.1 (List.getLast_mem hmine)).1
  obtain ⟨r, ⟨l', hl', hkind, hid, horigin⟩, hreplay⟩ := UnitOfWork.replay_filter htraced howned
    hread htaken hblock hposition hget hlast hcutoff
  -- The root was loaded as the history before the block makes it, and the block has the rest.
  have hsame : l'.log.history l.id = earlier.history l.id := by
    rw [← hid] at hhas ⊢
    exact (hcurrent l' hl' hhas).history
  have hhistory := Log.history_of_append hevents l.id
  have hmade : Root.ofHistory (types l.kind) l.id
        (earlier.history l.id ++ block.filter (Event.isOf l.id))
      = Root.ofHistory (types l.kind) l.id (earlier.history l.id) >>= _ :=
    Root.ofHistory_append _ _
  rw [← hhistory, ← hsame, horigin] at hmade
  refine ⟨root, _, cutoff, hget, hlast, hcutoff, ?_, hmade.trans hreplay⟩
  rw [hhistory]
  exact List.append_ne_nil_of_right_ne_nil _ hmine

/-! ### Attempts -/

/-- The log without the other writers. -/
def Backing.unshared (b : Backing SharedLog) : Backing Log where
  store := b.store.log
  cache := b.cache
  now := b.now

/-- The history of a root ends at the last position of the log. -/
theorem Log.Consistent.filter_upTo_end {log : Log} (hlog : log.Consistent) (id : String) :
    (log.history id).filter (Event.upTo (log.size - 1)) = log.history id := by
  refine List.filter_eq_self.2 fun e he => ?_
  obtain ⟨i, hi⟩ := List.getElem?_of_mem (Log.mem_history.1 he).1
  have hposition := hlog.position hi
  have hlt := hlog.position_lt_size (Log.mem_history.1 he).1 hposition
  rw [Event.upTo_eq_decide hposition, decide_eq_true_eq]
  omega

namespace Repository

variable {κ S : Type} {types : κ → AggregateType S} {b : Backing Log} {k : κ} {id : String}
  {root : Root S}

/-- A root can be loaded at a position if there is a history up to it, and it is what that makes. -/
theorem getAt_eq_ok (hb : b.Sound (S := fun _ => S) types b.store)
    (hfaithful : AggregateType.Faithful (S := fun _ => S) types) (threshold : Nat) {bound : Int}
    (hne : (b.store.history id).filter (Event.upTo bound) ≠ [])
    (hroot : Root.ofHistory (types k) id ((b.store.history id).filter (Event.upTo bound)) = .ok root) :
    (getAt ⟨Log.store, threshold⟩ (types k) id bound b).1 = .ok root := by
  obtain ⟨_, hload, _⟩ := load_eq_answer hb hfaithful threshold k id (.getAt bound)
  have hanswer : b.store.answer (types k) id (.getAt bound) = .ok (some root) := by
    have hhistory := Root.hasHistory_ofHistory hroot
    rw [Log.answer, Log.replay_eq, LoadRequest.bound, hroot]
    simp only [Except.map, hhistory, List.isEmpty_eq_false_iff.2 hne, Bool.not_false, if_true]
  have hfound := (congrArg Prod.fst hload).trans hanswer
  simp only [load] at hfound
  cases hget : (getAt ⟨Log.store, threshold⟩ (types k) id bound b).1 with
  | error err =>
    rw [hget] at hfound
    cases hfound
  | ok root' =>
    rw [hget] at hfound
    cases hfound
    rfl

/-- What a history makes can be loaded at the last position of its log, when more has been saved. -/
theorem getAt_extends {log : Log} (hlog : log.Consistent) (hext : log.Extends b.store)
    (hb : b.Sound (S := fun _ => S) types b.store)
    (hfaithful : AggregateType.Faithful (S := fun _ => S) types) (hne : log.history id ≠ [])
    (hroot : Root.ofHistory (types k) id (log.history id) = .ok root) (threshold : Nat) :
    (getAt ⟨Log.store, threshold⟩ (types k) id (log.size - 1) b).1 = .ok root := by
  have hfilter := (hb.consistent.filter_upTo_extends hext
    (Int.sub_one_lt_of_le (Int.le_refl _)) id).trans (hlog.filter_upTo_end id)
  rw [← hfilter] at hroot hne
  exact getAt_eq_ok hb hfaithful threshold hne hroot

/-- What a history makes can be loaded at the last position of its log, with and without snapshots,
whatever is saved and loaded afterwards. -/
theorem getAt_end (hb : b.Sound (S := fun _ => S) types b.store)
    (hfaithful : AggregateType.Faithful (S := fun _ => S) types) (hne : b.store.history id ≠ [])
    (hroot : Root.ofHistory (types k) id (b.store.history id) = .ok root)
    (steps : List (LoadStep κ)) (threshold : Nat) :
    let later := LoadStep.runAll types steps b
    let repo : Repository Log := ⟨Log.store, threshold⟩
    (repo.getAt (types k) id (b.store.size - 1) later).1 = .ok root ∧
      (repo.getAt (types k) id (b.store.size - 1) { later with cache := SnapshotCache.new 0 }).1
        = .ok root := by
  intro later repo
  have hlater := LoadStep.sound_runAll hfaithful steps hb
  have hext := LoadStep.extends_runAll hfaithful steps hb
  -- A cache that holds nothing is sound too.
  have huncached : Backing.Sound (S := fun _ => S) types later.store
      { later with cache := SnapshotCache.new 0 } :=
    ⟨hlater.consistent, SnapshotCache.sound_new _ _ 0⟩
  exact ⟨getAt_extends hb.consistent hext hlater hfaithful hne hroot threshold,
    getAt_extends (b := { later with cache := SnapshotCache.new 0 }) hb.consistent hext huncached
      hfaithful hne hroot threshold⟩

end Repository

namespace Processor

variable {δ κ S : Type} [DecidableEq κ] {p : Processor SharedLog δ κ S} {c : Command κ S}

/-- What the attempt that starts in a state had at hand, and what its committed block makes of it. -/
structure Agrees (p : Processor SharedLog δ κ S) (c : Command κ S) (w : Processing SharedLog δ)
    (block : List Event) : Prop where
  /-- Every root has been loaded once. -/
  once : ((p.loads c w).map Loaded.id).Nodup
  /-- The block tells what has been emitted, root by root in the order of the loads. -/
  told : block.map Event.told = (p.loads c w).flatMap fun l =>
    ((p.emissions c w).filter (Emission.isOn l.id)).map fun x => (.ok l.id, x.event.content)
  /-- On every root, what its creation has emitted comes first. -/
  hooks : ∀ id, ((p.emissions c w).filter (Emission.isOn id)).Pairwise fun a b =>
    b.hook = true → a.hook = true
  /-- Whoever loads a root with an event in the block at the last position of the block, with or
  without snapshots and whatever has been saved and loaded since, gets the root that was at hand at the
  end, with its events committed. -/
  replay : ∀ l ∈ p.loads c w, (∃ e ∈ block, e.root = .ok l.id) → ∃ position root last cutoff,
    lastPosition block = some position ∧ (p.work c w).roots.get? l.id = some (l.kind, root) ∧
    (block.filter (Event.isOf l.id)).getLast? = some last ∧ last.position = .ok cutoff ∧
    ∀ (steps : List (LoadStep κ)) (threshold : Nat),
      let later := LoadStep.runAll p.types steps (p.attempt c w).2.backing.unshared
      let repo : Repository Log := ⟨Log.store, threshold⟩
      let seen : Root S := { root with
        sequence := root.sequence + (block.filter (Event.isOf l.id)).length
        cutoff
        uncommitted := [] }
      (repo.getAt (p.types l.kind) l.id position later).1 = .ok seen ∧
        (repo.getAt (p.types l.kind) l.id position
          { later with cache := SnapshotCache.new 0 }).1 = .ok seen

/-- What an attempt commits is the numbered batch of what it has emitted. There is an id unless that
is nothing. -/
theorem exists_number (hstore : p.repository.store = SharedLog.store) {w : Processing SharedLog δ}
    (hlog : w.backing.store.log.Consistent) {batch : Option Uuid} {block : List Event}
    (h : (p.attempt c w).1 = .ok (.committed batch block)) : (block ≠ [] → batch ≠ none) ∧
      ∃ batch' s position, List.Forall₂ (Event.StoredAs batch')
        (Batch.number s position (p.work c w).takePending.1) block := by
  obtain ⟨_, ⟨hnot, _⟩ | ⟨hnone, hemitted, _⟩ | ⟨batch', block', hsome, hcommits⟩⟩ :=
    attempt_cases hstore c hlog
  · exact absurd h (hnot _ _)
  · cases h.symm.trans hnone
    rw [← emitted_eq_some hemitted]
    exact ⟨fun hne => absurd rfl hne, .nil, ⟨.nil, w.backing.now, c.metadata⟩, 0, .nil⟩
  · cases h.symm.trans hsome
    obtain ⟨_, time, position, hemitted, hblock⟩ := hcommits.numbered
    rw [emitted_eq_some hemitted] at hblock
    exact ⟨fun _ => nofun, batch', _, position, hblock⟩

/-- An attempt that commits agrees with the replay, if no event was refused. -/
theorem agrees (hstore : p.repository.store = SharedLog.store)
    (hfaithful : AggregateType.Faithful (S := fun _ => S) p.types)
    (hread : ∀ k, (p.types k).ReadsContent) {w : Processing SharedLog δ}
    (hw : w.backing.Sound (S := fun _ => S) p.types w.backing.store.log) {batch : Option Uuid}
    {block : List Event} (hcommitted : (p.attempt c w).1 = .ok (.committed batch block))
    (htaken : ∀ x ∈ p.emissions c w, x.refusal = none) : p.Agrees c w block := by
  have htraced := c.program.traced hstore hfaithful (Working.empty hw)
    (UnitOfWork.Traced.empty p.types _) rfl
  obtain ⟨hwork, hkeys⟩ :
      (p.work c w).Traced p.types (Loaded.Origin p.types (p.loads c w)) (p.emissions c w) ∧
        (p.work c w).roots.keys = (p.loads c w).map Loaded.id := htraced
  have howned : (p.work c w).Owned :=
    UnitOfWork.owned_empty.run p.types p.repository c.program w.backing
  obtain ⟨hbatch, _, s, position, hblock⟩ := exists_number hstore hw.consistent hcommitted
  refine ⟨hkeys ▸ (p.work c w).roots.nodup_keys, UnitOfWork.told_loads hwork howned hkeys htaken hblock,
    hwork.hooks, fun l hl hhas => ?_⟩
  obtain ⟨e, he, _⟩ := id hhas
  have hne := List.ne_nil_of_mem he
  obtain ⟨batch, rfl⟩ := Option.ne_none_iff_exists'.1 (hbatch hne)
  obtain ⟨hsound, hspec⟩ := attempt_spec hstore hfaithful c hw
  obtain ⟨earlier, _, hevents, _, hcurrent⟩ := hspec batch block hcommitted
  obtain ⟨root, last, cutoff, hget, hlast, hcutoff, hsome, hreplay⟩ :=
    ((Working.empty hw).run hstore hfaithful c.program).replay_block hwork howned hread htaken hblock
      hsound.consistent hevents hcurrent hl hhas
  have hunshared : (p.attempt c w).2.backing.unshared.Sound (S := fun _ => S) p.types
      (p.attempt c w).2.backing.unshared.store := ⟨hsound.consistent, hsound.cache⟩
  exact ⟨_, root, last, cutoff, lastPosition_block hsound.consistent hevents hne, hget, hlast,
    hcutoff, Repository.getAt_end hunshared hfaithful hsome hreplay⟩

end Processor

/-- **What a command saw is what a replay gives.** A command is processed on a log and snapshots that
any saves and loads have left, while other writers save what they like before every step
(`Backing.shared`). Whichever attempt commits, if no aggregate has refused an event in it: the block has
the events of its roots, root by root in the order of `p.loads`, each as it was emitted (`p.emissions`) and
those of the creation first; and a root that `Repository.getAt` loads at the last position of the block is
the root that the attempt had at hand (`p.work`), numbered on and cut at its last event
(`Processor.Agrees`). It is assumed that aggregates read nothing of an event but its type tag and its
payload (`ReadsContent`), and that a stored state that can be read is the one that was stored
(`AggregateType.Faithful`). In `Course.replay_gives` others may change the snapshots as well. -/
theorem Processor.replay_agrees {δ κ S : Type} [DecidableEq κ] {p : Processor SharedLog δ κ S}
    (hstore : p.repository.store = SharedLog.store)
    (hfaithful : AggregateType.Faithful (S := fun _ => S) p.types)
    (hread : ∀ k, (p.types k).ReadsContent) {limit : Nat} {start : Instant}
    {steps : List (LoadStep κ)} {ahead : List Happening} {w : Processing SharedLog δ}
    (hw : w.backing = (LoadStep.runAll p.types steps (Backing.fresh limit start)).shared ahead)
    {c : Command κ S} {k : Nat} {batch : Option Uuid} {block : List Event}
    (hcommitted : p.outcome c k w = .ok (.committed batch block))
    (htaken : ∀ x ∈ p.emissions c (p.startOf c k w), x.refusal = none) :
    p.Agrees c (p.startOf c k w) block := by
  have hfilled := LoadStep.sound_runAll hfaithful steps
    (Backing.sound_fresh (S := fun _ => S) p.types limit start)
  have hsound : w.backing.Sound (S := fun _ => S) p.types w.backing.store.log := by
    rw [hw]
    exact ⟨hfilled.consistent, hfilled.cache⟩
  exact agrees hstore hfaithful hread (startOf_sound hstore hfaithful c k hsound) hcommitted htaken

namespace Sample

theorem readsContent_aggregateType (k : Kind) : (aggregateType k).ReadsContent := by
  intro state e e' h
  obtain ⟨htag, hpayload⟩ : e.tag = e'.tag ∧ e.payload = e'.payload := Prod.mk.inj h
  show applyState state e = applyState state e'
  cases state <;>
    simp only [applyState, applyCounter, applyAccount, applyBrittle, payloadOf, Event.readPayload,
      htag, hpayload]

/-- Counts a deposit with a new counter, before and after the deposit. -/
def counting : Command Kind State :=
  let count := Event.new "Incremented" (incremented.encode 1)
  deedsCommand "count"
    [⟨.load, .counter, "n", [count]⟩,
      ⟨.get, .account, "a", [Event.new "Deposited" (deposited.encode 7)]⟩,
      ⟨.load, .counter, "n", [count]⟩]
    none Dict.empty

end Sample

set_option maxRecDepth 10000 in
/-- The deposit meets another deposit, so its second attempt is the one that commits; the events of the
counter stand together there, its creation first. -/
theorem Processor.replay_agrees_counting :
    ∃ block, Sample.teller.outcome Sample.counting 1 Sample.contested
        = .ok (.committed (some .nil) block) ∧
      block.map Event.tag = ["CounterCreated", "Incremented", "Incremented", "Deposited"] ∧
      Sample.teller.Agrees Sample.counting (Sample.teller.startOf Sample.counting 1 Sample.contested)
        block := by
  have hok : ((Sample.teller.outcome Sample.counting 1 Sample.contested).toOption.any fun
      | .committed batch block => decide (batch = some .nil ∧ block.map Event.tag
          = ["CounterCreated", "Incremented", "Incremented", "Deposited"])
      | .conflict _ => false) = true := by decide +kernel
  have htaken : ∀ x ∈ Sample.teller.emissions Sample.counting
      (Sample.teller.startOf Sample.counting 1 Sample.contested), x.refusal = none := by
    decide +kernel
  rcases houtcome : Sample.teller.outcome Sample.counting 1 Sample.contested with
    err | ⟨batch, block⟩ | conflict
  · rw [houtcome] at hok
    cases hok
  · rw [houtcome] at hok
    obtain ⟨rfl, htags⟩ := of_decide_eq_true hok
    exact ⟨block, rfl, htags, Processor.replay_agrees rfl Sample.faithful_aggregateType
      Sample.readsContent_aggregateType rfl houtcome htaken⟩
  · rw [houtcome] at hok
    cases hok

end Chronicle
