import Chronicle.Proofs.Command.Trials

namespace Chronicle

/-!
# Roots are created once

* `UnitOfWork.Accounted` — the roots at hand without history are the ones that were created, and every
  creation has left its emissions once.
* `Trial.Right` — that holds of every attempt that is under way, and its batch is what it has emitted.
* `Trials.Right` — the log of many attempts consists of their committed batches, each of them once.
* `Trials.created_once` — so a history begins with what the one creation of its root has emitted.
-/

/-! ### What has been created -/

section

variable {σ κ S : Type} {types : κ → AggregateType S} {u : UnitOfWork κ S} {trace : List Emission}
  {created : List (String × κ)}

/-- The roots that were created are accounted for. -/
structure UnitOfWork.Accounted (types : κ → AggregateType S) (trace : List Emission)
    (created : List (String × κ)) (u : UnitOfWork κ S) : Prop where
  /-- The roots at hand have events of their own only. -/
  owned : u.Owned
  /-- A root at hand was created, or it had history at first. -/
  traced : u.Traced types (fun kind id r => (id, kind) ∈ created ∨ r.hasHistory = true) trace
  /-- A root that was created is at hand without history. -/
  fresh : ∀ id kind, (id, kind) ∈ created →
    ∃ root, u.roots.get? id = some (kind, root) ∧ root.hasHistory = false
  /-- Its creation has left its emissions, once. -/
  creations : ∀ id kind, (id, kind) ∈ created →
    (trace.filter (Emission.isOn id)).filter Emission.hook = (types kind).creation id
  /-- There are no emissions of other creations. -/
  others : ∀ id, (∀ kind, (id, kind) ∉ created) →
    (trace.filter (Emission.isOn id)).filter Emission.hook = []

namespace UnitOfWork.Accounted

theorem empty (types : κ → AggregateType S) :
    (UnitOfWork.empty : UnitOfWork κ S).Accounted types [] [] where
  owned := owned_empty
  traced := .empty types _
  fresh _ _ h := by cases h
  creations _ _ h := by cases h
  others _ _ := rfl

/-- The emissions of the creation of a root come before all others on it. -/
theorem hooks_first (h : u.Accounted types trace created) (id : String) :
    (trace.filter (Emission.isOn id)).filter Emission.hook <+: trace.filter (Emission.isOn id) := by
  have hhooks := h.traced.hooks id
  generalize trace.filter (Emission.isOn id) = emissions at hhooks
  induction emissions with
  | nil => exact List.prefix_refl _
  | cons x rest ih =>
    obtain ⟨hfirst, hrest⟩ := List.pairwise_cons.1 hhooks
    by_cases hx : x.hook = true
    · rw [List.filter_cons_of_pos hx]
      exact (List.prefix_cons_inj x).2 (ih hrest)
    · have hnone : (x :: rest).filter Emission.hook = [] := by
        rw [List.filter_eq_nil_iff]
        intro y hy hhook
        rcases List.mem_cons.1 hy with rfl | hy
        · exact hx hhook
        · exact hx (hfirst y hy hhook)
      rw [hnone]
      exact List.nil_prefix

/-- An emitted event changes neither history nor creations. -/
theorem emit (h : u.Accounted types trace created) (id : String) (e : Event) :
    (u.emit types id e).2.Accounted types (trace ++ u.emission types id e) created := by
  have hhook : ∀ id', ((trace ++ u.emission types id e).filter (Emission.isOn id')).filter
      Emission.hook = (trace.filter (Emission.isOn id')).filter Emission.hook := by
    intro id'
    have hnone : ((u.emission types id e).filter (Emission.isOn id')).filter Emission.hook = [] := by
      unfold emission
      split
      · simp [List.filter_cons]
      · rfl
    rw [List.filter_append, List.filter_append, hnone, List.append_nil]
  refine ⟨h.owned.emit types id e, h.traced.emit id e, ?fresh, ?creations, ?others⟩
  case fresh =>
    intro id' kind' hmem
    obtain ⟨root, hget, hnot⟩ := h.fresh id' kind' hmem
    unfold UnitOfWork.emit
    cases hid : u.roots.get? id with
    | none => exact ⟨root, hget, hnot⟩
    | some entry =>
      obtain ⟨kind, held⟩ := entry
      simp only [Table.get?_insert]
      split
      · rename_i heq
        rw [heq, hid] at hget
        cases hget
        exact ⟨_, rfl, by rw [Root.hasHistory, Root.sequence_emit]; exact hnot⟩
      · exact ⟨root, hget, hnot⟩
  case creations =>
    intro id' kind' hmem
    rw [hhook]
    exact h.creations id' kind' hmem
  case others =>
    intro id' hnot
    rw [hhook]
    exact h.others id' hnot

/-- A root that is not at hand is none of those that were created. -/
theorem ne_of_get?_eq_none (h : u.Accounted types trace created) {id id' : String} {kind : κ}
    (hget : u.roots.get? id = none) (hmem : (id', kind) ∈ created) : id' ≠ id := by
  rintro rfl
  obtain ⟨_, hget', _⟩ := h.fresh id' kind hmem
  cases hget.symm.trans hget'

/-- A root with history may be added. -/
theorem add_found (h : u.Accounted types trace created) {kind : κ} {id : String} {root : Root S}
    (hget : u.roots.get? id = none) (howned : Owned ⟨u.roots.insert id (kind, root)⟩)
    (htraced : Traced types (fun kind id r => (id, kind) ∈ created ∨ r.hasHistory = true) trace
      ⟨u.roots.insert id (kind, root)⟩) :
    Accounted types trace created ⟨u.roots.insert id (kind, root)⟩ where
  owned := howned
  traced := htraced
  fresh id' kind' hmem := by
    rw [Table.get?_insert, if_neg (h.ne_of_get?_eq_none hget hmem)]
    exact h.fresh id' kind' hmem
  creations := h.creations
  others := h.others

/-- So may a root without, with the emissions of its creation. -/
theorem add_created (h : u.Accounted types trace created) {kind : κ} {id : String} {root : Root S}
    (hget : u.roots.get? id = none) (hnot : root.hasHistory = false)
    (howned : Owned ⟨u.roots.insert id (kind, root)⟩)
    (htraced : Traced types
      (fun kind' id' r => (id', kind') ∈ created ++ [(id, kind)] ∨ r.hasHistory = true)
      (trace ++ (types kind).creation id) ⟨u.roots.insert id (kind, root)⟩) :
    Accounted types (trace ++ (types kind).creation id) (created ++ [(id, kind)])
      ⟨u.roots.insert id (kind, root)⟩ := by
  -- All that is emitted is emitted on this root, by its creation.
  have hself : (((types kind).creation id).filter (Emission.isOn id)).filter Emission.hook
      = (types kind).creation id := by
    rw [List.filter_filter, List.filter_eq_self]
    intro x hx
    obtain ⟨hroot, hhook⟩ := AggregateType.mem_creation hx
    simp [hroot, hhook]
  have hother : ∀ id', id' ≠ id → ((types kind).creation id).filter (Emission.isOn id') = [] := by
    intro id' hne
    rw [List.filter_eq_nil_iff]
    intro x hx hon
    exact hne (((Emission.isOn_iff id' x).1 hon).symm.trans (AggregateType.mem_creation hx).1)
  refine ⟨howned, htraced, ?fresh, ?creations, ?others⟩
  case fresh =>
    intro id' kind' hmem
    rw [Table.get?_insert]
    rcases List.mem_append.1 hmem with hmem | hmem
    · rw [if_neg (h.ne_of_get?_eq_none hget hmem)]
      exact h.fresh id' kind' hmem
    · cases List.mem_singleton.1 hmem
      rw [if_pos rfl]
      exact ⟨root, rfl, hnot⟩
  case creations =>
    intro id' kind' hmem
    rw [List.filter_append]
    rcases List.mem_append.1 hmem with hmem | hmem
    · rw [hother id' (h.ne_of_get?_eq_none hget hmem), List.append_nil]
      exact h.creations id' kind' hmem
    · cases List.mem_singleton.1 hmem
      rw [h.traced.others id hget, List.nil_append, hself]
  case others =>
    intro id' hnot
    have hne : id' ≠ id := by
      rintro rfl
      exact hnot kind (List.mem_append_right _ List.mem_cons_self)
    rw [List.filter_append, hother id' hne, List.append_nil]
    exact h.others id' fun kind' hmem => hnot kind' (List.mem_append_left _ hmem)

/-- A root that is found has history. One that is created has none, and leaves its emissions. -/
theorem acquire [DecidableEq κ] (h : u.Accounted types trace created) (repo : Repository σ)
    (mode : Acquisition) (kind : κ) (id : String) (b : Backing σ) :
    (u.acquire types repo mode kind id b).2.1.Accounted types
      (trace ++ u.hookEmissions types repo mode kind id b)
      (created ++ u.creations types repo mode kind id b) := by
  have howned := h.owned.acquire types repo mode kind id b
  have hmono : u.Traced types (fun kind' id' r =>
      (id', kind') ∈ created ++ u.creations types repo mode kind id b ∨ r.hasHistory = true) trace :=
    h.traced.mono fun _ _ _ hr => hr.imp_left (List.mem_append_left _)
  have htraced := hmono.acquire repo mode kind id b
  unfold hookEmissions at htraced ⊢
  unfold UnitOfWork.creations at htraced ⊢
  rcases u.acquire_cases types repo mode kind id b with
    ⟨hsame, hcreated, _⟩ | ⟨root, hget, hanswer, hadded, ⟨hcreated, hfound⟩ |
      ⟨hcreated, _, hnone, hcreate⟩⟩
  · rw [hsame, hcreated, List.append_nil, List.append_nil]
    exact h
  · simp only [hadded, hcreated, List.append_nil] at howned htraced ⊢
    refine h.add_found hget howned (htraced ?_)
    rintro r root' _ hanswer' (⟨hfound', rfl⟩ | ⟨hnone, _⟩)
    · exact .inr (Repository.hydrate_eq_ok hfound').2.2
    · cases hfound.symm.trans hnone
  · simp only [hadded, hcreated] at howned htraced ⊢
    refine h.add_created hget ?_ howned (htraced ?_)
    · rw [Root.hasHistory, (Repository.create_eq_ok hcreate).2.1]
      rfl
    · rintro r root' _ hanswer' (⟨hfound', rfl⟩ | _)
      · exact .inr (Repository.hydrate_eq_ok hfound').2.2
      · exact .inl (List.mem_append_right _ List.mem_cons_self)

end UnitOfWork.Accounted

end

/-! ### When creations run -/

section

variable {σ κ S : Type}

/-- The creation of a root does not matter to an acquisition, unless the root is to be loaded, is not
at hand, and is not found. -/
theorem UnitOfWork.acquire_created [DecidableEq κ] (types : κ → AggregateType S)
    (creation : κ → Root S → Script S) (repo : Repository σ) {mode : Acquisition} {kind : κ}
    {id : String} {u : UnitOfWork κ S} {b : Backing σ}
    (h : mode = .load → u.roots.get? id = none →
      (repo.hydrate (types kind) id Repository.latest b).1 ≠ .ok none) :
    u.acquire (fun k => { types k with created := creation k }) repo mode kind id b
      = u.acquire types repo mode kind id b := by
  have hbound : mode.request.bound = Repository.latest := by cases mode <;> rfl
  unfold acquire
  cases hget : u.roots.get? id with
  | some entry => rfl
  | none =>
    simp only [fetch_eq_load, Repository.load_eq, hbound, Repository.hydrate_created]
    rcases hfound : (repo.hydrate (types kind) id Repository.latest b).1 with err | _ | root
    · rfl
    · cases mode with
      | get => rfl
      | tryGet => rfl
      | load => exact absurd hfound (h rfl hget)
    · rfl

/-- Nor is there a creation then. -/
theorem UnitOfWork.creations_eq_nil [DecidableEq κ] (types : κ → AggregateType S)
    (repo : Repository σ) {mode : Acquisition} {kind : κ} {id : String} {u : UnitOfWork κ S}
    {b : Backing σ}
    (h : mode = .load → u.roots.get? id = none →
      (repo.hydrate (types kind) id Repository.latest b).1 ≠ .ok none) :
    u.creations types repo mode kind id b = [] := by
  unfold creations created?
  split
  · rename_i hcreated
    split at hcreated
    · rename_i hget hnone
      exact absurd hnone (h rfl hget)
    · cases hcreated
  · rfl

/-- A root that has history is found, with any snapshots that tell where they end. -/
theorem Repository.hydrate_ne_none (types : κ → AggregateType S) (kind : κ) (threshold : Nat)
    {b : Backing Log} {id : String} (hlog : b.store.Consistent) (hcache : b.cache.Numbered b.store)
    (hhistory : b.store.history id ≠ []) :
    (hydrate ⟨Log.store, threshold⟩ (types kind) id latest b).1 ≠ .ok none := by
  intro hnone
  have hload : ∀ first, Log.store.load id first b.store
      = (Fault.read none (b.store.load id first), b.store) := fun _ => rfl
  obtain ⟨answer, _, hhydrate, _, _, hnothing⟩ := hydrate_numbers
    ⟨Log.store, threshold⟩ hlog hcache (types kind) id latest hload
  rw [hhydrate] at hnone
  have hempty := hnothing hnone
  rw [hlog.filter_upTo_latest] at hempty
  exact hhistory hempty

end

/-! ### Numbers of roots at hand -/

namespace UnitOfWork

variable {σ κ S : Type} {types : κ → AggregateType S} {u : UnitOfWork κ S}

/-- The numbers of the roots at hand are words. -/
def Worded (u : UnitOfWork κ S) : Prop :=
  ∀ id kind root, u.roots.get? id = some (kind, root) → Word64.Fits root.sequence

theorem worded_empty : (empty : UnitOfWork κ S).Worded := by
  intro id kind root h
  cases h

/-- An emission does not change the number of a root. -/
theorem Worded.emit (h : u.Worded) (id : String) (e : Event) : (u.emit types id e).2.Worded := by
  intro id' kind root hget
  rw [get?_emit] at hget
  split at hget
  · obtain ⟨⟨kind', root'⟩, hget', hroot⟩ := Option.map_eq_some_iff.1 hget
    cases hroot
    rw [Root.sequence_emit]
    exact h id kind' root' hget'
  · exact h id' kind root hget

/-- A root that is acquired from a log is numbered like its history. -/
theorem Worded.acquire [DecidableEq κ] (h : u.Worded) (threshold : Nat) {b : Backing Log}
    (hlog : b.store.Consistent) (hcache : b.cache.Numbered b.store) (mode : Acquisition) (kind : κ)
    (id : String) : (u.acquire types ⟨Log.store, threshold⟩ mode kind id b).2.1.Worded := by
  have hload : ∀ first, Log.store.load id first b.store
      = (Fault.read none (b.store.load id first), b.store) := fun _ => rfl
  rcases acquire_numbered types ⟨Log.store, threshold⟩ hlog hcache mode kind id hload u with
    hsame | ⟨root, _, hadded, _, hsequence⟩
  · rw [hsame]
    exact h
  · rw [hadded]
    intro id' kind' root' hget
    rw [Table.get?_insert] at hget
    split at hget
    · cases hget
      have hfits := hlog.fits_length_history root.id
      unfold Word64.Fits Word64.least at *
      omega
    · exact h id' kind' root' hget

end UnitOfWork

/-! ### Attempts under way -/

namespace Trial

variable {κ S : Type} {types : κ → AggregateType S} {t : Trial κ S}

/-- The batch of the attempt, if there is one yet, is what it has emitted. -/
def Carries (t : Trial κ S) : Prop :=
  match t.stage with
  | .saving events => ∃ s position, events = Batch.number s position t.work.takePending.1
  | .ended (.ok (.committed _ block)) => ∃ batch s position,
      List.Forall₂ (Event.StoredAs batch) (Batch.number s position t.work.takePending.1) block
  | _ => True

/-- What holds of an attempt all the time. -/
structure Right (types : κ → AggregateType S) (t : Trial κ S) : Prop where
  /-- The roots that it has created are accounted for. -/
  accounted : t.work.Accounted types t.trace t.created
  /-- The numbers of its roots are words. -/
  worded : t.work.Worded
  /-- Its batch is what it has emitted. -/
  carries : t.Carries

theorem right_start (types : κ → AggregateType S) (c : Command κ S) (batch : Uuid) :
    (start c batch).Right types where
  accounted := .empty types
  worded := UnitOfWork.worded_empty
  carries := trivial

/-- Every step keeps an attempt right. -/
theorem Right.next [DecidableEq κ] (h : t.Right types) (threshold : Nat) {b : Backing Log}
    (hlog : b.store.Consistent) (hcache : b.cache.Numbered b.store) :
    (t.next types ⟨Log.store, threshold⟩ b).1.Right types := by
  obtain ⟨metadata, batch, stage, work, trace, created⟩ := t
  obtain ⟨haccounted, hworded, hcarries⟩ := h
  rcases stage with (_ | err | ⟨mode, kind, id, rest⟩ | ⟨id, e, rest⟩) | events | outcome
  · simp only [Trial.next, number, Log.store]
    split
    · rename_i hnone
      refine ⟨haccounted, hworded, batch, ⟨batch, b.now, metadata⟩, 0, ?_⟩
      rw [List.isEmpty_iff.1 hnone]
      exact .nil
    · split
      · exact ⟨haccounted, hworded, trivial⟩
      · exact ⟨haccounted, hworded, _, _, rfl⟩
  · exact ⟨haccounted, hworded, trivial⟩
  · exact ⟨haccounted.acquire ⟨Log.store, threshold⟩ mode kind id b,
      hworded.acquire threshold hlog hcache mode kind id, trivial⟩
  · exact ⟨haccounted.emit id e, hworded.emit id e, trivial⟩
  · obtain ⟨s, position, hevents⟩ := hcarries
    simp only [Trial.next, Log.store]
    rcases hlog.save_cases batch events with
      ⟨err, hsave⟩ | ⟨c, hsave⟩ | ⟨block, log, hsave, hblock, _⟩ <;> rw [hsave]
    · exact ⟨haccounted, hworded, trivial⟩
    · exact ⟨haccounted, hworded, trivial⟩
    · exact ⟨haccounted, hworded, batch, s, position, hevents ▸ hblock⟩
  · exact ⟨haccounted, hworded, hcarries⟩

/-- The attempt has committed a batch. -/
def Committed (t : Trial κ S) (block : List Event) : Prop :=
  ∃ batch, t.stage = .ended (.ok (.committed batch block))

/-- A committed batch is the numbered one of what the attempt has emitted. -/
theorem Right.exists_number (h : t.Right types) {block : List Event} (hcommitted : t.Committed block) :
    ∃ batch s position,
      List.Forall₂ (Event.StoredAs batch) (Batch.number s position t.work.takePending.1) block := by
  obtain ⟨_, hstage⟩ := hcommitted
  have hcarries := h.carries
  rwa [Carries, hstage] at hcarries

/-- A committed batch has, of every root, what the attempt has emitted on it and what was taken. -/
theorem Right.content_filter (h : t.Right types) {block : List Event} (hcommitted : t.Committed block)
    (id : String) :
    (block.filter (Event.isOf id)).map Event.content
      = ((t.trace.filter (Emission.isOn id)).filter Emission.accepted).map fun x =>
          x.event.content := by
  obtain ⟨_, _, _, hblock⟩ := h.exists_number hcommitted
  exact UnitOfWork.content_filter h.accounted.traced h.accounted.owned hblock id

end Trial

/-! ### Many attempts -/

namespace Trials

variable {κ S : Type} {types : κ → AggregateType S} {s : Trials κ S}

/-- What one of the attempts has committed. -/
def block (s : Trials κ S) (i : Nat) : List Event := (s.all[i]?.map Trial.block).getD []

/-- What holds all the time: the log consists of what the attempts have committed, in some order. -/
structure Right (types : κ → AggregateType S) (s : Trials κ S) : Prop where
  /-- The log is consistent. -/
  log : s.log.Consistent
  /-- All attempts are right. -/
  trials : ∀ t ∈ s.all, t.Right types
  /-- The log has every committed batch once. -/
  blocks : ∃ order : List Nat, order.Nodup ∧ (∀ i, i ∈ order ↔ s.block i ≠ []) ∧
    s.log.events = order.flatMap s.block

/-- An attempt that begins has committed nothing. -/
theorem block_begin (s : Trials κ S) (c : Command κ S) (batch : Uuid) :
    block { s with all := s.all ++ [.start c batch] } = s.block := by
  funext i
  unfold block
  rw [List.getElem?_append]
  split
  · rfl
  · rename_i hge
    rw [List.getElem?_singleton, List.getElem?_eq_none (Nat.not_lt.1 hge)]
    split <;> rfl

/-- A step is the matter of one attempt. -/
theorem block_set (s : Trials κ S) (log : Log) {i : Nat} {t : Trial κ S} (hi : s.all[i]? = some t)
    (t' : Trial κ S) (j : Nat) :
    block ⟨log, s.all.set i t'⟩ j = if j = i then t'.block else s.block j := by
  obtain ⟨hlt, _⟩ := List.getElem?_eq_some_iff.1 hi
  unfold block
  rw [List.getElem?_set]
  by_cases hj : j = i
  · simp [hj, hlt]
  · simp [hj, Ne.symm hj]

/-- An attempt may go on without committing anything, or it commits what is added to the log. -/
theorem Right.set (h : s.Right types) {i : Nat} {t t' : Trial κ S} (hi : s.all[i]? = some t)
    (ht' : t'.Right types) {log : Log} (hlog : log.Consistent)
    (hcommits : log.events = s.log.events ∧ t'.block = t.block ∨
      log.events = s.log.events ++ t'.block ∧ t.block = []) :
    Right types ⟨log, s.all.set i t'⟩ := by
  obtain ⟨_, htrials, order, hnodup, hmem, hevents⟩ := h
  have hold : s.block i = t.block := by simp [block, hi]
  have hblock := block_set s log hi t'
  refine ⟨hlog, fun t'' ht'' => ?_, ?_⟩
  · rcases List.mem_or_eq_of_mem_set ht'' with ht'' | rfl
    · exact htrials t'' ht''
    · exact ht'
  · rcases hcommits with ⟨hsame, hkept⟩ | ⟨hgrown, hnone⟩
    · have hall : block ⟨log, s.all.set i t'⟩ = s.block := by
        funext j
        rw [hblock, hkept, ← hold]
        split
        · rename_i hj
          rw [hj]
        · rfl
      exact ⟨order, hnodup, by rwa [hall], by rw [hall, hsame, hevents]⟩
    · have hnew : i ∉ order := fun hi' => (hmem i).1 hi' (hold.trans hnone)
      have hothers : order.flatMap (block ⟨log, s.all.set i t'⟩) = order.flatMap s.block := by
        refine List.flatMap_congr fun j hj => ?_
        rw [hblock, if_neg (ne_of_mem_of_not_mem hj hnew)]
      by_cases hempty : t'.block = []
      · refine ⟨order, hnodup, fun j => ?_, ?_⟩
        · rw [hmem, hblock]
          split
          · rename_i hj
            rw [hj, hold, hnone, hempty]
          · rfl
        · rw [hothers, ← hevents, hgrown, hempty, List.append_nil]
      · refine ⟨order ++ [i], ?_, fun j => ?_, ?_⟩
        · exact List.nodup_append.2 ⟨hnodup, List.pairwise_singleton _ _, fun j hj k hk => by
            rw [List.mem_singleton.1 hk]
            exact ne_of_mem_of_not_mem hj hnew⟩
        · rw [List.mem_append, List.mem_singleton, hmem, hblock]
          by_cases hj : j = i <;> simp [hj, hempty]
        · rw [List.flatMap_append, hothers, ← hevents, List.flatMap_singleton, hblock, if_pos rfl,
            hgrown]

/-- Every step keeps that. -/
theorem Right.step [DecidableEq κ] (h : s.Right types) {s' : Trials κ S} (hstep : Step types s s') :
    s'.Right types := by
  cases hstep with
  | begin c batch =>
    obtain ⟨hlog, htrials, hblocks⟩ := h
    refine ⟨hlog, fun t ht => ?_, by rwa [block_begin]⟩
    rcases List.mem_append.1 ht with ht | ht
    · exact htrials t ht
    · rw [List.mem_singleton.1 ht]
      exact Trial.right_start types c batch
  | @advance i threshold now cache hfilled =>
    rw [Trials.advance]
    cases hi : s.all[i]? with
    | none => exact h
    | some t =>
      have hlog : (⟨s.log, cache, now⟩ : Backing Log).store.Consistent := h.log
      have ht' := (h.trials t (List.mem_of_getElem? hi)).next threshold hlog hfilled.numbered.2
      have hcases := Trial.next_log types t threshold hlog
      show Right types ⟨(t.next types ⟨Log.store, threshold⟩ ⟨s.log, cache, now⟩).2.store,
        s.all.set i (t.next types ⟨Log.store, threshold⟩ ⟨s.log, cache, now⟩).1⟩
      generalize t.next types ⟨Log.store, threshold⟩ ⟨s.log, cache, now⟩ = after at ht' hcases ⊢
      rcases hcases with ⟨hsame, hkept⟩ | ⟨_, added, hstage, hafter, _, _, hgrown, hconsistent⟩
      · exact h.set hi ht' (hsame ▸ hlog) (.inl ⟨congrArg Log.events hsame, hkept⟩)
      · refine h.set hi ht' hconsistent (.inr ⟨?_, Trial.block_of_saving hstage⟩)
        rw [hgrown, hafter]
        rfl

theorem Reachable.right [DecidableEq κ] (h : Reachable types s) : s.Right types := by
  induction h with
  | start => exact ⟨Log.consistent_empty, nofun, [], .nil, by simp [block], rfl⟩
  | step _ hstep ih => exact ih.step hstep

/-- What an attempt has committed on a root. -/
def share (s : Trials κ S) (id : String) (i : Nat) : List Event :=
  (s.block i).filter (Event.isOf id)

/-- An attempt that has a share in a history has committed. -/
theorem committed_of_share {id : String} {i : Nat} (h : s.share id i ≠ []) :
    ∃ t, s.all[i]? = some t ∧ t.Committed (s.block i) := by
  unfold share block at h
  unfold block
  cases hi : s.all[i]? with
  | none =>
    rw [hi] at h
    exact absurd rfl h
  | some t =>
    rw [hi] at h
    have hblock : t.block ≠ [] := fun hnone => h (congrArg (List.filter (Event.isOf id)) hnone)
    exact ⟨t, rfl, Trial.stage_of_block hblock⟩

theorem history_eq {order : List Nat} (hevents : s.log.events = order.flatMap s.block) (id : String) :
    s.log.history id = order.flatMap (s.share id) := by
  rw [Log.history, hevents, List.filter_flatMap]
  rfl

theorem Right.history_ne_nil (h : s.Right types) {id : String} {i : Nat} (hshare : s.share id i ≠ []) :
    s.log.history id ≠ [] := by
  obtain ⟨order, _, hmem, hevents⟩ := h.blocks
  have hi : i ∈ order := (hmem i).2 fun hnone => hshare (by rw [share, hnone]; rfl)
  rw [history_eq hevents]
  exact fun hnone => hshare (List.flatMap_eq_nil_iff.1 hnone i hi)

/-- A root that an attempt has a share in is at hand, with the number of the events before the share. -/
theorem Right.place (h : s.Right types) {id : String} {i : Nat} {before after : List Nat}
    (hevents : s.log.events = (before ++ i :: after).flatMap s.block) (hshare : s.share id i ≠ []) :
    ∃ t kind root, s.all[i]? = some t ∧ t.work.roots.get? id = some (kind, root) ∧
      root.sequence + 1 = (before.flatMap (s.share id)).length := by
  obtain ⟨t, hi, hcommitted⟩ := committed_of_share hshare
  have ht := h.trials t (List.mem_of_getElem? hi)
  obtain ⟨_, _, _, hblock⟩ := ht.exists_number hcommitted
  have howned := ht.accounted.owned
  cases hget : t.work.roots.get? id with
  | none => exact absurd (howned.filter_eq_nil hblock hget) hshare
  | some entry =>
    obtain ⟨kind, root⟩ := entry
    refine ⟨t, kind, root, hi, hget, ?_⟩
    obtain ⟨e, rest, he⟩ := List.exists_cons_of_ne_nil hshare
    -- The first event of the share stands in the history where the numbers say.
    have hhistory : s.log.history id
        = before.flatMap (s.share id) ++ (e :: rest ++ after.flatMap (s.share id)) := by
      rw [history_eq hevents, List.flatMap_append, List.flatMap_cons, ← he]
    have hplace : (s.log.history id)[(before.flatMap (s.share id)).length]? = some e := by
      rw [hhistory, List.getElem?_append_right (Nat.le_refl _), Nat.sub_self]
      rfl
    have hnumber := howned.sequence_head hblock hget he (h.log.sequence hplace)
    rw [hnumber, Word64.wrap_add_one_of_nonneg (ht.worded id kind root hget) (by omega)]

/-- Of shares that are not all empty, there is a first one. -/
theorem exists_first {α : Type} {f : Nat → List α} {order : List Nat} (h : order.flatMap f ≠ []) :
    ∃ before i after, order = before ++ i :: after ∧ before.flatMap f = [] ∧ f i ≠ [] := by
  induction order with
  | nil => exact absurd rfl h
  | cons j rest ih =>
    by_cases hj : f j = []
    · rw [List.flatMap_cons, hj, List.nil_append] at h
      obtain ⟨before, i, after, rfl, hbefore, hi⟩ := ih h
      exact ⟨j :: before, i, after, rfl, by rw [List.flatMap_cons, hj, hbefore]; rfl, hi⟩
    · exact ⟨[], j, rest, rfl, rfl, hj⟩

/-- Roots are created once. -/
structure CreatedOnce [DecidableEq κ] (types : κ → AggregateType S) (s : Trials κ S) : Prop where
  /-- The log consists of the batches that attempts have committed, each of them once. -/
  blocks : ∃ order : List Nat, order.Nodup ∧ (∀ i, i ∈ order ↔ s.block i ≠ []) ∧
    s.log.events = order.flatMap s.block
  /-- A committed batch has, of every root, what the attempt has emitted on it and what was taken. -/
  emitted : ∀ t ∈ s.all, ∀ block, t.Committed block → ∀ id,
    (block.filter (Event.isOf id)).map Event.content
      = ((t.trace.filter (Emission.isOn id)).filter Emission.accepted).map fun x => x.event.content
  /-- In an attempt, the creation of a root has left its emissions once, and before any others on that
  root, or it has not left any. -/
  creations : ∀ t ∈ s.all, ∀ id,
    ((t.trace.filter (Emission.isOn id)).filter Emission.hook <+: t.trace.filter (Emission.isOn id)) ∧
    (∀ kind, (id, kind) ∈ t.created →
      (t.trace.filter (Emission.isOn id)).filter Emission.hook = (types kind).creation id) ∧
    ((∀ kind, (id, kind) ∉ t.created) →
      (t.trace.filter (Emission.isOn id)).filter Emission.hook = [])
  /-- Unless a root is to be loaded, is not at hand, and has no event in the log, it is not created, and
  it would make no difference if its creation did something else. -/
  invoked : ∀ (u : UnitOfWork κ S) (mode : Acquisition) (kind : κ) (id : String) (threshold : Nat)
    (now : Instant) (cache : SnapshotCache), SnapshotCache.Filled (S := fun _ => S) types s.log cache →
    mode ≠ .load ∨ (u.roots.get? id).isSome ∨ s.log.history id ≠ [] →
    u.creations types ⟨Log.store, threshold⟩ mode kind id ⟨s.log, cache, now⟩ = [] ∧
      ∀ creation : κ → Root S → Script S,
        u.acquire (fun k => { types k with created := creation k }) ⟨Log.store, threshold⟩ mode kind id
            ⟨s.log, cache, now⟩
          = u.acquire types ⟨Log.store, threshold⟩ mode kind id ⟨s.log, cache, now⟩
  /-- A history begins with what an attempt has committed that has created the root, and that begins
  with what the creation has emitted. No other attempt that has created the root has events in the
  history, nor is anything there that another creation has emitted. -/
  begins : ∀ id, s.log.history id ≠ [] → ∃ i t kind, s.all[i]? = some t ∧ (id, kind) ∈ t.created ∧
    s.share id i ≠ [] ∧ s.share id i <+: s.log.history id ∧
    ((((types kind).creation id).filter Emission.accepted).map fun x => x.event.content)
      <+: (s.log.history id).map Event.content ∧
    (∀ (k : Nat) (e : Event), (s.log.history id)[k]? = some e → e.sequence = .ok (k : Int)) ∧
    ∀ j t', s.all[j]? = some t' → j ≠ i → s.share id j ≠ [] →
      (∀ kind', (id, kind') ∉ t'.created) ∧ ∀ x ∈ t'.trace, x.root = id → x.hook = false
  /-- Two attempts that have created the same root, of whatever kinds, do not both commit if their
  creations have emitted something. -/
  exclusive : ∀ (id : String) (kind kind' : κ) (i j : Nat) (t t' : Trial κ S)
    (block block' : List Event), s.all[i]? = some t → s.all[j]? = some t' →
    (id, kind) ∈ t.created → (id, kind') ∈ t'.created →
    (∃ x ∈ (types kind).creation id, x.accepted = true) →
    (∃ x ∈ (types kind').creation id, x.accepted = true) →
    t.Committed block → t'.Committed block' → i = j

/-- A history begins with the share of an attempt that has created the root, and no later share is the
one of another such attempt. -/
theorem Right.begins (h : s.Right types) {id : String} (hne : s.log.history id ≠ []) :
    ∃ i t kind, s.all[i]? = some t ∧ (id, kind) ∈ t.created ∧ s.share id i ≠ [] ∧
      s.share id i <+: s.log.history id ∧
      ∀ j t', s.all[j]? = some t' → j ≠ i → s.share id j ≠ [] → ∀ kind', (id, kind') ∉ t'.created := by
  obtain ⟨order, _, hmem, hevents⟩ := h.blocks
  have hhistory := history_eq hevents id
  obtain ⟨before, i, after, rfl, hbefore, hshare⟩ := exists_first (hhistory ▸ hne)
  obtain ⟨t, kind, root, hi, hget, hnumber⟩ := h.place hevents hshare
  rw [hbefore, List.length_nil] at hnumber
  have haccounted := (h.trials t (List.mem_of_getElem? hi)).accounted
  refine ⟨i, t, kind, hi, ?created, hshare, ?first, ?others⟩
  case created =>
    obtain ⟨r, hr, _, _, hemits⟩ := haccounted.traced.held id kind root hget
    refine hr.resolve_right fun hhistory => ?_
    have hsequence := hemits.uncommitted.2.1
    rw [Root.hasHistory, decide_eq_true_eq, Root.noNumber] at hhistory
    omega
  case first =>
    rw [hhistory, List.flatMap_append, hbefore, List.nil_append, List.flatMap_cons]
    exact List.prefix_append _ _
  case others =>
    intro j t' hj hne' hshare' kind' hcreated
    have hlater : j ∈ after := by
      have hj' : j ∈ before ++ i :: after :=
        (hmem j).2 fun hnone => hshare' (by rw [share, hnone]; rfl)
      rcases List.mem_append.1 hj' with hj' | hj'
      · exact absurd (List.flatMap_eq_nil_iff.1 hbefore j hj') hshare'
      · exact (List.mem_cons.1 hj').resolve_left hne'
    obtain ⟨middle, last, rfl⟩ := List.append_of_mem hlater
    have hevents' : s.log.events = ((before ++ i :: middle) ++ j :: last).flatMap s.block := by
      rw [hevents, List.append_assoc]
      rfl
    obtain ⟨t'', kind'', root', hj'', hget', hnumber'⟩ := h.place hevents' hshare'
    cases hj.symm.trans hj''
    -- Behind the first share, a root has a number, so it has not been created.
    obtain ⟨root'', hget'', hnot⟩ :=
      (h.trials t' (List.mem_of_getElem? hj)).accounted.fresh id kind' hcreated
    cases hget'.symm.trans hget''
    have hpos := List.length_pos_iff.2 hshare
    rw [List.flatMap_append, List.flatMap_cons, List.length_append, List.length_append] at hnumber'
    rw [Root.hasHistory, decide_eq_false_iff_not, Root.noNumber] at hnot
    push_cast at hnumber'
    omega

/-- What an attempt has committed on a root is what it has emitted on it and what was taken. -/
theorem Right.content_share (h : s.Right types) {i : Nat} {t : Trial κ S} {block : List Event}
    (hi : s.all[i]? = some t) (hcommitted : t.Committed block) (id : String) :
    (s.share id i).map Event.content
      = ((t.trace.filter (Emission.isOn id)).filter Emission.accepted).map fun x =>
          x.event.content := by
  have ⟨batch, hstage⟩ := hcommitted
  have hblock : s.block i = block := by simp [Trials.block, hi, Trial.block, hstage]
  rw [share, hblock]
  exact (h.trials t (List.mem_of_getElem? hi)).content_filter hcommitted id

/-- An attempt that has created a root and committed has a share in the history, if the creation has
emitted something. -/
theorem Right.share_ne_nil (h : s.Right types) {i : Nat} {t : Trial κ S} {block : List Event}
    (hi : s.all[i]? = some t) {id : String} {kind : κ} (hcreated : (id, kind) ∈ t.created)
    (hcommitted : t.Committed block) (hsome : ∃ x ∈ (types kind).creation id, x.accepted = true) :
    s.share id i ≠ [] := by
  intro hnone
  obtain ⟨x, hx, haccepted⟩ := hsome
  have haccounted := (h.trials t (List.mem_of_getElem? hi)).accounted
  have hall := h.content_share hi hcommitted id
  rw [hnone, List.map_nil, eq_comm, List.map_eq_nil_iff, List.filter_eq_nil_iff] at hall
  rw [← haccounted.creations id kind hcreated] at hx
  exact hall x (List.mem_filter.1 hx).1 haccepted

/-- Attempts that have created the same root do not both have a share in its history. -/
theorem Right.creators_eq (h : s.Right types) {id : String} {kind kind' : κ} {i j : Nat}
    {t t' : Trial κ S} (hi : s.all[i]? = some t) (hj : s.all[j]? = some t')
    (hcreated : (id, kind) ∈ t.created) (hcreated' : (id, kind') ∈ t'.created)
    (hshare : s.share id i ≠ []) (hshare' : s.share id j ≠ []) : i = j := by
  -- Both are the attempt with which the history begins.
  obtain ⟨k, _, _, _, _, _, _, hothers⟩ := h.begins (h.history_ne_nil hshare)
  have hi' : i = k := by
    by_contra hne
    exact hothers i t hi hne hshare kind hcreated
  have hj' : j = k := by
    by_contra hne
    exact hothers j t' hj hne hshare' kind' hcreated'
  rw [hi', hj']

end Trials

/-- **Roots are created once.** Any number of processors attempt any commands on an empty log, again
and again, in any interleaving (`Trials.Step`), with any snapshots that loads have left
(`SnapshotCache.Filled`), and nobody else writes to the log. Then (`Trials.CreatedOnce`) a history begins
with the events that the creation of its root (`AggregateType.creation`) has emitted in the attempt that
has created it, numbered from zero on, and nothing that another creation has emitted is stored. A root is
created only when it is to be loaded, is not at hand and has no event in the log, and of the attempts that
have created it at most one commits if the creation has emitted something. -/
theorem Trials.created_once {κ S : Type} [DecidableEq κ] {types : κ → AggregateType S}
    {s : Trials κ S} (h : Reachable types s) : s.CreatedOnce types := by
  have hright := h.right
  have haccounted : ∀ {i : Nat} {t : Trial κ S}, s.all[i]? = some t →
      t.work.Accounted types t.trace t.created :=
    fun hi => (hright.trials _ (List.mem_of_getElem? hi)).accounted
  refine ⟨hright.blocks, fun t ht _ hcommitted => (hright.trials t ht).content_filter hcommitted,
    fun t ht id => ?creations, ?invoked, fun id hne => ?begins, ?exclusive⟩
  case creations =>
    have haccounted := (hright.trials t ht).accounted
    exact ⟨haccounted.hooks_first id, haccounted.creations id, haccounted.others id⟩
  case invoked =>
    intro u mode kind id threshold now cache hcache hnot
    obtain ⟨hlog, hnumbered⟩ := hcache.numbered
    have hfound : mode = .load → u.roots.get? id = none → (Repository.hydrate ⟨Log.store, threshold⟩
        (types kind) id Repository.latest ⟨s.log, cache, now⟩).1 ≠ .ok none := by
      intro hmode hget
      rcases hnot with hnot | hnot | hnot
      · exact absurd hmode hnot
      · rw [hget] at hnot
        cases hnot
      · exact Repository.hydrate_ne_none types kind threshold (b := ⟨s.log, cache, now⟩) hlog
          hnumbered hnot
    exact ⟨UnitOfWork.creations_eq_nil types _ hfound,
      fun creation => UnitOfWork.acquire_created types creation _ hfound⟩
  case begins =>
    obtain ⟨i, t, kind, hi, hcreated, hsome, hfirst, hothers⟩ := hright.begins hne
    obtain ⟨t', hi', hcommitted⟩ := committed_of_share hsome
    cases hi.symm.trans hi'
    refine ⟨i, t, kind, hi, hcreated, hsome, hfirst, ?_, fun k e he => hright.log.sequence he,
      fun j t' hj hne' hsome' => ⟨hothers j t' hj hne' hsome', fun x hx hroot => ?_⟩⟩
    · refine List.IsPrefix.trans ?_ (hfirst.map Event.content)
      rw [hright.content_share hi hcommitted, ← (haccounted hi).creations id kind hcreated]
      exact (((haccounted hi).hooks_first id).filter _).map _
    · have hnone := (haccounted hj).others id (hothers j t' hj hne' hsome')
      rw [List.filter_eq_nil_iff] at hnone
      exact Bool.eq_false_iff.2
        (hnone x (List.mem_filter.2 ⟨hx, (Emission.isOn_iff id x).2 hroot⟩))
  case exclusive =>
    intro id kind kind' i j t t' block block' hi hj hcreated hcreated' hsome hsome' hcommitted
      hcommitted'
    exact hright.creators_eq hi hj hcreated hcreated'
      (hright.share_ne_nil hi hcreated hcommitted hsome)
      (hright.share_ne_nil hj hcreated' hcommitted' hsome')

namespace Sample

/-- Counts to one, with a new counter if there is none. -/
def count : Command Kind State :=
  Request.command ⟨.counter, "n", "count", [Event.new "Incremented" (incremented.encode 1)], none,
    Dict.empty⟩

/-- Two processors find no counter and create one each. The first one commits, the second one meets it
and tries again. -/
def countingMoves : List (Move Kind State) :=
  [.begin count .nil, .begin count .nil, .go 0, .go 1, .go 0, .go 1, .go 0, .go 0, .go 1, .go 1,
   .begin count .nil, .go 2, .go 2, .go 2, .go 2]

end Sample

set_option maxRecDepth 10000 in
/-- Both processors have created the counter, and one creation is stored. -/
theorem Trials.created_once_counting :
    (Trials.play Sample.aggregateType Sample.countingMoves).all.map Trial.created
        = [[("n", .counter)], [("n", .counter)], []] ∧
    (Trials.play Sample.aggregateType Sample.countingMoves).log.events.map Event.tag
        = ["CounterCreated", "Incremented", "Incremented"] ∧
    (Trials.play Sample.aggregateType Sample.countingMoves).CreatedOnce Sample.aggregateType :=
  ⟨by decide +kernel, by decide +kernel,
    Trials.created_once (Trials.reachable_play Sample.aggregateType Sample.countingMoves)⟩

end Chronicle
