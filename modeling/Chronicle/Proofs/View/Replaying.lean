import Chronicle.Proofs.View.Folding
import Chronicle.Proofs.View.Locating
import Chronicle.Proofs.View.Reaching

namespace Chronicle

/-!
# Building views anew in batch mode

Live delivery presents every committed batch as one event, and a replay presents every chunk that it
reads as one event. Both cut the same log, but not at the same places.

* `ViewSetup.KeptUp` — a manager in batch mode that was handed every committed batch when it was
  committed.
* `Cut` — how a replay cuts the log: all chunks are full, but for the last one.
* `Feeding.followsBlocks_catchUp` — a replay that succeeds has applied chunks up to the end of the log.
* `Projection.Steady` — every part of the log affects a view, or none does.
* `ViewDispatcher.replay_rebuilds` — what a replay restores: the position always, and of the views what
  does not depend on the places where the log is cut.
* `ViewDispatcher.replay_regroups` — the views themselves need not be restored.
-/

/-! ### Live delivery -/

/-- Batches have been saved, and a fresh manager in batch mode was handed each one when it was
committed, with success: the committed blocks, the log, and the manager. -/
inductive ViewSetup.KeptUp {V : Type} (context : ViewContext) (setup : ViewSetup V) :
    List (List Event) → Log → ViewManager V → Prop where
  /-- Nothing has been saved. -/
  | fresh : KeptUp context setup [] Log.empty setup.batched.manager
  /-- A batch is saved, or it is rejected and nothing is committed. -/
  | save {blocks : List (List Event)} {log : Log} {m : ViewManager V} (s : Save) :
    KeptUp context setup blocks log m →
    (m.dispatch context (SaveOutcome.added (log.save s.batch s.events).1)).error = none →
    KeptUp context setup (blocks ++ [SaveOutcome.added (log.save s.batch s.events).1])
      (log.save s.batch s.events).2
      (m.dispatch context (SaveOutcome.added (log.save s.batch s.events).1)).manager

/-- The blocks of a list that are not empty. -/
def inhabited (blocks : List (List Event)) : List (List Event) :=
  blocks.filter fun block => !block.isEmpty

/-- A manager that was kept up to date has applied the committed blocks, and there is nothing else in
the log. -/
theorem ViewSetup.KeptUp.followsBlocks {V : Type} {context : ViewContext} {setup : ViewSetup V}
    {blocks : List (List Event)} {log : Log} {m : ViewManager V}
    (h : setup.KeptUp context blocks log m) :
    log.Consistent ∧ m.FollowsBlocks (setup.projection context) (inhabited blocks) log ∧
      (inhabited blocks).flatten = log.events := by
  induction h with
  | fresh => exact ⟨Log.consistent_empty, setup.followsBlocks_batched context Log.empty, rfl⟩
  | @save blocks log m s _ hdone ih =>
    obtain ⟨hlog, hfollows, hflatten⟩ := ih
    obtain ⟨hevents, -⟩ := hlog.save_spec s
    have hlog' := hlog.save s.batch s.events
    have hext : log.Extends (log.save s.batch s.events).2 := ⟨_, hevents.symm⟩
    have hfollows' := hfollows.mono hext
    clear hext
    revert hevents hdone
    generalize SaveOutcome.added (log.save s.batch s.events).1 = added
    intro hdone hevents
    refine ⟨hlog', ?_⟩
    by_cases hnone : added = []
    · -- Nothing was committed, and nothing is applied.
      subst hnone
      rw [ViewManager.manager_dispatch_nil, hevents]
      simpa [inhabited] using ⟨hfollows', hflatten⟩
    · have hcount := hfollows'.length_flatten
      rw [hflatten] at hcount
      have hinhabited : inhabited (blocks ++ [added]) = inhabited blocks ++ [added] := by
        simp [inhabited, List.filter_append, hnone]
      obtain ⟨-, happlied⟩ := hfollows'.dispatch hlog' hcount.symm hnone (by simp [hevents])
      rw [hinhabited, hevents]
      exact ⟨happlied hdone, by simp [hflatten]⟩

/-! ### Chunks -/

/-- All blocks are full, but for the last one, which may be shorter. -/
structure Cut (n : Nat) (blocks : List (List Event)) : Prop where
  /-- The blocks before the last one are full. -/
  full : ∀ block ∈ blocks.dropLast, block.length = n
  /-- No block is larger. -/
  bounded : ∀ block ∈ blocks, block.length ≤ n

namespace Cut

variable {n : Nat} {first : List Event} {rest blocks blocks' : List (List Event)}

theorem of_full (h : ∀ block ∈ blocks, block.length = n) : Cut n blocks :=
  ⟨fun block hblock => h block (blocks.dropLast_subset hblock),
    fun block hblock => Nat.le_of_eq (h block hblock)⟩

theorem concat (h : ∀ block ∈ blocks, block.length = n) {last : List Event}
    (hlast : last.length ≤ n) : Cut n (blocks ++ [last]) where
  full := by
    rw [List.dropLast_concat]
    exact h
  bounded block hblock := by
    rcases List.mem_append.1 hblock with hblock | hblock
    · exact Nat.le_of_eq (h block hblock)
    · rwa [List.mem_singleton.1 hblock]

theorem tail (h : Cut n (first :: rest)) : Cut n rest where
  full block hblock := by
    by_cases hrest : rest = []
    · subst hrest
      simp at hblock
    · refine h.full block ?_
      rw [List.dropLast_cons_of_ne_nil hrest]
      exact List.mem_cons_of_mem _ hblock
  bounded block hblock := h.bounded block (List.mem_cons_of_mem _ hblock)

/-- The first block is as much of the list as fits. -/
theorem head_eq (h : Cut n (first :: rest)) : first = (first :: rest).flatten.take n := by
  by_cases hrest : rest = []
  · subst hrest
    simp [List.take_of_length_le (h.bounded first List.mem_cons_self)]
  · have hlength : first.length = n := by
      refine h.full first ?_
      rw [List.dropLast_cons_of_ne_nil hrest]
      exact List.mem_cons_self
    rw [List.flatten_cons, List.take_left' hlength]

/-- There is one way to cut a list. -/
theorem unique (h : Cut n blocks) (h' : Cut n blocks') (hne : ∀ block ∈ blocks, block ≠ [])
    (hne' : ∀ block ∈ blocks', block ≠ []) (hflatten : blocks.flatten = blocks'.flatten) :
    blocks = blocks' := by
  induction blocks generalizing blocks' with
  | nil => exact ((Event.flatten_blocks_eq_nil_iff hne').1 hflatten.symm).symm
  | cons first rest ih =>
    rcases blocks' with _ | ⟨first', rest'⟩
    · exact (Event.flatten_blocks_eq_nil_iff hne).1 hflatten
    · have hfirst : first = first' := by rw [h.head_eq, h'.head_eq, hflatten]
      subst hfirst
      rw [List.flatten_cons, List.flatten_cons, List.append_cancel_left_eq] at hflatten
      rw [ih h.tail h'.tail (fun block hblock => hne block (List.mem_cons_of_mem _ hblock))
        (fun block hblock => hne' block (List.mem_cons_of_mem _ hblock)) hflatten]

end Cut

/-! ### Replaying -/

namespace Feeding

variable {V : Type} {P : Projection V} {f f' f'' : Feeding SharedLog V}
  {src : ViewSource SharedLog}

/-- A chunk that is read and applied is one more block. -/
theorem followsBlocks_chunk (hstore : src.store = SharedLog.store) (hcontext : P.context = src.context)
    (hlog : f.store.log.Consistent) {blocks : List (List Event)}
    (h : f.target.manager.FollowsBlocks P blocks f.store.log) {e : Event} {rest : List Event}
    (hchunk : f.nextChunk src = (.ok (e :: rest), f'))
    (hdispatch : f'.dispatch src.context (e :: rest) = (none, f'')) :
    f''.store = f.store.turn.2 ∧
      f''.target.manager.FollowsBlocks P (blocks ++ [e :: rest]) f''.store.log := by
  have hlower := h.lower
  have hn : f.target.manager.position + 1 = ((f.target.manager.position + 1).toNat : Int) := by
    omega
  have hnext := chunk_next hstore (ViewManager.next_position hlog hlower h.upper) hchunk
  obtain rfl := eq_of_nextChunk hstore hchunk
  have hgrown := SharedLog.grown_turn hlog
  have hdone : (f.target.manager.dispatch src.context (e :: rest)).error = none :=
    congrArg Prod.fst hdispatch
  obtain rfl : _ = f'' := congrArg Prod.snd hdispatch
  refine ⟨rfl, ?_⟩
  obtain ⟨-, happlied⟩ := (h.mono hgrown.kept).dispatch hgrown.log hn (List.cons_ne_nil e rest)
    hnext
  rw [hcontext] at happlied
  exact happlied hdone

variable {blocks : List (List Event)}

/-- If the loop goes on behind a round, a full chunk is one more block. -/
theorem followsBlocks_again (hstore : src.store = SharedLog.store) (hcontext : P.context = src.context)
    (hlog : f.store.log.Consistent) (h : f.target.manager.FollowsBlocks P blocks f.store.log)
    (hround : (f.round src).1 = none) :
    f.store.Grown (f.round src).2.store ∧
      ∃ block, block.length = src.config.maxItemsPerBatch ∧
        (f.round src).2.target.manager.FollowsBlocks P (blocks ++ [block])
          (f.round src).2.store.log := by
  revert hround
  fun_cases Feeding.round src f with
  | case1 =>
    intro h
    cases h
  | case2 =>
    intro h
    cases h
  | case3 =>
    intro h
    cases h
  | case4 =>
    intro h
    cases h
  | case5 _ e rest f' hchunk f'' hdispatch =>
    intro hround
    obtain ⟨hturn, happlied⟩ := followsBlocks_chunk hstore hcontext hlog h hchunk hdispatch
    have hgrown := SharedLog.grown_turn hlog
    rw [← hturn] at hgrown
    have hfull : (e :: rest).length = src.config.maxItemsPerBatch := by
      by_contra hnot
      rw [if_neg hnot] at hround
      cases hround
    exact ⟨hgrown, _, hfull, happlied⟩

/-- If a round ends the loop without an error, there may be one more block, which may be shorter. -/
theorem followsBlocks_ends (hstore : src.store = SharedLog.store) (hcontext : P.context = src.context)
    (hlog : f.store.log.Consistent) (h : f.target.manager.FollowsBlocks P blocks f.store.log)
    (hfull : ∀ block ∈ blocks, block.length = src.config.maxItemsPerBatch)
    (hround : (f.round src).1 = some none) :
    ∃ blocks', Cut src.config.maxItemsPerBatch blocks' ∧
      (f.round src).2.target.manager.FollowsBlocks P blocks' (f.round src).2.store.log := by
  revert hround
  fun_cases Feeding.round src f with
  | case1 =>
    intro h
    cases h
  | case2 =>
    intro h
    cases h
  | case3 _ f' hchunk =>
    intro _
    obtain rfl := eq_of_nextChunk hstore hchunk
    exact ⟨blocks, .of_full hfull, h.mono (SharedLog.grown_turn hlog).kept⟩
  | case4 =>
    intro h
    cases h
  | case5 _ e rest f' hchunk f'' hdispatch =>
    intro _
    obtain ⟨-, happlied⟩ := followsBlocks_chunk hstore hcontext hlog h hchunk hdispatch
    -- A chunk holds no more than it may.
    have hbounded : (e :: rest).length ≤ src.config.maxItemsPerBatch := by
      rw [chunk_eq_take hstore hchunk]
      exact List.length_take_le _ _
    exact ⟨_, .concat hfull hbounded, happlied⟩

/-- Catching up applies full chunks, and one at the end that may be shorter. -/
theorem followsBlocks_catchUpFrom (hstore : src.store = SharedLog.store)
    (hcontext : P.context = src.context) (rounds : Nat) (hlog : f.store.log.Consistent)
    (h : f.target.manager.FollowsBlocks P blocks f.store.log)
    (hfull : ∀ block ∈ blocks, block.length = src.config.maxItemsPerBatch)
    (hdone : (f.catchUpFrom src rounds).1 = none) :
    ∃ blocks', Cut src.config.maxItemsPerBatch blocks' ∧
      (f.catchUpFrom src rounds).2.target.manager.FollowsBlocks P blocks'
        (f.catchUpFrom src rounds).2.store.log := by
  fun_induction Feeding.catchUpFrom src rounds f generalizing blocks with
  | case1 f => exact ⟨blocks, .of_full hfull, h⟩
  | case2 rounds f answer f' hround =>
    obtain rfl : answer = none := hdone
    have hends := followsBlocks_ends hstore hcontext hlog h hfull (congrArg Prod.fst hround)
    rwa [hround] at hends
  | case3 rounds f f' hround ih =>
    have hagain := followsBlocks_again hstore hcontext hlog h (congrArg Prod.fst hround)
    rw [hround] at hagain
    obtain ⟨hgrown, block, hlength, happlied⟩ := hagain
    refine ih hgrown.log happlied (fun block' hblock' => ?_) hdone
    rcases List.mem_append.1 hblock' with hblock' | hblock'
    · exact hfull block' hblock'
    · rw [List.mem_singleton.1 hblock', hlength]

/-- Where nothing else happens, catching up applies the log to its end, cut into chunks. -/
theorem followsBlocks_catchUp (hstore : src.store = SharedLog.store)
    (hcontext : P.context = src.context) (hchunk : 0 < src.config.maxItemsPerBatch) {log : Log}
    (hlog : log.Consistent) (halone : f.store = ⟨log, []⟩)
    (h : f.target.manager.FollowsBlocks P [] log) (hdone : (f.catchUp src).1 = none) :
    ∃ blocks, Cut src.config.maxItemsPerBatch blocks ∧ blocks.flatten = log.events ∧
      (f.catchUp src).2.target.manager.FollowsBlocks P blocks log := by
  have hlog' : f.store.log.Consistent := halone ▸ hlog
  have hfollows : f.target.manager.FollowsBlocks P [] f.store.log := halone ▸ h
  obtain ⟨blocks, hcut, hdone'⟩ := followsBlocks_catchUpFrom hstore hcontext _ hlog' hfollows nofun
    hdone
  -- Nobody writes to the log.
  have hsame : (f.catchUp src).2.store.log = log := by
    obtain ⟨used, hahead, hsaved⟩ :=
      (keeps_catchUp hstore f).passed
    have hnone : f.store.ahead = [] := by rw [halone]
    obtain ⟨rfl, -⟩ := List.append_eq_nil_iff.1 (hahead.symm.trans hnone)
    exact hsaved.trans (by rw [halone]; rfl)
  have hend : log.events.length ≤ ((f.catchUp src).2.target.manager.position + 1).toNat := by
    have hatEnd := catchUp_end hstore hchunk hlog' hdone
    rw [halone] at hatEnd
    by_cases hempty : log.events = []
    · simp [hempty]
    · have hsize : 0 < log.events.length := List.length_pos_iff.2 hempty
      have hlast := hatEnd (log.events.length - 1) (Nat.sub_lt hsize Nat.one_pos)
      omega
  have hfollows' : (f.catchUp src).2.target.manager.FollowsBlocks P blocks log := hsame ▸ hdone'
  exact ⟨blocks, hcut, by rw [hfollows'.covered, List.take_of_length_le hend], hfollows'⟩

end Feeding

/-! ### What does not depend on the cutting -/

namespace Projection

variable {V : Type} {P : Projection V} {id : String} {blocks : List (List Event)}

/-- Every part of the log affects the view, or none does. -/
def Steady (P : Projection V) (log : Log) (id : String) : Prop :=
  ∀ part part' : List Event, part ≠ [] → part' ≠ [] → part <:+: log.events →
    part' <:+: log.events →
    (id ∈ P.affected (Event.batch part) ↔ id ∈ P.affected (Event.batch part'))

/-- A view is there once some block has affected it. -/
theorem isSome_viewFrom {n : Nat} {view view' : Option (ViewInstance V)}
    (h : P.viewFrom id n view blocks = .ok view') :
    view'.isSome = true ↔
      view.isSome = true ∨ ∃ block ∈ blocks, id ∈ P.affected (Event.batch block) := by
  induction blocks generalizing n view with
  | nil =>
    obtain rfl : view = view' := Except.ok.inj h
    simp
  | cons block rest ih =>
    obtain ⟨view₁, hfirst, hrest⟩ := viewFrom_cons_eq_ok.1 h
    rw [ih hrest]
    by_cases hmem : id ∈ P.affected (Event.batch block)
    · obtain ⟨_, _, _, _, rfl⟩ := present_of_mem hmem hfirst
      simp [hmem]
    · rw [present_of_not_mem hmem] at hfirst
      obtain rfl := Except.ok.inj hfirst
      simp [hmem]

/-- A view that every block affects has come to the end of the last one. -/
theorem last_viewOf {view : Option (ViewInstance V)} (hblocks : blocks ≠ [])
    (hmem : ∀ block ∈ blocks, id ∈ P.affected (Event.batch block))
    (h : P.viewOf id blocks = .ok view) :
    view.map ViewInstance.last = some ((blocks.flatten.length : Int) - 1) := by
  have hlast := List.dropLast_append_getLast hblocks
  rw [← hlast] at h
  obtain ⟨view₁, -, hview⟩ := viewFrom_concat_eq_ok.1 h
  obtain ⟨_, _, _, _, rfl⟩ := present_of_mem (hmem _ (List.getLast_mem hblocks)) hview
  have hlength : blocks.dropLast.flatten.length + (blocks.getLast hblocks).length
      = blocks.flatten.length := by
    rw [← List.length_append, ← List.flatten_concat, hlast]
  rw [Nat.zero_add, hlength]
  rfl

variable {blocks' : List (List Event)} {view view' : Option (ViewInstance V)} {log : Log}

/-- Only an event with a handler affects views. -/
theorem handler?_of_mem_affected {e : Event} (h : id ∈ P.affected e) :
    ∃ handle, P.handler? e.tag = some handle := by
  unfold affected at h
  rcases hhandle : P.handler? e.tag with _ | handle
  · simp [hhandle] at h
  · exact ⟨handle, rfl⟩

/-- A block of a list of blocks is a part of the log that they make up. -/
theorem isInfix_of_mem {block : List Event} (hflatten : blocks.flatten = log.events)
    (hblock : block ∈ blocks) : block <:+: log.events :=
  hflatten ▸ List.infix_of_mem_flatten hblock

theorem Steady.affected_cases (hsteady : P.Steady log id) :
    (∀ part, part ≠ [] → part <:+: log.events → id ∈ P.affected (Event.batch part)) ∨
      ∀ part, part ≠ [] → part <:+: log.events → id ∉ P.affected (Event.batch part) := by
  by_cases hall : ∃ part, part ≠ [] ∧ part <:+: log.events ∧ id ∈ P.affected (Event.batch part)
  · obtain ⟨part, hpart, hinfix, hmem⟩ := hall
    exact .inl fun part' hpart' hinfix' => (hsteady part part' hpart hpart' hinfix hinfix').1 hmem
  · exact .inr fun part hpart hinfix hmem => hall ⟨part, hpart, hinfix, hmem⟩

/-- However the log is cut, a steady view comes as far, and it is the same if the handler makes the
same of two blocks as of the two as one. -/
theorem Steady.viewOf_eq (hsteady : P.Steady log id) (hne : ∀ block ∈ blocks, block ≠ [])
    (hne' : ∀ block ∈ blocks', block ≠ []) (hflatten : blocks.flatten = log.events)
    (hflatten' : blocks'.flatten = log.events) (h : P.viewOf id blocks = .ok view)
    (h' : P.viewOf id blocks' = .ok view') :
    view.map ViewInstance.last = view'.map ViewInstance.last ∧
      ((∀ handle, P.handler? Event.batchTag = some handle → handle.Composes) → view = view') := by
  rcases hsteady.affected_cases with hall | hnone
  · have hmems : ∀ b ∈ blocks, id ∈ P.affected (Event.batch b) := fun b hb =>
      hall b (hne b hb) (isInfix_of_mem hflatten hb)
    have hmems' : ∀ b ∈ blocks', id ∈ P.affected (Event.batch b) := fun b hb =>
      hall b (hne' b hb) (isInfix_of_mem hflatten' hb)
    have hempty : blocks = [] ↔ blocks' = [] := by
      rw [← Event.flatten_blocks_eq_nil_iff hne, ← Event.flatten_blocks_eq_nil_iff hne', hflatten,
        hflatten']
    by_cases hblocks : blocks = []
    · -- The log is empty.
      obtain rfl := hempty.1 hblocks
      subst hblocks
      obtain rfl : view = view' := Except.ok.inj (h.symm.trans h')
      exact ⟨rfl, fun _ => rfl⟩
    · have hblocks' : blocks' ≠ [] := fun hnil => hblocks (hempty.2 hnil)
      constructor
      · rw [last_viewOf hblocks hmems h, last_viewOf hblocks' hmems' h', hflatten, hflatten']
      · intro hcomposes
        obtain ⟨handle, hhandle⟩ : ∃ handle, P.handler? Event.batchTag = some handle := by
          obtain ⟨block, hblock⟩ := List.exists_mem_of_ne_nil blocks hblocks
          exact handler?_of_mem_affected (hmems block hblock)
        have hcomposes := hcomposes handle hhandle
        obtain ⟨state, hstate, rfl⟩ := viewOf_whole hhandle hcomposes hblocks hne hmems h
        obtain ⟨state', hstate', rfl⟩ := viewOf_whole hhandle hcomposes hblocks' hne' hmems' h'
        rw [hflatten] at hstate
        rw [hflatten', hstate] at hstate'
        rw [hflatten, hflatten', Except.ok.inj hstate']
  · -- No block affects the view, so it is not there.
    obtain rfl : view = none := viewFrom_of_not_mem
      (fun b hb => hnone b (hne b hb) (isInfix_of_mem hflatten hb)) h
    obtain rfl : view' = none := viewFrom_of_not_mem
      (fun b hb => hnone b (hne' b hb) (isInfix_of_mem hflatten' hb)) h'
    exact ⟨rfl, fun _ => rfl⟩

/-- A locator that answers for a block what its events say one by one. -/
def Spreads (P : Projection V) (place : Event → String → Prop) (log : Log) : Prop :=
  ∀ part : List Event, part ≠ [] → part <:+: log.events →
    ∃ ids, P.locator P.context (Event.batch part) = .ok ids ∧
      ∀ id, id ∈ ids ↔ ∃ e ∈ part, place e id

/-- If a locator answers for a block what its events say, the events alone decide which views there
are. -/
theorem Spreads.isSome_viewOf {place : Event → String → Prop} (hspreads : P.Spreads place log)
    (hne : ∀ block ∈ blocks, block ≠ []) (hflatten : blocks.flatten = log.events)
    (h : P.viewOf id blocks = .ok view) :
    view.isSome = true ↔
      (P.handler? Event.batchTag).isSome = true ∧ ∃ e ∈ log.events, place e id := by
  have hplace : ∀ block ∈ blocks, (id ∈ P.affected (Event.batch block) ↔
      (P.handler? Event.batchTag).isSome = true ∧ ∃ e ∈ block, place e id) := by
    intro block hblock
    obtain ⟨ids, hids, hmem⟩ :=
      hspreads block (hne block hblock) (isInfix_of_mem hflatten hblock)
    have htag : (Event.batch block).tag = Event.batchTag := rfl
    unfold affected
    rw [htag, hids]
    rcases P.handler? Event.batchTag with _ | handle
    · simp
    · simpa [Except.toOption] using hmem id
  rw [isSome_viewFrom h, ← hflatten]
  constructor
  · rintro (hsome | ⟨block, hblock, hmem⟩)
    · simp at hsome
    · obtain ⟨hhandler, e, he, hid⟩ := (hplace block hblock).1 hmem
      exact ⟨hhandler, e, List.mem_flatten.2 ⟨block, hblock, he⟩, hid⟩
  · rintro ⟨hhandler, e, he, hid⟩
    obtain ⟨block, hblock, he⟩ := List.mem_flatten.1 he
    exact .inr ⟨block, hblock, (hplace block hblock).2 ⟨hhandler, e, he, hid⟩⟩

theorem spreads_global (hlocator : P.locator = Locator.global) (log : Log) :
    P.Spreads (fun _ id => id = Locator.globalId) log := by
  intro part hpart _
  obtain ⟨e, he⟩ := List.exists_mem_of_ne_nil part hpart
  refine ⟨[Locator.globalId], by rw [hlocator]; rfl, fun id => ?_⟩
  rw [List.mem_singleton]
  exact ⟨fun hid => ⟨e, he, hid⟩, fun ⟨_, _, hid⟩ => hid⟩

theorem spreads_perRoot (hlocator : P.locator = Locator.perRoot) (hlog : log.Consistent) :
    P.Spreads (fun e id => e.root = .ok id) log := by
  intro part _ hpart_of
  have hrooted : ∀ e ∈ part, e.metadata.get? Metadata.Key.root ≠ none := by
    intro e he
    obtain ⟨root, hroot⟩ := hlog.rooted (hpart_of.subset he)
    rw [(Event.root_eq_ok_iff e root).1 hroot]
    exact nofun
  obtain ⟨roots, hroots⟩ := Locator.exists_rootsOf_iff.2 hrooted
  refine ⟨roots.eraseDups, ?_, fun id => ?_⟩
  · rw [hlocator, Locator.perRoot_batch_eq, hroots]
    rfl
  · rw [List.mem_eraseDups]
    exact Locator.mem_rootsOf hroots id

/-- With one view for all events, every part of the log affects it. -/
theorem steady_global (hlocator : P.locator = Locator.global) (log : Log) (id : String) :
    P.Steady log id := by
  intro part part' _ _ _ _
  unfold affected
  rw [hlocator]
  rfl

end Projection

/-- **What a replay in batch mode restores.** Take a fresh view manager in batch mode that was handed
every batch when it was committed, with success (`ViewSetup.KeptUp`), and let `ViewDispatcher.replay`
succeed, whatever the size of its chunks. The `position` is as before. With `Locator.global` or
`Locator.perRoot`, there are the same views as before. A view that every part of the log affects, or none
does (`Projection.Steady`), as is always so with one view for all events, has come as far as before, and it
is as before if the handler makes of two blocks, one after the other, what it makes of the two as one block
(`ViewHandler.Composes`). If the committed batches are the chunks of the replay (`Cut`), all views are as
before, whatever the locator and the handler. -/
theorem ViewDispatcher.replay_rebuilds {V : Type} {context : ViewContext} {config : ViewConfig}
    {setup : ViewSetup V} {blocks : List (List Event)} {log : Log} {m : ViewManager V}
    (hkept : setup.KeptUp context blocks log m) (hchunk : 0 < config.maxItemsPerBatch)
    {d : ViewDispatcher V} {id : String} {i : Nat} {r : Registration V}
    (hindex : d.indexOf? id = some i) (hr : d.registrations[i]? = some r) (hm : r.manager = m)
    (hdone : (ViewDispatcher.replay ⟨SharedLog.store, context, config⟩ id (⟨log, []⟩, d)).1 = none) :
    let P := setup.projection context
    ∃ r', (ViewDispatcher.replay ⟨SharedLog.store, context, config⟩ id
        (⟨log, []⟩, d)).2.2.registrations[i]? = some r' ∧
      r'.manager.position = m.position ∧
      (P.locator = Locator.global ∨ P.locator = Locator.perRoot →
        ∀ id, (r'.manager.view? id).isSome = (m.view? id).isSome) ∧
      (P.locator = Locator.global → ∀ id, P.Steady log id) ∧
      (∀ id, P.Steady log id →
        (r'.manager.view? id).map ViewInstance.last = (m.view? id).map ViewInstance.last ∧
        ((∀ handle, P.handler? Event.batchTag = some handle → handle.Composes) →
          r'.manager.view? id = m.view? id)) ∧
      (Cut config.maxItemsPerBatch (inhabited blocks) →
        ∀ id, r'.manager.view? id = m.view? id) := by
  intro P
  let src : ViewSource SharedLog := ⟨SharedLog.store, context, config⟩
  let f : Feeding SharedLog V := Feeding.onManager ⟨⟨log, []⟩, d.profiler, r⟩ ViewManager.purge
  obtain ⟨hlog, hfollows, hflatten⟩ := hkept.followsBlocks
  -- The replay is a catch-up of the purged manager.
  have hreplay : ViewDispatcher.replay src id (⟨log, []⟩, d)
      = ((f.catchUp src).1, (f.catchUp src).2.store, { d with
        registrations := d.registrations.set i (f.catchUp src).2.target
        profiler := (f.catchUp src).2.profiler }) := by
    unfold ViewDispatcher.replay ViewDispatcher.visitAt
    simp only [hindex, hr]
    rfl
  rw [hreplay] at hdone ⊢
  have hpurged : f.target.manager.FollowsBlocks P [] log := by
    show r.manager.purge.FollowsBlocks P [] log
    rw [hm]
    exact hfollows.purge
  have hstore : src.store = SharedLog.store := rfl
  obtain ⟨blocks', hcut, hflatten', hfollows'⟩ :=
    Feeding.followsBlocks_catchUp hstore rfl hchunk hlog rfl hpurged hdone
  have hi : i < d.registrations.length := (List.getElem?_eq_some_iff.1 hr).1
  have hne := hfollows.nonempty
  have hne' := hfollows'.nonempty
  refine ⟨(f.catchUp src).2.target, by simp [hi], ?position, ?ids, fun hlocator id =>
    Projection.steady_global hlocator log id, ?steady, ?cut⟩
  case position =>
    have hlength := hfollows.length_flatten
    have hlength' := hfollows'.length_flatten
    rw [hflatten] at hlength
    rw [hflatten'] at hlength'
    omega
  case ids =>
    intro hlocator id
    obtain ⟨place, hspreads⟩ : ∃ place, P.Spreads place log := by
      rcases hlocator with hglobal | hperRoot
      · exact ⟨_, Projection.spreads_global hglobal log⟩
      · exact ⟨_, Projection.spreads_perRoot hperRoot hlog⟩
    rw [Bool.eq_iff_iff, hspreads.isSome_viewOf hne' hflatten' (hfollows'.views id),
      hspreads.isSome_viewOf hne hflatten (hfollows.views id)]
  case steady =>
    intro id hsteady
    exact hsteady.viewOf_eq hne' hne hflatten' hflatten (hfollows'.views id) (hfollows.views id)
  case cut =>
    intro hcommitted id
    have hblocks : blocks' = inhabited blocks :=
      hcut.unique hcommitted hne' hne (hflatten'.trans hflatten.symm)
    have hview := hfollows'.views id
    rw [hblocks, hfollows.views id] at hview
    exact (Except.ok.inj hview).symm

namespace Sample

/-- The first deposit on an account. -/
def opening (root : String) : Save :=
  ⟨.nil, Log.empty.continuation root "Deposited" (deposited.encode 5) 1⟩

/-- The first deposits on two accounts. -/
def openings : Log := (Log.empty.saveAll [opening "a", opening "b"]).2

/-- A tally that was handed each of the two deposits when it was committed. -/
def handed (setup : ViewSetup Tally) : ViewManager Tally :=
  ((setup.batched.manager.dispatch Dict.empty (openings.events.take 1)).manager.dispatch
    Dict.empty (openings.events.drop 1)).manager

/-- It was kept up to date, if it has not refused them. -/
theorem keptUp_handed {setup : ViewSetup Tally}
    (hfirst : (setup.batched.manager.dispatch Dict.empty (openings.events.take 1)).error = none)
    (hsecond : ((setup.batched.manager.dispatch Dict.empty (openings.events.take 1)).manager.dispatch
      Dict.empty (openings.events.drop 1)).error = none) :
    setup.KeptUp Dict.empty [openings.events.take 1, openings.events.drop 1] openings
      (handed setup) := by
  have ha : SaveOutcome.added (Log.empty.save (opening "a").batch (opening "a").events).1
      = openings.events.take 1 := by rfl
  have hb : SaveOutcome.added ((Log.empty.save (opening "a").batch (opening "a").events).2.save
      (opening "b").batch (opening "b").events).1 = openings.events.drop 1 := by rfl
  have hfresh : setup.KeptUp Dict.empty [] Log.empty setup.batched.manager := .fresh
  have hkept := ViewSetup.KeptUp.save (opening "a") hfresh (by rwa [ha])
  rw [ha] at hkept
  have hboth := ViewSetup.KeptUp.save (opening "b") hkept (by rwa [hb])
  rwa [hb] at hboth

/-- A dispatcher of this tally. -/
def handedDispatcher (setup : ViewSetup Tally) : ViewDispatcher Tally where
  registrations := [{ manager := handed setup, mode := .immediate }]

/-- A replay that reads the log in one chunk. -/
def replayed (setup : ViewSetup Tally) :
    Option ViewDispatchError × SharedLog × ViewDispatcher Tally :=
  ViewDispatcher.replay ⟨SharedLog.store, Dict.empty, {}⟩ "tally"
    (⟨openings, []⟩, handedDispatcher setup)

end Sample

set_option maxRecDepth 10000 in
/-- A tally that takes the events of a batch one by one is rebuilt from one chunk as it was made by two
batches. -/
theorem ViewDispatcher.replay_rebuilds_gathered :
    ∃ r', (Sample.replayed Sample.gatherer.toViewSetup).2.2.registrations[0]? = some r' ∧
      r'.manager.position = 1 ∧
      ∀ id, r'.manager.view? id = (Sample.handed Sample.gatherer.toViewSetup).view? id := by
  have hkept : Sample.gatherer.toViewSetup.KeptUp Dict.empty _ Sample.openings
      (Sample.handed Sample.gatherer.toViewSetup) :=
    Sample.keptUp_handed (by decide +kernel) (by decide +kernel)
  have hindex : (Sample.handedDispatcher Sample.gatherer.toViewSetup).indexOf? "tally" = some 0 := by
    decide +kernel
  have hdone : (Sample.replayed Sample.gatherer.toViewSetup).1 = none := by decide +kernel
  obtain ⟨r', hr', hposition, -, hglobal, hsteady, -⟩ :=
    ViewDispatcher.replay_rebuilds hkept (by decide) hindex rfl rfl hdone
  refine ⟨r', hr', hposition.trans (by decide +kernel), fun id =>
    (hsteady id (hglobal rfl id)).2 fun handle hhandle => ?_⟩
  obtain rfl : Sample.gatherer.handle = handle :=
    Option.some.inj ((Sample.gatherer.handler?_batchTag Dict.empty).symm.trans hhandle)
  exact Sample.gatherer.composes_handle

/-! ### Where the cutting matters -/

/-- A replay that succeeds restores all views of a manager that was kept up to date. -/
def ViewSetup.Restores {V : Type} (context : ViewContext) (setup : ViewSetup V) : Prop :=
  ∀ (config : ViewConfig) (blocks : List (List Event)) (log : Log) (m : ViewManager V)
    (d : ViewDispatcher V) (id : String),
    setup.KeptUp context blocks log m → 0 < config.maxItemsPerBatch → d.manager? id = some m →
    (ViewDispatcher.replay ⟨SharedLog.store, context, config⟩ id (⟨log, []⟩, d)).1 = none →
    ∀ view, ((ViewDispatcher.replay ⟨SharedLog.store, context, config⟩ id
      (⟨log, []⟩, d)).2.2.manager? id).bind (fun after => after.view? view) = m.view? view

/-- A tally in batch mode. -/
def Sample.grouped (locator : Locator) (action : Sample.Tally.Action) : ViewSetup Sample.Tally where
  id := "tally"
  locator := locator
  initial := {}
  hierarchy := Hierarchy.flat
  subscriptions := [Sample.Tally.subscription "*" action]
  mode := .immediate

set_option maxRecDepth 10000 in
/-- **A replay may group events otherwise than live delivery did.** Two committed batches are one chunk
of a replay. A handler that counts the events it is handed counts two before and one afterwards; and
with one view for each root, the first of two views has seen its own event before and both
afterwards. -/
theorem ViewDispatcher.replay_regroups :
    ¬ (Sample.grouped Locator.global .count).Restores Dict.empty ∧
      ¬ (Sample.grouped Locator.perRoot .batch).Restores Dict.empty := by
  constructor
  · intro hrestores
    have hview := hrestores {} _ Sample.openings _
      (Sample.handedDispatcher (Sample.grouped Locator.global .count)) "tally"
      (Sample.keptUp_handed (by decide +kernel) (by decide +kernel)) (by decide) (by rfl)
      (by decide +kernel) Locator.globalId
    have hcount := congrArg (Option.map fun view => view.state.count) hview
    revert hcount
    decide +kernel
  · intro hrestores
    have hview := hrestores {} _ Sample.openings _
      (Sample.handedDispatcher (Sample.grouped Locator.perRoot .batch)) "tally"
      (Sample.keptUp_handed (by decide +kernel) (by decide +kernel)) (by decide) (by rfl)
      (by decide +kernel) "a"
    have hlast := congrArg (Option.map fun view => (view.last, view.state.count)) hview
    revert hlast
    decide +kernel

end Chronicle
