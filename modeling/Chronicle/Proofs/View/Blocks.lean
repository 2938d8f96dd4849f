import Chronicle.Proofs.View.Dispatching
import Chronicle.Proofs.View.Runs

namespace Chronicle

/-!
# Views of managers that take batches whole

A manager in batch mode is handed a block of events and presents it to its handlers as one event. What
its views are depends on how the log was cut into blocks, so the blocks are part of the specification.

* `Projection.present` — what a block that is presented as one event makes of a view.
* `Projection.viewOf` — what blocks make of a view, one after the other, from the beginning.
* `ViewManager.FollowsBlocks` — the invariant of a manager in batch mode: blocks without gaps have been
  applied, and its views are what these make.
* `ViewManager.FollowsBlocks.dispatch` — the events that come next are one more block, or nothing of
  them is applied.
* `Projection.viewOf_whole` — where a handler makes the same of two blocks and of the two as one, the
  cutting does not matter.
-/

/-! ### Blocks as events -/

/-- A block stands where its last event stands. -/
theorem Event.position_batch {block : List Event} {last : Event} {position : Int}
    (hlast : block.getLast? = some last) (hposition : last.position = .ok position) :
    (Event.batch block).position = .ok position := by
  have hmetadata : (Event.batch block).metadata = last.metadata := by simp [Event.batch, hlast]
  obtain ⟨value, hget, hread⟩ := (Event.readAs_eq_ok_iff _ last _ _).1 hposition
  refine (Event.readAs_eq_ok_iff _ _ _ _).2 ⟨value, ?_, hread⟩
  rw [hmetadata]
  exact hget

/-- Blocks that are not empty make up nothing only if there are none. -/
theorem Event.flatten_blocks_eq_nil_iff {blocks : List (List Event)}
    (hne : ∀ block ∈ blocks, block ≠ []) : blocks.flatten = [] ↔ blocks = [] := by
  constructor
  · intro hflatten
    exact List.eq_nil_iff_forall_not_mem.2 fun block hblock =>
      hne block hblock (List.flatten_eq_nil_iff.1 hflatten block hblock)
  · rintro rfl
    rfl

namespace Projection

variable {V : Type} (P : Projection V)

/-- The views that an event affects; none if nobody subscribes to it. -/
def affected (e : Event) : List String :=
  match P.handler? e.tag with
  | none => []
  | some _ => (P.locator P.context e).toOption.getD []

/-- The state of a view, if it is there, or else of a view without any event. -/
def stateOf (view : Option (ViewInstance V)) : V := (view.map ViewInstance.state).getD P.initial

/-- What a block that ends at a position makes of a view when it is presented as one event. -/
def present (id : String) (position : Int) (view : Option (ViewInstance V)) (block : List Event) :
    Except AppError (Option (ViewInstance V)) :=
  match P.handler? Event.batchTag with
  | none => .ok view
  | some handle =>
    if id ∈ P.affected (Event.batch block) then
      (handle (P.stateOf view) (Event.batch block)).map fun state => some ⟨id, position, state⟩
    else .ok view

/-- What blocks make of a view, one after the other; the first one begins at a position. -/
def viewFrom (id : String) :
    Nat → Option (ViewInstance V) → List (List Event) → Except AppError (Option (ViewInstance V))
  | _, view, [] => .ok view
  | n, view, block :: rest =>
    match P.present id (((n + block.length : Nat) : Int) - 1) view block with
    | .error err => .error err
    | .ok view => viewFrom id (n + block.length) view rest

/-- What blocks make of a view, from the beginning of the log. -/
def viewOf (id : String) (blocks : List (List Event)) : Except AppError (Option (ViewInstance V)) :=
  P.viewFrom id 0 none blocks

variable {P} {id : String}

theorem viewFrom_cons_eq_ok {n : Nat} {view view' : Option (ViewInstance V)} {block : List Event}
    {rest : List (List Event)} : P.viewFrom id n view (block :: rest) = .ok view' ↔
      ∃ view₁, P.present id (((n + block.length : Nat) : Int) - 1) view block = .ok view₁ ∧
        P.viewFrom id (n + block.length) view₁ rest = .ok view' := by
  rw [viewFrom]
  rcases P.present id (((n + block.length : Nat) : Int) - 1) view block with _ | _ <;> simp

/-- The last block is applied to what the others have made. -/
theorem viewFrom_concat_eq_ok {n : Nat} {view view' : Option (ViewInstance V)}
    {blocks : List (List Event)} {block : List Event} :
    P.viewFrom id n view (blocks ++ [block]) = .ok view' ↔
      ∃ view₁, P.viewFrom id n view blocks = .ok view₁ ∧
        P.present id (((n + blocks.flatten.length + block.length : Nat) : Int) - 1) view₁ block
          = .ok view' := by
  induction blocks generalizing n view with
  | nil =>
    rw [List.nil_append, viewFrom_cons_eq_ok]
    simp [viewFrom]
  | cons first rest ih =>
    simp only [List.cons_append, viewFrom_cons_eq_ok, ih, List.flatten_cons, List.length_append,
      ← Nat.add_assoc]
    constructor
    · rintro ⟨view₁, hfirst, view₂, hrest, hlast⟩
      exact ⟨view₂, ⟨view₁, hfirst, hrest⟩, hlast⟩
    · rintro ⟨view₂, ⟨view₁, hfirst, hrest⟩, hlast⟩
      exact ⟨view₁, hfirst, view₂, hrest, hlast⟩

/-- A view has the id it is kept under, and has seen no event behind the block. -/
theorem present_places {position bound : Int} {view view' : Option (ViewInstance V)}
    {block : List Event} (h : P.present id position view block = .ok view') (hlt : position < bound)
    (hview : ∀ v, view = some v → v.id = id ∧ v.last < bound) :
    ∀ v, view' = some v → v.id = id ∧ v.last < bound := by
  unfold present at h
  split at h
  · exact Except.ok.inj h ▸ hview
  · rename_i handle _
    split at h
    · rcases hstate : handle (P.stateOf view) (Event.batch block) with _ | state
      · rw [hstate] at h
        simp [Except.map] at h
      · rw [hstate] at h
        rintro v rfl
        obtain rfl := Option.some.inj (Except.ok.inj h)
        exact ⟨rfl, hlt⟩
    · exact Except.ok.inj h ▸ hview

/-- A view that blocks make has the id it is kept under, and has seen no event but theirs. -/
theorem viewFrom_places {n : Nat} {view view' : Option (ViewInstance V)}
    {blocks : List (List Event)} (h : P.viewFrom id n view blocks = .ok view')
    (hview : ∀ v, view = some v → v.id = id ∧ v.last < (n : Int)) :
    ∀ v, view' = some v → v.id = id ∧ v.last < ((n + blocks.flatten.length : Nat) : Int) := by
  induction blocks generalizing n view with
  | nil => exact Except.ok.inj h ▸ hview
  | cons block rest ih =>
    obtain ⟨view₁, hfirst, hrest⟩ := viewFrom_cons_eq_ok.1 h
    rw [List.flatten_cons, List.length_append, ← Nat.add_assoc]
    refine ih hrest (present_places hfirst (by omega) fun v hv => ?_)
    obtain ⟨hid, hlast⟩ := hview v hv
    exact ⟨hid, by push_cast; omega⟩

end Projection

namespace ViewManager

variable {V : Type} {P : Projection V} {m : ViewManager V}

/-! ### Managers in batch mode -/

/-- The manager is set up as the projection says, and presents a block of events as one event. -/
structure Batched (P : Projection V) (m : ViewManager V) : Prop where
  /-- The locator is the one of the projection. -/
  locator : m.locator = P.locator
  /-- The initial state is the one of the projection. -/
  initial : m.initial = P.initial
  /-- Batches are applied as one event. -/
  whole : m.batchMode = true
  /-- The handlers are those of the projection. -/
  handles : P.Handles m.handlers

/-- Asking for handlers only remembers answers. -/
theorem handles_applyAll (m : ViewManager V) (context : ViewContext) {p : Progress V}
    (h : P.Handles p.handlers) (events : List Event) : P.Handles (m.applyAll context p events).1.handlers := by
  induction events generalizing p with
  | nil => exact h
  | cons e rest ih =>
    have hasked := h.asked e.tag
    rw [applyAll, DispatchTable.resolve_eq]
    rcases p.handlers.handler? e.tag with _ | handle
    · exact ih (p := { p with handlers := p.handlers.asked e.tag }) hasked
    · simp only
      rcases m.applyEvent context handle p.working e with _ | ⟨working, isNew⟩
      · exact hasked
      · exact ih (p := ⟨p.handlers.asked e.tag, working, _⟩) hasked

/-- A dispatch changes nothing of how the manager is set up. -/
theorem Batched.dispatch (h : m.Batched P) (context : ViewContext) (batch : List Event) :
    (m.dispatch context batch).manager.Batched P := by
  unfold ViewManager.dispatch
  split
  · exact h
  · split
    · exact h
    · split
      · exact ⟨h.locator, h.initial, h.whole, h.handles⟩
      · have hall := handles_applyAll m context (p := { handlers := m.handlers }) h.handles
          (m.presented batch)
        split
        · rename_i heq
          rw [heq] at hall
          exact ⟨h.locator, h.initial, h.whole, hall⟩
        · rename_i heq
          rw [heq] at hall
          exact ⟨h.locator, h.initial, h.whole, hall⟩

theorem Batched.affected (h : m.Batched P) (e : Event) :
    m.affected P.context e = P.affected e := by
  unfold ViewManager.affected Projection.affected
  rcases hhandle : P.handler? e.tag with _ | handle
  · simp [h.handles.handler?_eq, hhandle]
  · simp [h.handles.handler?_eq, hhandle, h.locator]

/-- A block that is applied makes of every view what it makes when it is presented as one event. -/
theorem Batched.present_dispatch (hm : m.Batched P) {block : List Event} {last : Event}
    {position : Int} (hlast : block.getLast? = some last) (hposition : last.position = .ok position)
    (hnonneg : 0 ≤ position) {id : String}
    (hview : ∀ v, m.view? id = some v → v.id = id ∧ v.last < position)
    (hdone : (m.dispatch P.context block).error = none) :
    P.present id position (m.view? id) block
      = .ok ((m.dispatch P.context block).manager.view? id) := by
  have hne : block ≠ [] := List.ne_nil_of_mem (List.mem_of_getLast? hlast)
  obtain ⟨hold, hnew⟩ := view?_dispatch hne hdone id
  -- The block is new to the view if it affects it.
  have hfresh : (m.viewOrNew id).id = id ∧ (m.viewOrNew id).last < position ∧
      (m.viewOrNew id).state = P.stateOf (m.view? id) := by
    unfold viewOrNew Projection.stateOf
    rcases hget : m.view? id with _ | v
    · refine ⟨rfl, ?_, hm.initial⟩
      show noPosition < position
      unfold noPosition
      omega
    · exact ⟨(hview v hget).1, (hview v hget).2, rfl⟩
  have hnews : m.news P.context block id
      = if id ∈ P.affected (Event.batch block) then [Event.batch block] else [] := by
    unfold news presented
    rw [hm.whole, if_pos rfl, newTo, Event.position_batch hlast hposition]
    simp only [hm.affected, hfresh.2.1, and_true, newTo]
  have htag : (Event.batch block).tag = Event.batchTag := rfl
  rw [hnews] at hold hnew
  unfold Projection.present
  by_cases hid : id ∈ P.affected (Event.batch block)
  · rw [if_pos hid] at hnew
    obtain ⟨view, hfold, hget, -⟩ := hnew (List.cons_ne_nil _ _)
    obtain ⟨view₁, hnext, hview₁⟩ := Option.bind_eq_some_iff.1 hfold
    obtain rfl : view₁ = view := Option.some.inj hview₁
    unfold next? at hnext
    rw [hm.handles.handler?_eq, htag, Event.position_batch hlast hposition] at hnext
    rcases hhandle : P.handler? Event.batchTag with _ | handle
    · rw [hhandle] at hnext
      simp at hnext
    · rw [hhandle] at hnext
      obtain ⟨state, hstate, hupdated⟩ := Option.map_eq_some_iff.1 hnext
      rw [hfresh.2.2] at hstate
      have hok : handle (P.stateOf (m.view? id)) (Event.batch block) = .ok state := by
        rcases happly : handle (P.stateOf (m.view? id)) (Event.batch block) with err | state'
        · rw [happly] at hstate
          simp [Except.toOption] at hstate
        · rw [happly] at hstate
          exact congrArg Except.ok (Option.some.inj hstate)
      simp only [if_pos hid, hok, hget, ← hupdated, hfresh.1]
      rfl
  · rw [if_neg hid] at hold
    rw [hold rfl]
    simp only [if_neg hid]
    split <;> rfl

/-! ### Following a log block by block -/

/-- The manager has applied blocks that follow one another in the log, up to its position, and its
views are what these make when each is presented as one event. -/
structure FollowsBlocks (P : Projection V) (blocks : List (List Event)) (log : Log)
    (m : ViewManager V) : Prop where
  /-- The manager is set up as the projection says. -/
  batched : m.Batched P
  /-- The position is the one before the first event at least. -/
  lower : -1 ≤ m.position
  /-- The log has come to the position. -/
  upper : m.position < log.size
  /-- No block is empty. -/
  nonempty : ∀ block ∈ blocks, block ≠ []
  /-- The blocks are the log up to the position. -/
  covered : blocks.flatten = log.events.take (m.position + 1).toNat
  /-- The views are those that the blocks make. -/
  views : ∀ id, P.viewOf id blocks = .ok (m.view? id)

variable {log log' : Log} {blocks : List (List Event)}

/-- The blocks are as long as the manager has come. -/
theorem FollowsBlocks.length_flatten (h : m.FollowsBlocks P blocks log) :
    (blocks.flatten.length : Int) = m.position + 1 := by
  have hlower := h.lower
  have hupper := h.upper
  unfold Log.size at hupper
  rw [h.covered, List.length_take]
  omega

/-- Later commits do not matter. -/
theorem FollowsBlocks.mono (h : m.FollowsBlocks P blocks log) (hext : log.Extends log') :
    m.FollowsBlocks P blocks log' := by
  obtain ⟨later, hlater⟩ := hext
  have hlower := h.lower
  have hupper := h.upper
  unfold Log.size at hupper
  refine ⟨h.batched, h.lower, ?_, h.nonempty, ?_, h.views⟩
  · show m.position < (log'.events.length : Int)
    rw [← hlater, List.length_append]
    omega
  · rw [← hlater, List.take_append_of_le_length (by omega)]
    exact h.covered

/-- A purged manager has applied no blocks. -/
theorem FollowsBlocks.purge (h : m.FollowsBlocks P blocks log) :
    m.purge.FollowsBlocks P [] log where
  batched := ⟨h.batched.locator, h.batched.initial, h.batched.whole, h.batched.handles⟩
  lower := Int.le_refl _
  upper := by
    show (-1 : Int) < log.size
    omega
  nonempty := nofun
  covered := rfl
  views _ := rfl

/-- The events that come next are one more block if they are applied, and none if they are not. -/
theorem FollowsBlocks.dispatch (hlog : log.Consistent) (h : m.FollowsBlocks P blocks log) {n : Nat}
    (hn : m.position + 1 = n) {batch : List Event} (hne : batch ≠ [])
    (hnext : log.events.take n ++ batch <+: log.events) :
    ((m.dispatch P.context batch).error ≠ none →
      (m.dispatch P.context batch).manager.FollowsBlocks P blocks log) ∧
    ((m.dispatch P.context batch).error = none →
      (m.dispatch P.context batch).manager.FollowsBlocks P (blocks ++ [batch]) log) := by
  have hlower := h.lower
  have hupper := h.upper
  have hbatched := h.batched.dispatch P.context batch
  constructor
  · intro hfailed
    obtain ⟨err, herr⟩ := Option.ne_none_iff_exists'.1 hfailed
    obtain ⟨hviews, hposition, -⟩ := dispatch_of_error herr
    refine ⟨hbatched, by rw [hposition]; exact hlower, by rw [hposition]; exact hupper, h.nonempty,
      by rw [hposition]; exact h.covered, fun id => ?_⟩
    rw [h.views id, view?, view?, hviews]
  · intro hdone
    obtain ⟨-, last, position, p, hlast, hposition, -, hdispatch⟩ := dispatch_of_ok hne hdone
    have hlength : 0 < batch.length := List.length_pos_iff.2 hne
    obtain ⟨htake, hsize⟩ := log.take_next (by omega) hnext
    have hflatten := h.length_flatten
    -- The position that the block reaches is the place of its last event.
    have hend : position = ((n + batch.length : Nat) : Int) - 1 := by
      have hplace := hlog.position_next (by omega) hnext (batch.length - 1) last
        (by rw [← List.getLast?_eq_getElem?]; exact hlast)
      rw [hposition] at hplace
      have := Except.ok.inj hplace
      omega
    have hmoved : (m.dispatch P.context batch).manager.position + 1
        = ((n + batch.length : Nat) : Int) := by
      rw [hdispatch]
      show max m.position position + 1 = _
      omega
    refine ⟨hbatched, by omega, by omega, ?_, ?_, fun id => ?_⟩
    · intro block hblock
      rcases List.mem_append.1 hblock with hblock | hblock
      · exact h.nonempty block hblock
      · rwa [List.mem_singleton.1 hblock]
    · rw [hmoved, Int.toNat_natCast, htake, List.flatten_append, h.covered, hn, Int.toNat_natCast]
      simp
    · refine Projection.viewFrom_concat_eq_ok.2 ⟨_, h.views id, ?_⟩
      have hseen := Projection.viewFrom_places (h.views id) (by simp)
      have hcount : 0 + blocks.flatten.length + batch.length = n + batch.length := by omega
      rw [hcount, ← hend]
      refine h.batched.present_dispatch hlast hposition (by omega) (fun v hv => ?_) hdone
      obtain ⟨hid, hlt⟩ := hseen v hv
      exact ⟨hid, by omega⟩

/-- That a manager follows the log block by block, whatever the blocks, is an invariant. -/
theorem invariant_followsBlocks (P : Projection V) :
    Invariant P.context fun log m => ∃ blocks, m.FollowsBlocks P blocks log where
  lower := fun ⟨_, h⟩ => h.lower
  upper := fun ⟨_, h⟩ => h.upper
  mono := fun ⟨blocks, h⟩ hext => ⟨blocks, h.mono hext⟩
  purge := fun ⟨_, h⟩ => ⟨[], h.purge⟩
  dispatch := by
    rintro log m n batch hlog ⟨blocks, h⟩ hn hnext
    by_cases hne : batch = []
    · refine ⟨blocks, ?_⟩
      rw [hne]
      unfold ViewManager.dispatch
      split <;> exact h
    · obtain ⟨hfailed, hdone⟩ := h.dispatch hlog hn hne hnext
      by_cases herror : (m.dispatch P.context batch).error = none
      · exact ⟨blocks ++ [batch], hdone herror⟩
      · exact ⟨blocks, hfailed herror⟩

end ViewManager

namespace ViewSetup

variable {V : Type} (setup : ViewSetup V)

/-- The registration of a fresh manager in batch mode. -/
def batched : Registration V where
  manager := ViewManager.new setup.id setup.locator setup.initial setup.hierarchy
    setup.subscriptions true
  mode := setup.mode

/-- A fresh manager has applied no blocks. -/
theorem followsBlocks_batched (context : ViewContext) (log : Log) :
    setup.batched.manager.FollowsBlocks (setup.projection context) [] log where
  batched := by
    obtain ⟨hsound, hhierarchy, hhandlers⟩ := DispatchTable.foldl_asked
      (DispatchTable.sound_unasked setup.hierarchy (Table.ofList setup.subscriptions))
      (setup.hierarchy.declaredTypes ++ (Table.ofList setup.subscriptions).keys)
    exact ⟨rfl, rfl, rfl, hhierarchy, hhandlers, hsound⟩
  lower := Int.le_refl _
  upper := by
    show (-1 : Int) < log.size
    omega
  nonempty := nofun
  covered := rfl
  views _ := rfl

end ViewSetup

/-! ### Where the cutting does not matter -/

/-- The handler makes of two blocks, one after the other, what it makes of the two as one block. -/
def ViewHandler.Composes {V : Type} (handle : ViewHandler V) : Prop :=
  ∀ ⦃xs ys : List Event⦄ ⦃s s' s'' : V⦄, xs ≠ [] → ys ≠ [] → handle s (Event.batch xs) = .ok s' →
    handle s' (Event.batch ys) = .ok s'' → handle s (Event.batch (xs ++ ys)) = .ok s''

namespace Projection

variable {V : Type} {P : Projection V} {id : String} {handle : ViewHandler V}

/-- A view that a block affects is what the handler makes of it. -/
theorem present_of_mem {position : Int} {view view' : Option (ViewInstance V)} {block : List Event}
    (hmem : id ∈ P.affected (Event.batch block))
    (h : P.present id position view block = .ok view') :
    ∃ handle state, P.handler? Event.batchTag = some handle ∧
      handle (P.stateOf view) (Event.batch block) = .ok state ∧
      view' = some ⟨id, position, state⟩ := by
  have htag : (Event.batch block).tag = Event.batchTag := rfl
  unfold present at h
  rcases hhandle : P.handler? Event.batchTag with _ | handle
  · unfold affected at hmem
    rw [htag, hhandle] at hmem
    simp at hmem
  · rw [hhandle] at h
    simp only [if_pos hmem] at h
    rcases hstate : handle (P.stateOf view) (Event.batch block) with _ | state
    · rw [hstate] at h
      simp [Except.map] at h
    · rw [hstate] at h
      exact ⟨handle, state, rfl, hstate, (Except.ok.inj h).symm⟩

theorem present_of_not_mem {position : Int} {view : Option (ViewInstance V)} {block : List Event}
    (hmem : id ∉ P.affected (Event.batch block)) :
    P.present id position view block = .ok view := by
  unfold present
  simp only [if_neg hmem]
  split <;> rfl

/-- A view that no block affects is as it was. -/
theorem viewFrom_of_not_mem {n : Nat} {view view' : Option (ViewInstance V)}
    {blocks : List (List Event)} (hmem : ∀ block ∈ blocks, id ∉ P.affected (Event.batch block))
    (h : P.viewFrom id n view blocks = .ok view') : view' = view := by
  induction blocks generalizing n with
  | nil => exact (Except.ok.inj h).symm
  | cons block rest ih =>
    obtain ⟨view₁, hfirst, hrest⟩ := viewFrom_cons_eq_ok.1 h
    rw [present_of_not_mem (hmem block List.mem_cons_self)] at hfirst
    obtain rfl := Except.ok.inj hfirst
    exact ih (fun block hblock => hmem block (List.mem_cons_of_mem _ hblock)) hrest

/-- A view that every block affects is what the handler makes of all blocks as one. -/
theorem viewFrom_whole (hhandle : P.handler? Event.batchTag = some handle)
    (hcomposes : handle.Composes) {n : Nat} {view view' : Option (ViewInstance V)}
    {blocks : List (List Event)} (hblocks : blocks ≠ []) (hnonempty : ∀ block ∈ blocks, block ≠ [])
    (hmem : ∀ block ∈ blocks, id ∈ P.affected (Event.batch block))
    (h : P.viewFrom id n view blocks = .ok view') :
    ∃ state, handle (P.stateOf view) (Event.batch blocks.flatten) = .ok state ∧
      view' = some ⟨id, ((n + blocks.flatten.length : Nat) : Int) - 1, state⟩ := by
  induction blocks generalizing n view with
  | nil => exact absurd rfl hblocks
  | cons block rest ih =>
    obtain ⟨view₁, hfirst, hrest⟩ := viewFrom_cons_eq_ok.1 h
    obtain ⟨handle', state₁, hhandle', hstate₁, rfl⟩ :=
      present_of_mem (hmem block List.mem_cons_self) hfirst
    obtain rfl : handle = handle' := Option.some.inj (hhandle.symm.trans hhandle')
    by_cases hlast : rest = []
    · subst hlast
      obtain rfl := Except.ok.inj hrest
      exact ⟨state₁, by simpa using hstate₁, by simp⟩
    · obtain ⟨state, hstate, hview⟩ := ih hlast
        (fun b hb => hnonempty b (List.mem_cons_of_mem _ hb))
        (fun b hb => hmem b (List.mem_cons_of_mem _ hb)) hrest
      refine ⟨state, ?_, ?_⟩
      · refine hcomposes (hnonempty block List.mem_cons_self) ?_ hstate₁ hstate
        rwa [Ne, Event.flatten_blocks_eq_nil_iff fun b hb => hnonempty b (List.mem_cons_of_mem _ hb)]
      · rw [hview, List.flatten_cons, List.length_append, ← Nat.add_assoc]

/-- A view that all blocks affect, from the beginning of the log. -/
theorem viewOf_whole (hhandle : P.handler? Event.batchTag = some handle)
    (hcomposes : handle.Composes) {view : Option (ViewInstance V)} {blocks : List (List Event)}
    (hblocks : blocks ≠ []) (hnonempty : ∀ block ∈ blocks, block ≠ [])
    (hmem : ∀ block ∈ blocks, id ∈ P.affected (Event.batch block))
    (h : P.viewOf id blocks = .ok view) :
    ∃ state, handle P.initial (Event.batch blocks.flatten) = .ok state ∧
      view = some ⟨id, (blocks.flatten.length : Int) - 1, state⟩ := by
  obtain ⟨state, hstate, hview⟩ := viewFrom_whole hhandle hcomposes hblocks hnonempty hmem h
  exact ⟨state, hstate, by rw [hview, Nat.zero_add]⟩

end Projection

end Chronicle
