import Chronicle.Proofs.View.Dispatching
import Chronicle.Proofs.View.Feeding

namespace Chronicle

/-!
# How catching up ends

* `Feeding.Loops` — catching up as a loop without a bound, with the number of its rounds;
  `Feeding.Loops.catchUpFrom_eq` says that `Feeding.catchUpFrom` with enough rounds is this loop.
* `ViewDispatchError.leavesStopped` — the errors of a manager leave it stopped, those of the store do
  not. So the answer of the loop tells whether the manager is stopped, with every store
  (`Feeding.Loops.stopped`, `Feeding.stopped_catchUp`).
* `Feeding.exists_loops` — the loop ends over a log that others write to and whose reads may fail, and
  `Feeding.catchUp` is this loop, unless the manager stands at the greatest word.
* `Feeding.Loops.atEnd`, `Feeding.catchUp_end` — without an error the manager has come to the end of the
  log.
* `Feeding.catchUp_stops_or_ends` — where no read fails, a manager that does not get there is stopped.
-/

/-- Whether a manager is stopped after it was fed with this outcome: after its own errors, but not after
those of the store. -/
def ViewDispatchError.leavesStopped : Option ViewDispatchError → Bool
  | none => false
  | some (.store _) => false
  | some _ => true

theorem ViewDispatchError.leavesStopped_some {err : ViewDispatchError}
    (h : ∀ cause, err ≠ .store cause) : leavesStopped (some err) = true := by
  cases err with
  | store cause => exact absurd rfl (h cause)
  | _ => rfl

/-! ### The errors of a manager -/

namespace ViewManager

variable {V : Type} (m : ViewManager V) (context : ViewContext)

theorem applyTo_ne_store (handle : ViewHandler V) (e : Event) (position : Int) (w : Working V)
    (applied : Bool) (ids : List String) (cause : StoreError) :
    m.applyTo handle e position w applied ids ≠ .error (.store cause) := by
  induction ids generalizing w applied with
  | nil =>
    intro h
    cases h
  | cons id ids ih =>
    rw [applyTo]
    simp only
    split
    · exact ih _ _
    · split
      · intro h
        cases h
      · exact ih _ _

theorem applyEvent_ne_store (handle : ViewHandler V) (w : Working V) (e : Event)
    (cause : StoreError) : m.applyEvent context handle w e ≠ .error (.store cause) := by
  unfold applyEvent
  split
  · exact nofun
  · split
    · exact nofun
    · exact m.applyTo_ne_store handle e _ w false _ cause

theorem applyAll_ne_store (p : Progress V) (events : List Event) (cause : StoreError) :
    (m.applyAll context p events).2 ≠ some (.store cause) := by
  induction events generalizing p with
  | nil => exact nofun
  | cons e rest ih =>
    rw [applyAll]
    split
    · exact ih _
    · split
      · rename_i err happly
        intro herr
        cases herr
        exact m.applyEvent_ne_store context _ _ _ _ happly
      · exact ih _

/-- A manager that is handed events does not read the store. -/
theorem dispatch_ne_store (batch : List Event) (cause : StoreError) :
    (m.dispatch context batch).error ≠ some (.store cause) := by
  unfold dispatch
  split
  · exact nofun
  · split
    · exact nofun
    · split
      · exact nofun
      · split
        · rename_i p err hall
          intro herr
          cases herr
          exact m.applyAll_ne_store context _ _ cause (congrArg Prod.snd hall)
        · exact nofun

/-- A manager that is handed events is stopped after that exactly if there was an error. -/
theorem stopped_dispatch (batch : List Event) : (m.dispatch context batch).manager.stopped
    = ViewDispatchError.leavesStopped (m.dispatch context batch).error := by
  cases herror : (m.dispatch context batch).error with
  | some err =>
    rw [(dispatch_of_error herror).2.2.2.1, ViewDispatchError.leavesStopped_some fun cause hcause =>
      m.dispatch_ne_store context batch cause (hcause ▸ herror)]
  | none =>
    show (m.dispatch context batch).manager.stopped = false
    rcases List.eq_nil_or_concat batch with rfl | ⟨_, _, rfl⟩
    · unfold dispatch at herror ⊢
      split
      · rename_i hstopped
        rw [if_pos hstopped] at herror
        cases herror
      · rename_i hrunning
        simpa using hrunning
    · obtain ⟨hrunning, _, _, _, _, _, _, hdispatch⟩ := dispatch_of_ok (by simp) herror
      rw [hdispatch]
      exact hrunning

/-- Events that are applied bring the manager to the last of them. -/
theorem position_dispatch {m : ViewManager V} {context : ViewContext} {batch : List Event}
    {last : Event} {p : Int} (hlast : batch.getLast? = some last) (hp : last.position = .ok p)
    (herror : (m.dispatch context batch).error = none) :
    (m.dispatch context batch).manager.position = max m.position p := by
  have hne : batch ≠ [] := by
    rintro rfl
    cases hlast
  obtain ⟨_, last', p', _, hlast', hp', _, hdispatch⟩ := dispatch_of_ok hne herror
  cases hlast.symm.trans hlast'
  cases hp.symm.trans hp'
  rw [hdispatch]
  rfl

/-- The manager has come to the end of the log: no event is beyond its position. -/
def AtEnd (log : Log) (m : ViewManager V) : Prop := ∀ n < log.size, (n : Int) ≤ m.position

instance (log : Log) (m : ViewManager V) : Decidable (m.AtEnd log) :=
  inferInstanceAs (Decidable (∀ n < log.size, (n : Int) ≤ m.position))

theorem AtEnd.of_size_le {log log' : Log} {m : ViewManager V} (h : m.AtEnd log')
    (hsize : log.size ≤ log'.size) : m.AtEnd log :=
  fun n hn => h n (Nat.lt_of_lt_of_le hn hsize)

end ViewManager

/-! ### The loop -/

namespace Feeding

section

variable {σ V : Type} {src : ViewSource σ} {f f' : Feeding σ V}

/-- The loop ends after so many rounds with an answer. -/
inductive Loops (src : ViewSource σ) :
    Nat → Feeding σ V → Option ViewDispatchError × Feeding σ V → Prop where
  /-- The loop ends. -/
  | ends {f f' : Feeding σ V} {answer : Option ViewDispatchError} :
    f.round src = (some answer, f') → Loops src 1 f (answer, f')
  /-- The loop goes on. -/
  | again {rounds : Nat} {f f' : Feeding σ V} {outcome : Option ViewDispatchError × Feeding σ V} :
    f.round src = (none, f') → Loops src rounds f' outcome → Loops src (rounds + 1) f outcome

/-- Where there may be as many rounds, what is done is the loop. -/
theorem Loops.catchUpFrom_eq {rounds most : Nat} {outcome : Option ViewDispatchError × Feeding σ V}
    (h : Loops src rounds f outcome) (hmost : rounds ≤ most) : f.catchUpFrom src most = outcome := by
  induction h generalizing most with
  | ends hround =>
    obtain ⟨most, rfl⟩ := Nat.exists_eq_add_of_le' hmost
    rw [catchUpFrom, hround]
  | again hround _ ih =>
    obtain ⟨most, rfl⟩ := Nat.exists_eq_add_of_le' (Nat.le_trans (Nat.le_add_left 1 _) hmost)
    rw [catchUpFrom, hround]
    exact ih (by omega)

/-- There is one way in which the loop ends. -/
theorem Loops.unique {rounds rounds' : Nat} {outcome outcome' : Option ViewDispatchError × Feeding σ V}
    (h : Loops src rounds f outcome) (h' : Loops src rounds' f outcome') :
    rounds = rounds' ∧ outcome = outcome' := by
  induction h generalizing rounds' with
  | ends hround =>
    cases h' with
    | ends hround' =>
      cases hround.symm.trans hround'
      exact ⟨rfl, rfl⟩
    | again hround' _ => cases hround.symm.trans hround'
  | again hround _ ih =>
    cases h' with
    | ends hround' => cases hround.symm.trans hround'
    | again hround' hlater =>
      cases hround.symm.trans hround'
      obtain ⟨rfl, rfl⟩ := ih hlater
      exact ⟨rfl, rfl⟩

/-! ### The answer tells whether the manager is stopped -/

/-- To read a chunk does not touch the registration. -/
theorem target_nextChunk {answer : Except StoreError (List Event)}
    (h : f.nextChunk src = (answer, f')) : f'.target = f.target := by
  obtain rfl : (f.nextChunk src).2 = f' := congrArg Prod.snd h
  unfold nextChunk
  split <;> rfl

theorem stopped_dispatch {context : ViewContext} {events : List Event}
    {answer : Option ViewDispatchError} (h : f.dispatch context events = (answer, f')) :
    f'.target.manager.stopped = ViewDispatchError.leavesStopped answer := by
  obtain rfl : (f.dispatch context events).2 = f' := congrArg Prod.snd h
  obtain rfl : (f.dispatch context events).1 = answer := congrArg Prod.fst h
  exact f.target.manager.stopped_dispatch context events

variable (src)

/-- If a round ends the loop, its answer tells whether the manager is stopped. Otherwise the manager
runs. -/
theorem stopped_round (f : Feeding σ V) : (f.round src).2.target.manager.stopped
    = ViewDispatchError.leavesStopped ((f.round src).1.getD none) := by
  fun_cases Feeding.round src f with
  | case1 hstopped => exact hstopped
  | case2 hrunning err f' hchunk =>
    -- The store has failed before the manager had anything to do.
    show f'.target.manager.stopped = false
    rw [target_nextChunk hchunk]
    exact Bool.not_eq_true _ ▸ hrunning
  | case3 hrunning f' hchunk =>
    show f'.target.manager.stopped = false
    rw [target_nextChunk hchunk]
    exact Bool.not_eq_true _ ▸ hrunning
  | case4 _ e rest f' _ err f'' hdispatch => exact stopped_dispatch hdispatch
  | case5 _ e rest f' _ f'' hdispatch =>
    have hrunning := stopped_dispatch hdispatch
    split <;> exact hrunning

/-- The answer of catching up tells whether the manager is stopped. Without any round nothing is
tried. -/
theorem stopped_catchUpFrom (rounds : Nat) (f : Feeding σ V)
    (h : rounds = 0 → f.target.manager.stopped = false) :
    (f.catchUpFrom src rounds).2.target.manager.stopped
      = ViewDispatchError.leavesStopped (f.catchUpFrom src rounds).1 := by
  fun_induction Feeding.catchUpFrom src rounds f with
  | case1 f => exact h rfl
  | case2 rounds f answer f' hround =>
    have hstopped := stopped_round src f
    rwa [hround] at hstopped
  | case3 rounds f f' hround ih =>
    have hstopped := stopped_round src f
    rw [hround] at hstopped
    exact ih fun _ => hstopped

/-- The answer of catching up tells whether the manager is stopped. -/
theorem stopped_catchUp (f : Feeding σ V) : (f.catchUp src).2.target.manager.stopped
    = ViewDispatchError.leavesStopped (f.catchUp src).1 :=
  stopped_catchUpFrom src _ f nofun

variable {src} in
/-- So does the answer of the loop. -/
theorem Loops.stopped {rounds : Nat} {outcome : Option ViewDispatchError × Feeding σ V}
    (h : Loops src rounds f outcome) :
    outcome.2.target.manager.stopped = ViewDispatchError.leavesStopped outcome.1 := by
  rw [← h.catchUpFrom_eq (Nat.le_succ rounds)]
  exact stopped_catchUpFrom src _ f nofun

end

/-! ### Without an error the end of the log is reached -/

variable {V : Type} {f f' f'' : Feeding SharedLog V} {src : ViewSource SharedLog} {rounds : Nat}
  {outcome : Option ViewDispatchError × Feeding SharedLog V}

/-- The last event of a chunk stands where the chunk ends. -/
theorem position_getLast?_chunk {log : Log} (hlog : log.Consistent) {first : Int} {count : Nat}
    {e : Event} {rest : List Event} (h : e :: rest = (log.stream first).take count) :
    ∃ last, (e :: rest).getLast? = some last ∧
      last.position = .ok ((first.toNat + rest.length : Nat) : Int) ∧
      first.toNat + rest.length < log.size ∧
      ((e :: rest).length ≠ count → first.toNat + rest.length + 1 = log.size) := by
  obtain ⟨last, hlast⟩ :=
    Option.isSome_iff_exists.1 (List.getLast?_isSome.2 (List.cons_ne_nil e rest))
  have hlength := congrArg List.length h
  rw [List.length_take, Log.stream, List.length_drop, List.length_cons] at hlength
  have hplace : log.events[first.toNat + rest.length]? = some last := by
    rw [← hlast, List.getLast?_eq_getElem?, List.length_cons, Nat.add_sub_cancel, h,
      List.getElem?_take, if_pos (by omega), Log.stream, List.getElem?_drop]
  refine ⟨last, hlast, hlog.position hplace, (List.getElem?_eq_some_iff.1 hplace).1, fun hnot => ?_⟩
  rw [List.length_cons] at hnot
  unfold Log.size
  omega

/-- A manager at the greatest word has come to the end of every log. -/
theorem atEnd_of_greatest {log : Log} (hlog : log.Consistent) {m : ViewManager V}
    (h : m.position = Word64.greatest) : m.AtEnd log := by
  intro n hn
  have hroom := hlog.room
  omega

/-- A chunk that is read and applied moves the manager to the last event of the chunk, unless it stands
behind that already. -/
theorem chunk_moves (hstore : src.store = SharedLog.store) (hlog : f.store.log.Consistent)
    {e : Event} {rest : List Event} (hchunk : f.nextChunk src = (.ok (e :: rest), f'))
    (hdispatch : f'.dispatch src.context (e :: rest) = (none, f'')) :
    f.store.Grown f''.store ∧ ∃ place : Nat,
      f''.target.manager.position = max f.target.manager.position place ∧
      (Word64.next f.target.manager.position).toNat + (e :: rest).length = place + 1 ∧
      place < f''.store.log.size ∧
      ((e :: rest).length ≠ src.config.maxItemsPerBatch → place + 1 = f''.store.log.size) := by
  have hgrown := SharedLog.grown_turn hlog
  have hevents := chunk_eq_take hstore hchunk
  obtain rfl := eq_of_nextChunk hstore hchunk
  obtain ⟨last, hlast, hposition, hlt, hend⟩ := position_getLast?_chunk hgrown.log hevents
  have hmoved := ViewManager.position_dispatch hlast hposition (congrArg Prod.fst hdispatch)
  obtain rfl : _ = f'' := congrArg Prod.snd hdispatch
  exact ⟨hgrown, _, hmoved, rfl, hlt, hend⟩

/-- If a round ends the loop without an error, the manager has come to the end of the log. -/
theorem round_end (hstore : src.store = SharedLog.store) (hchunks : 0 < src.config.maxItemsPerBatch)
    (hlog : f.store.log.Consistent) (h : (f.round src).1 = some none) :
    f.store.Grown (f.round src).2.store ∧
      (f.round src).2.target.manager.AtEnd (f.round src).2.store.log := by
  revert h
  fun_cases Feeding.round src f with
  | case1 =>
    intro h
    cases h
  | case2 =>
    intro h
    cases h
  | case3 _ f' hchunk =>
    intro _
    -- Nothing is left to read.
    have hlength := congrArg List.length (chunk_eq_take hstore hchunk)
    obtain rfl := eq_of_nextChunk hstore hchunk
    have hgrown := SharedLog.grown_turn hlog
    refine ⟨hgrown, ?_⟩
    by_cases hgreatest : f.target.manager.position = Word64.greatest
    · exact atEnd_of_greatest hgrown.log hgreatest
    · rw [List.length_take, Log.stream, List.length_drop, List.length_nil,
        Word64.next_of_ne hgreatest] at hlength
      intro n hn
      have hplace : n < f.store.turn.2.log.events.length := hn
      show (n : Int) ≤ f.target.manager.position
      omega
  | case4 =>
    intro h
    cases h
  | case5 _ e rest f' hchunk f'' hdispatch =>
    intro h
    obtain ⟨hgrown, place, hmoved, -, -, hend⟩ := chunk_moves hstore hlog hchunk hdispatch
    have hplace := hend fun hfull => by simp [hfull] at h
    refine ⟨hgrown, fun n hn => ?_⟩
    have hlt : n < f''.store.log.size := hn
    show (n : Int) ≤ f''.target.manager.position
    omega

/-- If the loop goes on behind a round, the manager has moved on by a full chunk, and stands in the log;
unless it stands at the greatest word. -/
theorem round_moves (hstore : src.store = SharedLog.store) (hlog : f.store.log.Consistent)
    (h : f.round src = (none, f')) :
    f.store.Grown f'.store ∧ f.target.manager.position ≤ f'.target.manager.position ∧
      (f.target.manager.position ≠ Word64.greatest →
        (f.target.manager.position + 1).toNat + src.config.maxItemsPerBatch
            ≤ f'.target.manager.position + 1 ∧
          f'.target.manager.position < f'.store.log.size) := by
  obtain rfl : (f.round src).2 = f' := congrArg Prod.snd h
  replace h := congrArg Prod.fst h
  revert h
  fun_cases Feeding.round src f with
  | case1 =>
    intro h
    cases h
  | case2 =>
    intro h
    cases h
  | case3 =>
    intro h
    cases h
  | case4 =>
    intro h
    cases h
  | case5 _ e rest f' hchunk f'' hdispatch =>
    intro h
    obtain ⟨hgrown, place, hmoved, hplace, hlt, -⟩ := chunk_moves hstore hlog hchunk hdispatch
    have hfull : (e :: rest).length = src.config.maxItemsPerBatch := by
      by_contra hnot
      rw [if_neg hnot] at h
      cases h
    refine ⟨hgrown, hmoved ▸ Int.le_max_left _ _, fun hne => ?_⟩
    rw [Word64.next_of_ne hne, hfull] at hplace
    show _ ≤ f''.target.manager.position + 1 ∧ f''.target.manager.position < (f''.store.log.size : Int)
    omega

/-- Without an error, every position is reached that was in the log. There are rounds left as long as
it is not reached, since each of them moves the manager on. -/
theorem catchUpFrom_end (hstore : src.store = SharedLog.store)
    (hchunks : 0 < src.config.maxItemsPerBatch) (rounds : Nat) (hlog : f.store.log.Consistent)
    (hdone : (f.catchUpFrom src rounds).1 = none) {n : Nat} (hn : n < f.store.log.size)
    (hrounds : (n : Int) ≤ f.target.manager.position ∨
      n < (f.target.manager.position + 1).toNat + rounds * src.config.maxItemsPerBatch) :
    (n : Int) ≤ (f.catchUpFrom src rounds).2.target.manager.position := by
  fun_induction Feeding.catchUpFrom src rounds f with
  | case1 f =>
    show (n : Int) ≤ f.target.manager.position
    omega
  | case2 rounds f answer f' hround =>
    obtain rfl : answer = none := hdone
    obtain ⟨hgrown, hend⟩ := round_end hstore hchunks hlog (congrArg Prod.fst hround)
    rw [hround] at hgrown hend
    exact hend n (Nat.lt_of_lt_of_le hn hgrown.size_le)
  | case3 rounds f f' hround ih =>
    obtain ⟨hgrown, hle, hmoved⟩ := round_moves hstore hlog hround
    have hsize := hgrown.size_le
    have hroom := hlog.room
    rw [Nat.succ_mul] at hrounds
    refine ih hgrown.log hdone (by omega) ?_
    by_cases hgreatest : f.target.manager.position = Word64.greatest
    · omega
    · have hnext := (hmoved hgreatest).1
      omega

/-- There may be more events in all rounds than a log has. -/
theorem count_lt_mostRounds_mul {config : ViewConfig} (hchunks : 0 < config.maxItemsPerBatch) :
    Word64.count < mostRounds config * config.maxItemsPerBatch := by
  rw [mostRounds, Nat.mul_comm]
  exact Nat.lt_mul_div_succ _ hchunks

/-- Without an error, the manager has come to where the log ended, if not further. -/
theorem catchUp_end (hstore : src.store = SharedLog.store)
    (hchunks : 0 < src.config.maxItemsPerBatch) (hlog : f.store.log.Consistent)
    (hdone : (f.catchUp src).1 = none) :
    (f.catchUp src).2.target.manager.AtEnd f.store.log := by
  intro n hn
  have hcount := count_lt_mostRounds_mul hchunks
  have hroom := hlog.room
  refine catchUpFrom_end hstore hchunks (mostRounds src.config) hlog hdone hn (.inr ?_)
  unfold Word64.greatest at hroom
  unfold Word64.count at hcount
  omega

/-- So it has if the loop ends without an error, however many rounds it takes. -/
theorem Loops.atEnd (h : Loops src rounds f outcome) (hstore : src.store = SharedLog.store)
    (hchunks : 0 < src.config.maxItemsPerBatch) (hlog : f.store.log.Consistent)
    (hdone : outcome.1 = none) : outcome.2.target.manager.AtEnd f.store.log := by
  intro n hn
  have heq := h.catchUpFrom_eq (Nat.le_add_right rounds (n + 1))
  have hrounds : n < (rounds + (n + 1)) * src.config.maxItemsPerBatch :=
    Nat.lt_of_lt_of_le (by omega) (Nat.le_mul_of_pos_right (rounds + (n + 1)) hchunks)
  rw [← heq] at hdone ⊢
  exact catchUpFrom_end hstore hchunks _ hlog hdone hn (.inr (by omega))

/-! ### The loop ends -/

/-- Every round that does not end the loop moves the manager on by a full chunk, but not out of the log.
So the loop ends, as a log is not longer than a word tells. -/
theorem loops_catchUpFrom (hstore : src.store = SharedLog.store) (most : Nat)
    (hlog : f.store.log.Consistent) (hposition : f.target.manager.position < Word64.greatest)
    (hmost : Word64.greatest - max f.target.manager.position (-1)
      < (most * src.config.maxItemsPerBatch : Nat)) :
    ∃ rounds ≤ most, Loops src rounds f (f.catchUpFrom src most) := by
  fun_induction Feeding.catchUpFrom src most f with
  | case1 f =>
    rw [Nat.zero_mul] at hmost
    unfold Word64.greatest at *
    omega
  | case2 most f answer f' hround => exact ⟨1, Nat.le_add_left 1 most, .ends hround⟩
  | case3 most f f' hround ih =>
    obtain ⟨hgrown, -, hmoved⟩ := round_moves hstore hlog hround
    obtain ⟨hnext, hlt⟩ := hmoved (Int.ne_of_lt hposition)
    have hroom := hgrown.log.room
    rw [Nat.succ_mul] at hmost
    obtain ⟨rounds, hrounds, hloops⟩ := ih hgrown.log (by omega) (by omega)
    exact ⟨rounds + 1, Nat.succ_le_succ hrounds, .again hround hloops⟩

/-- The loop ends, and `Feeding.catchUp` is this loop. -/
theorem exists_loops (hstore : src.store = SharedLog.store)
    (hchunks : 0 < src.config.maxItemsPerBatch) (hlog : f.store.log.Consistent)
    (hposition : f.target.manager.position < Word64.greatest) :
    ∃ rounds ≤ mostRounds src.config, Loops src rounds f (f.catchUp src) := by
  have hcount := count_lt_mostRounds_mul hchunks
  refine loops_catchUpFrom hstore (mostRounds src.config) hlog hposition ?_
  unfold Word64.greatest
  unfold Word64.count at hcount
  omega

/-! ### Where no read fails -/

/-- Where no operation fails, a chunk is read. -/
theorem nextChunk_of_reliable (hstore : src.store = SharedLog.store)
    (hreliable : f.store.Reliable) : ∃ chunk, (f.nextChunk src).1 = .ok chunk := by
  have hread : src.store.stream (Word64.next f.target.manager.position) f.store
      = (.ok ((f.store.turn.2.log.stream (Word64.next f.target.manager.position)).map .ok),
        f.store.turn.2) := by
    rw [hstore]
    show (Fault.read f.store.turn.1 _, _) = _
    rw [hreliable.turn_fst]
    rfl
  unfold nextChunk
  rw [hread]
  simp only
  rw [← List.map_take, EventStream.collect_map_ok]
  exact ⟨_, rfl⟩

/-- Where no operation fails, the errors of a round are those of the manager. -/
theorem round_ne_store (hstore : src.store = SharedLog.store) (hreliable : f.store.Reliable)
    (cause : StoreError) : (f.round src).1 ≠ some (some (.store cause)) := by
  fun_cases Feeding.round src f with
  | case1 =>
    intro h
    cases h
  | case2 _ err f' hchunk =>
    obtain ⟨chunk, hread⟩ := nextChunk_of_reliable hstore hreliable
    cases (congrArg Prod.fst hchunk).symm.trans hread
  | case3 =>
    intro h
    cases h
  | case4 _ e rest f' hchunk err f'' hdispatch =>
    rintro ⟨⟩
    exact f'.target.manager.dispatch_ne_store src.context _ cause (congrArg Prod.fst hdispatch)
  | case5 =>
    intro h
    split at h <;> cases h

/-- So are those of catching up. -/
theorem catchUpFrom_ne_store (hstore : src.store = SharedLog.store) (rounds : Nat)
    (hlog : f.store.log.Consistent) (hreliable : f.store.Reliable) (cause : StoreError) :
    (f.catchUpFrom src rounds).1 ≠ some (.store cause) := by
  fun_induction Feeding.catchUpFrom src rounds f with
  | case1 f =>
    intro h
    cases h
  | case2 rounds f answer f' hround =>
    rintro rfl
    exact round_ne_store hstore hreliable cause (congrArg Prod.fst hround)
  | case3 rounds f f' hround ih =>
    have hlater := (hround ▸ keeps_round hstore f).passed.later hlog
    exact ih hlater.grown.log (hlater.reliable hreliable)

/-- Where no operation fails, catching up stops the manager, or it brings it to where the log ended. -/
theorem catchUp_stops_or_ends (hstore : src.store = SharedLog.store)
    (hchunks : 0 < src.config.maxItemsPerBatch) (hlog : f.store.log.Consistent)
    (hreliable : f.store.Reliable) :
    (f.catchUp src).2.target.manager.stopped = true ∨
      (f.catchUp src).2.target.manager.AtEnd f.store.log := by
  cases hanswer : (f.catchUp src).1 with
  | none => exact .inr (catchUp_end hstore hchunks hlog hanswer)
  | some err =>
    refine .inl ?_
    rw [stopped_catchUp, hanswer, ViewDispatchError.leavesStopped_some]
    rintro cause rfl
    exact catchUpFrom_ne_store hstore _ hlog hreliable cause hanswer

/-- So does the loop. -/
theorem Loops.stops_or_ends (h : Loops src rounds f outcome) (hstore : src.store = SharedLog.store)
    (hchunks : 0 < src.config.maxItemsPerBatch) (hlog : f.store.log.Consistent)
    (hreliable : f.store.Reliable) :
    outcome.2.target.manager.stopped = true ∨ outcome.2.target.manager.AtEnd f.store.log := by
  cases hanswer : outcome.1 with
  | none => exact .inr (h.atEnd hstore hchunks hlog hanswer)
  | some err =>
    refine .inl ?_
    rw [h.stopped, hanswer, ViewDispatchError.leavesStopped_some]
    rintro cause rfl
    rw [← h.catchUpFrom_eq (Nat.le_refl rounds)] at hanswer
    exact catchUpFrom_ne_store hstore _ hlog hreliable cause hanswer

end Feeding

end Chronicle
