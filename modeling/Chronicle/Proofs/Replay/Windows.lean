import Chronicle.Proofs.Aggregate.Refusals
import Chronicle.Proofs.Replay.Numbers
import Chronicle.Proofs.Snapshot.Lookups
import Mathlib.Data.List.TakeWhile

namespace Chronicle

/-!
# Replays of histories that may be broken

A store may answer a history with gaps, repetitions, events that cannot be read and errors in between.

* `EventStream.window` — what a replay up to a bound looks at: the items before the first event that
  stands beyond the bound.
* `Root.Absorbs` — events are the next ones of a root, and each of them is taken.
* `Root.Rejects` — what is wrong with an item that comes next, and the error that says so.
* `Root.replayFrom_eq_ok_iff`, `Root.replayFrom_eq_error_iff` — a replay absorbs its window, or it
  fails on the first item that is rejected.
* `Repository.hydrate_window` — so does a load, which starts from a snapshot or from a root without
  history. Only a load that finds a root may put it into the cache.
-/

/-! ### Windows -/

/-- The item is an event that stands beyond a bound, as far as its position can be read. -/
def EventStream.isBeyond (bound : Int) : Except StoreError Event → Bool
  | .error _ => false
  | .ok e =>
    match e.position with
    | .ok position => decide (bound < position)
    | .error _ => false

/-- The items before the first event that stands beyond a bound; all items if there is none. -/
def EventStream.window (bound : Int) (stream : EventStream) : EventStream :=
  stream.takeWhile fun item => !isBeyond bound item

section

variable {bound : Int} {item : Except StoreError Event} {rest : EventStream}

theorem EventStream.window_of_isBeyond (h : isBeyond bound item = true) :
    window bound (item :: rest) = [] := by
  simp [window, h]

theorem EventStream.window_of_within (h : isBeyond bound item = false) :
    window bound (item :: rest) = item :: window bound rest := by
  simp [window, h]

end

namespace Root

variable {S : Type} {T : AggregateType S} {r r' r₁ : Root S} {e : Event} {events : List Event}

/-! ### Events that are taken -/

/-- Events are the next ones of a root and lead to another one: their positions can be read, their
numbers go on from the number of the root without gaps, and the aggregate takes each of them. -/
structure Absorbs (T : AggregateType S) (r : Root S) (events : List Event) (r' : Root S) : Prop where
  /-- The positions can be read. -/
  placed : ∀ e ∈ events, ∃ position, e.position = .ok position
  /-- The numbers go on from the number of the root. -/
  numbered : ∀ (k : Nat) (e : Event), events[k]? = some e → e.sequence = .ok (r.sequence + 1 + k)
  /-- Each event is taken, and the state is what they make of the state. -/
  state : T.replayed? r.state events = some r'.state
  /-- The numbers of the root are those of the last event. -/
  last : ∀ e, events.getLast? = some e →
    e.sequence = .ok r'.sequence ∧ e.position = .ok r'.cutoff
  /-- Without events, the numbers stay the same. -/
  unmoved : events = [] → r'.sequence = r.sequence ∧ r'.cutoff = r.cutoff
  /-- The id stays the same. -/
  id : r'.id = r.id
  /-- The uncommitted events stay the same. -/
  uncommitted : r'.uncommitted = r.uncommitted

/-- An event is rejected as the next one of a root, or the stream breaks off in its place. -/
inductive Rejects (T : AggregateType S) (r : Root S) :
    Except StoreError Event → RepositoryError → Prop where
  /-- There is an error in place of the event. -/
  | broken (err : StoreError) : Rejects T r (.error err) (.store err)
  /-- The position cannot be read. -/
  | unplaced {e : Event} {err : EventError} : e.position = .error err →
      Rejects T r (.ok e) (.invalidEvent err)
  /-- The number cannot be read. -/
  | unnumbered {e : Event} {position : Int} {err : EventError} : e.position = .ok position →
      e.sequence = .error err → Rejects T r (.ok e) (.invalidEvent err)
  /-- The number is not the next one. -/
  | misnumbered {e : Event} {position number : Int} : e.position = .ok position →
      e.sequence = .ok number → number ≠ r.sequence + 1 →
      Rejects T r (.ok e) (.inconsistentHistory r.id (r.sequence + 1) number)
  /-- The aggregate refuses the event. -/
  | refused {e : Event} {position : Int} {err : AppError} : e.position = .ok position →
      e.sequence = .ok (r.sequence + 1) → (T.apply r.state e).2 = some err →
      Rejects T r (.ok e) (.apply r.id position err)

/-- The event is the next one of a root, and the aggregate takes it. -/
def Takes (T : AggregateType S) (r : Root S) (e : Event) (r' : Root S) : Prop :=
  ∃ position, e.position = .ok position ∧ e.sequence = .ok (r.sequence + 1) ∧
    r.replay T e (r.sequence + 1) position = .ok r'

theorem replay_eq_ok_iff {number position : Int} : r.replay T e number position = .ok r' ↔
    (T.apply r.state e).2 = none ∧
      r' = { r with state := (T.apply r.state e).1, sequence := number, cutoff := position } := by
  rw [replay]
  rcases T.apply r.state e with ⟨state, _ | err⟩ <;> simp [eq_comm]

theorem replay_eq_error_iff {number position : Int} {err : AppError} :
    r.replay T e number position = .error err ↔ (T.apply r.state e).2 = some err := by
  rw [replay]
  rcases T.apply r.state e with ⟨state, _ | err'⟩ <;> simp

/-- An item that comes next is rejected, or it is an event that is taken. -/
theorem rejects_or_takes (T : AggregateType S) (r : Root S) (item : Except StoreError Event) :
    (∃ err, r.Rejects T item err) ∨ ∃ e r₁, item = .ok e ∧ r.Takes T e r₁ := by
  rcases item with err | e
  · exact .inl ⟨_, .broken err⟩
  · cases hp : e.position with
    | error err => exact .inl ⟨_, .unplaced hp⟩
    | ok position =>
      cases hs : e.sequence with
      | error err => exact .inl ⟨_, .unnumbered hp hs⟩
      | ok number =>
        by_cases hnext : number = r.sequence + 1
        · subst hnext
          cases hr : r.replay T e (r.sequence + 1) position with
          | error err => exact .inl ⟨_, .refused hp hs (replay_eq_error_iff.1 hr)⟩
          | ok r₁ => exact .inr ⟨e, r₁, rfl, position, hp, hs, hr⟩
        · exact .inl ⟨_, .misnumbered hp hs hnext⟩

/-! ### Events that are taken one after the other -/

theorem absorbs_nil_iff : r.Absorbs T [] r' ↔ r' = r := by
  constructor
  · intro h
    have hstate : r'.state = r.state := (Option.some.inj h.state).symm
    obtain ⟨hsequence, hcutoff⟩ := h.unmoved rfl
    have hid := h.id
    have huncommitted := h.uncommitted
    cases r
    cases r'
    simp_all
  · rintro rfl
    exact ⟨nofun, nofun, rfl, nofun, fun _ => ⟨rfl, rfl⟩, rfl, rfl⟩

/-- The first event is taken, and the others go on from there. -/
theorem absorbs_cons_iff :
    r.Absorbs T (e :: events) r' ↔ ∃ r₁, r.Takes T e r₁ ∧ r₁.Absorbs T events r' := by
  constructor
  · intro h
    obtain ⟨position, hp⟩ := h.placed e List.mem_cons_self
    have hs : e.sequence = .ok (r.sequence + 1) := by simpa using h.numbered 0 e rfl
    have hstate := h.state
    rw [AggregateType.replayed?_cons] at hstate
    split at hstate
    · -- The others are numbered on from the first one.
      rename_i hnone
      refine ⟨_, ⟨position, hp, hs, replay_eq_ok_iff.2 ⟨hnone, rfl⟩⟩, ?_, ?_, hstate, ?_, ?_, h.id,
        h.uncommitted⟩
      · exact fun e' he' => h.placed e' (List.mem_cons_of_mem _ he')
      · intro k e' hk
        rw [h.numbered (k + 1) e' (by simpa using hk)]
        congr 1
        push_cast
        omega
      · intro e' he'
        exact h.last e' (by rw [List.getLast?_cons, he', Option.getD_some])
      · rintro rfl
        obtain ⟨hs', hp'⟩ := h.last e rfl
        exact ⟨Except.ok.inj (hs'.symm.trans hs), Except.ok.inj (hp'.symm.trans hp)⟩
    · cases hstate
  · rintro ⟨r₁, ⟨position, hp, hs, hr⟩, h⟩
    obtain ⟨hnone, rfl⟩ := replay_eq_ok_iff.1 hr
    refine ⟨?_, ?_, ?_, ?_, nofun, h.id, h.uncommitted⟩
    · intro e' he'
      rcases List.mem_cons.1 he' with rfl | he'
      · exact ⟨position, hp⟩
      · exact h.placed e' he'
    · intro k e' hk
      cases k with
      | zero =>
        cases hk
        simpa using hs
      | succ k =>
        rw [h.numbered k e' (by simpa using hk)]
        congr 1
        push_cast
        omega
    · rw [AggregateType.replayed?_cons, if_pos hnone]
      exact h.state
    · intro e' he'
      cases events with
      | nil =>
        rw [List.getLast?_singleton] at he'
        cases he'
        obtain ⟨hsequence, hcutoff⟩ := h.unmoved rfl
        exact ⟨by rw [hs, hsequence], by rw [hp, hcutoff]⟩
      | cons e₁ rest => exact h.last e' (by rwa [List.getLast?_cons_cons] at he')

/-- Each event counts the number of the root on by one. -/
theorem Absorbs.sequence_eq (h : r.Absorbs T events r') :
    r'.sequence = r.sequence + events.length := by
  induction events generalizing r with
  | nil =>
    rw [absorbs_nil_iff.1 h]
    simp
  | cons e rest ih =>
    obtain ⟨r₁, ⟨_, _, _, hr⟩, hrest⟩ := absorbs_cons_iff.1 h
    rw [ih hrest, (replay_eq_ok_iff.1 hr).2, List.length_cons]
    push_cast
    omega

/-! ### The replay of a window -/

/-- All items of a window are events, which are absorbed. -/
def Completes (T : AggregateType S) (r : Root S) (window : EventStream) (events : List Event)
    (r' : Root S) : Prop :=
  window = events.map .ok ∧ r.Absorbs T events r'

/-- The events before some item of a window are absorbed, and the item is rejected. -/
def FailsOn (T : AggregateType S) (r : Root S) (window : EventStream) (err : RepositoryError) : Prop :=
  ∃ before item after r', window = before.map .ok ++ item :: after ∧ r.Absorbs T before r' ∧
    r'.Rejects T item err

variable {window : EventStream} {item : Except StoreError Event} {err : RepositoryError}

theorem completes_nil_iff : r.Completes T [] events r' ↔ events = [] ∧ r' = r := by
  constructor
  · rintro ⟨hwindow, habsorbs⟩
    obtain rfl := List.map_eq_nil_iff.1 hwindow.symm
    exact ⟨rfl, absorbs_nil_iff.1 habsorbs⟩
  · rintro ⟨rfl, rfl⟩
    exact ⟨rfl, absorbs_nil_iff.2 rfl⟩

theorem not_failsOn_nil : ¬ r.FailsOn T [] err := by
  rintro ⟨before, item, after, _, hwindow, _⟩
  cases before <;> cases hwindow

theorem completes_cons_iff : r.Completes T (item :: window) events r' ↔
    ∃ e rest r₁, item = .ok e ∧ events = e :: rest ∧ r.Takes T e r₁ ∧
      r₁.Completes T window rest r' := by
  constructor
  · rintro ⟨hwindow, habsorbs⟩
    cases events with
    | nil => cases hwindow
    | cons e rest =>
      obtain ⟨rfl, hrest⟩ := List.cons.inj hwindow
      obtain ⟨r₁, htakes, h⟩ := absorbs_cons_iff.1 habsorbs
      exact ⟨e, rest, r₁, rfl, rfl, htakes, hrest, h⟩
  · rintro ⟨e, rest, r₁, rfl, rfl, htakes, rfl, h⟩
    exact ⟨rfl, absorbs_cons_iff.2 ⟨r₁, htakes, h⟩⟩

theorem failsOn_cons_iff : r.FailsOn T (item :: window) err ↔
    r.Rejects T item err ∨ ∃ e r₁, item = .ok e ∧ r.Takes T e r₁ ∧ r₁.FailsOn T window err := by
  constructor
  · rintro ⟨before, item', after, r', hwindow, habsorbs, hrejects⟩
    cases before with
    | nil =>
      obtain ⟨rfl, _⟩ := List.cons.inj hwindow
      obtain rfl := absorbs_nil_iff.1 habsorbs
      exact .inl hrejects
    | cons e rest =>
      obtain ⟨rfl, hrest⟩ := List.cons.inj hwindow
      obtain ⟨r₁, htakes, h⟩ := absorbs_cons_iff.1 habsorbs
      exact .inr ⟨e, r₁, rfl, htakes, rest, item', after, r', hrest, h, hrejects⟩
  · rintro (hrejects | ⟨e, r₁, rfl, htakes, before, item', after, r', rfl, habsorbs, hrejects⟩)
    · exact ⟨[], item, window, r, rfl, absorbs_nil_iff.2 rfl, hrejects⟩
    · exact ⟨e :: before, item', after, r', rfl, absorbs_cons_iff.2 ⟨r₁, htakes, habsorbs⟩,
        hrejects⟩

variable {bound : Int} {n : Nat} {rest : EventStream}

/-- A replay ends before an item that stands beyond the bound. -/
theorem replayFrom_of_isBeyond (h : EventStream.isBeyond bound item = true) :
    r.replayFrom T bound n (item :: rest) = .ok (r, n) := by
  rcases item with _ | e
  · cases h
  · rw [EventStream.isBeyond] at h
    rw [replayFrom]
    cases hp : e.position with
    | error err =>
      rw [hp] at h
      cases h
    | ok position =>
      rw [hp] at h
      exact if_pos (of_decide_eq_true h)

/-- A replay fails on an item that is rejected. -/
theorem replayFrom_of_rejects (hwithin : EventStream.isBeyond bound item = false)
    (h : r.Rejects T item err) : r.replayFrom T bound n (item :: rest) = .error err := by
  cases h with
  | broken => rfl
  | unplaced hp => simp only [replayFrom, hp]
  | unnumbered hp hs | misnumbered hp hs =>
    simp_all [replayFrom, EventStream.isBeyond]
  | refused hp hs happly =>
    simp only [EventStream.isBeyond, hp, decide_eq_false_iff_not] at hwithin
    simp only [replayFrom, hp, hs, if_neg hwithin, ne_eq, not_true_eq_false, if_false,
      replay_eq_error_iff.2 happly]

/-- A replay goes on behind an event that is taken. -/
theorem replayFrom_of_takes (hwithin : EventStream.isBeyond bound (.ok e) = false)
    (h : r.Takes T e r₁) :
    r.replayFrom T bound n (.ok e :: rest) = r₁.replayFrom T bound (n + 1) rest := by
  obtain ⟨position, hp, hs, hr⟩ := h
  simp only [EventStream.isBeyond, hp, decide_eq_false_iff_not] at hwithin
  simp only [replayFrom, hp, hs, if_neg hwithin, ne_eq, not_true_eq_false, if_false, hr]

/-- A replay that absorbs its window leads to the root that this makes. -/
theorem replayFrom_of_completes {stream : EventStream}
    (h : r.Completes T (stream.window bound) events r') :
    r.replayFrom T bound n stream = .ok (r', n + events.length) := by
  -- Where the window ends, the root is as it is.
  have hend : ∀ {r : Root S} {n : Nat} {events}, r.Completes T [] events r' →
      (.ok (r, n) : Except RepositoryError (Root S × Nat)) = .ok (r', n + events.length) := by
    intro r n events hcompletes
    obtain ⟨rfl, rfl⟩ := completes_nil_iff.1 hcompletes
    rfl
  induction stream generalizing n r events with
  | nil => exact hend h
  | cons item rest ih =>
    cases hbeyond : EventStream.isBeyond bound item with
    | true =>
      rw [EventStream.window_of_isBeyond hbeyond] at h
      rw [replayFrom_of_isBeyond hbeyond]
      exact hend h
    | false =>
      rw [EventStream.window_of_within hbeyond] at h
      obtain ⟨e, later, r₁, rfl, rfl, htakes, hcompletes⟩ := completes_cons_iff.1 h
      rw [replayFrom_of_takes hbeyond htakes, List.length_cons, Nat.add_comm later.length 1,
        ← Nat.add_assoc]
      exact ih hcompletes

/-- A replay fails on the first item of its window that is rejected. -/
theorem replayFrom_of_failsOn {stream : EventStream} (h : r.FailsOn T (stream.window bound) err) :
    r.replayFrom T bound n stream = .error err := by
  induction stream generalizing n r with
  | nil => exact absurd h not_failsOn_nil
  | cons item rest ih =>
    cases hbeyond : EventStream.isBeyond bound item with
    | true =>
      rw [EventStream.window_of_isBeyond hbeyond] at h
      exact absurd h not_failsOn_nil
    | false =>
      rw [EventStream.window_of_within hbeyond, failsOn_cons_iff] at h
      rcases h with hrejects | ⟨e, r₁, rfl, htakes, hfails⟩
      · exact replayFrom_of_rejects hbeyond hrejects
      · rw [replayFrom_of_takes hbeyond htakes]
        exact ih hfails

/-- A window is absorbed, or one of its items is the first that is rejected. -/
theorem completes_or_failsOn (T : AggregateType S) (r : Root S) (window : EventStream) :
    (∃ events r', r.Completes T window events r') ∨ ∃ err, r.FailsOn T window err := by
  induction window generalizing r with
  | nil => exact .inl ⟨[], r, completes_nil_iff.2 ⟨rfl, rfl⟩⟩
  | cons item rest ih =>
    rcases r.rejects_or_takes T item with ⟨err, hrejects⟩ | ⟨e, r₁, rfl, htakes⟩
    · exact .inr ⟨err, failsOn_cons_iff.2 (.inl hrejects)⟩
    · rcases ih r₁ with ⟨events, r', hcompletes⟩ | ⟨err, hfails⟩
      · exact .inl ⟨e :: events, r', completes_cons_iff.2 ⟨e, events, r₁, rfl, rfl, htakes, hcompletes⟩⟩
      · exact .inr ⟨err, failsOn_cons_iff.2 (.inr ⟨e, r₁, rfl, htakes, hfails⟩)⟩

/-- A replay up to a bound succeeds exactly if it absorbs its window. -/
theorem replayFrom_eq_ok_iff {stream : EventStream} {n' : Nat} :
    r.replayFrom T bound n stream = .ok (r', n') ↔
      ∃ events, r.Completes T (stream.window bound) events r' ∧ n' = n + events.length := by
  constructor
  · intro h
    rcases r.completes_or_failsOn T (stream.window bound) with ⟨events, r₁, hcompletes⟩ | ⟨err, hfails⟩
    · cases (replayFrom_of_completes hcompletes).symm.trans h
      exact ⟨events, hcompletes, rfl⟩
    · cases (replayFrom_of_failsOn hfails).symm.trans h
  · rintro ⟨events, hcompletes, rfl⟩
    exact replayFrom_of_completes hcompletes

/-- It fails exactly if an item of its window is the first that is rejected, with the error that says
why. -/
theorem replayFrom_eq_error_iff {stream : EventStream} :
    r.replayFrom T bound n stream = .error err ↔ r.FailsOn T (stream.window bound) err := by
  refine ⟨fun h => ?_, replayFrom_of_failsOn⟩
  rcases r.completes_or_failsOn T (stream.window bound) with ⟨events, r₁, hcompletes⟩ | ⟨err', hfails⟩
  · cases (replayFrom_of_completes hcompletes).symm.trans h
  · cases (replayFrom_of_failsOn hfails).symm.trans h
    exact hfails

end Root

/-- No position is beyond the greatest word, so nothing is left out up to there. -/
theorem EventStream.window_latest (stream : EventStream) :
    stream.window Repository.latest = stream := by
  rw [window, List.takeWhile_eq_self_iff]
  intro item _
  rcases item with _ | e
  · rfl
  · rw [isBeyond]
    cases hp : e.position with
    | error err => rfl
    | ok position =>
      -- What was read as a position is a word.
      obtain ⟨value, _, hread⟩ := (Event.readAs_eq_ok_iff _ _ _ _).1 hp
      have hfits := of_decide_eq_true (Option.filter_eq_some_iff.1 hread).2
      have hnot : ¬ Repository.latest < position := Int.not_lt.2 hfits.2
      simp [hnot]

/-! ### Snapshots have history -/

/-- Every snapshot is that of a root with history. -/
def SnapshotCache.Historied (c : SnapshotCache) : Prop :=
  ∀ id cutoff s, c.kept? id cutoff = some s → Root.noNumber < s.sequence

section

variable {κ : Type} {S : κ → Type} {types : ∀ k, AggregateType (S k)}

/-- A call puts in roots with history only. -/
theorem CacheCall.historied_run {c : SnapshotCache} (hc : c.Settled) (h : c.Historied)
    (clock : Nat → Instant) (call : CacheCall S) : (call.run types clock c).Historied := by
  intro id cutoff s hs
  rcases CacheCall.kept_run hc hs with ⟨s₀, hs₀, hsame⟩ | ⟨hnone, kind, root, rfl, rfl, rfl, hroot⟩
  · rw [hsame.sequence]
    exact h id cutoff s₀ hs₀
  · rw [(Snapshot.ofRoot?_eq_some hroot).2.1]
    by_contra hhistory
    -- A root without history would not have been put in.
    have haccept : c.accept (types kind) root (clock 0) = none := by
      rw [SnapshotCache.accept, if_pos (by simp [Root.hasHistory, hhistory])]
    rw [run, SnapshotCache.putAt, haccept, hnone] at hs
    cases hs

theorem TimedCall.historied_runAll {c : SnapshotCache} (hc : c.Settled) (h : c.Historied)
    (calls : List (TimedCall S)) : (runAll types calls c).Historied := by
  induction calls generalizing c with
  | nil => exact h
  | cons t rest ih =>
    exact ih (CacheCall.settled_run hc t.clock t.call)
      (CacheCall.historied_run hc h t.clock t.call)

end

/-! ### Loads -/

namespace Repository

variable {σ S : Type} {T : AggregateType S} {id : String} {bound : Int} {b : Backing σ}

/-- A replay starts from what a lookup finds, or from a root without history. -/
theorem startingPoint_eq (T : AggregateType S) (id : String) (bound : Int) (b : Backing σ) :
    startingPoint T id bound b
      = (((b.cache.lookup T id bound b.now).1).getD (Root.new T id),
        { b with cache := (b.cache.lookup T id bound b.now).2 }) := by
  unfold startingPoint
  rcases b.cache.lookup T id bound b.now with ⟨_ | root, cache⟩ <;> rfl

/-- What a lookup finds has history, if all snapshots have. -/
theorem hasHistory_of_lookup (h : b.cache.Historied) {root : Root S}
    (hroot : (b.cache.lookup T id bound b.now).1 = some root) : Root.noNumber < root.sequence := by
  rcases SnapshotCache.lookup_cases T id bound b.now b.cache with
    hnone | ⟨cutoff, s, root', hs, _, hread, hfound⟩
  · rw [hnone] at hroot
    cases hroot
  · rw [hfound] at hroot
    cases hroot
    unfold Snapshot.toRoot? at hread
    split at hread
    · obtain ⟨_, _, rfl⟩ := Option.map_eq_some_iff.1 hread
      exact h id cutoff s (SnapshotCache.kept?_eq_some_iff.2 hs)
    · cases hread

/-- What a load starts from: what a lookup finds, or a root without history. -/
def start (T : AggregateType S) (id : String) (bound : Int) (b : Backing σ) : Root S :=
  (b.cache.lookup T id bound b.now).1.getD (Root.new T id)

/-- Without history there has been neither a snapshot nor an event: a snapshot has history, and so has
every root that an event was added to. -/
theorem hasHistory_eq_false_iff (hcache : b.cache.Historied) {events : List Event} {root : Root S}
    (h : (start T id bound b).Absorbs T events root) :
    root.hasHistory = false ↔ events = [] ∧ (b.cache.lookup T id bound b.now).1 = none := by
  have hsequence := h.sequence_eq
  rw [Root.hasHistory, decide_eq_false_iff_not, Root.noNumber, hsequence, ← List.length_eq_zero_iff,
    start]
  cases hsnapshot : (b.cache.lookup T id bound b.now).1 with
  | none =>
    simp only [Option.getD_none, Root.sequence_new, and_true]
    omega
  | some snapshot =>
    have hlt := hasHistory_of_lookup hcache hsnapshot
    rw [Root.noNumber] at hlt
    simp only [Option.getD_some, reduceCtorEq, and_false, iff_false]
    omega

/-- What a load answers after a replay: the root, if it has history. -/
def answerOf (replayed : Except RepositoryError (Root S × Nat)) :
    Except RepositoryError (Option (Root S)) :=
  replayed.map fun r => if r.1.hasHistory then some r.1 else none

section

variable {replayed : Except RepositoryError (Root S × Nat)} {root : Root S}

theorem answerOf_eq_root_iff : answerOf replayed = .ok (some root) ↔
    root.hasHistory = true ∧ ∃ n, replayed = .ok (root, n) := by
  rcases replayed with err | ⟨r, n⟩
  · simp [answerOf, Except.map]
  · by_cases hr : r.hasHistory = true
    · simp only [answerOf, Except.map, hr, if_true, Except.ok.injEq, Option.some.injEq, Prod.mk.injEq]
      exact ⟨fun h => ⟨h ▸ hr, n, h, rfl⟩, fun ⟨_, _, h, _⟩ => h⟩
    · simp only [answerOf, Except.map, hr, if_false, Except.ok.injEq, Prod.mk.injEq, reduceCtorEq,
        false_iff]
      rintro ⟨hroot, _, rfl, _⟩
      exact hr hroot

theorem answerOf_eq_none_iff : answerOf replayed = .ok none ↔
    ∃ root n, replayed = .ok (root, n) ∧ root.hasHistory = false := by
  rcases replayed with err | ⟨r, n⟩
  · simp [answerOf, Except.map]
  · cases hr : r.hasHistory <;> simp [answerOf, Except.map, hr]

theorem answerOf_eq_error_iff {err : RepositoryError} :
    answerOf replayed = .error err ↔ replayed = .error err := by
  rcases replayed with err' | ⟨r, n⟩ <;> simp [answerOf, Except.map]

end

/-- A load answers what the replay of the answered history leads to. Unless that is a root, the cache
is as the lookup leaves it. -/
theorem hydrate_of_load {repo : Repository σ} {stream : EventStream} {store : σ}
    (hload : repo.store.load id ((start T id bound b).sequence + 1) b.store = (.ok stream, store)) :
    (repo.hydrate T id bound b).1 = answerOf ((start T id bound b).replayFrom T bound 0 stream) ∧
    ((∀ root, (repo.hydrate T id bound b).1 ≠ .ok (some root)) → (repo.hydrate T id bound b).2
      = { b with store, cache := (b.cache.lookup T id bound b.now).2 }) := by
  unfold hydrate
  rw [startingPoint_eq]
  unfold start at hload ⊢
  simp only [hload]
  rcases Root.replayFrom T bound 0 _ stream with err | ⟨root, n⟩
  · exact ⟨rfl, fun _ => rfl⟩
  · simp only [answerOf, Except.map]
    split
    · exact ⟨rfl, fun h => absurd rfl (h root)⟩
    · exact ⟨rfl, fun _ => rfl⟩

/-- **A broken history is never accepted.** Take a repository over any store, whatever history this
answers, and a snapshot cache after any calls. `tryGetAt` finds a root up to a bound exactly if all items
before the first event beyond the bound (`EventStream.window`) are events that the starting point
`Absorbs`, and the root has history then. It finds that there is none exactly if there are no items before
the bound and no snapshot. It fails exactly if one of the items is rejected (`Root.Rejects`) while the ones
before it are absorbed, with the error that says why. Only a load that finds a root puts anything into the
cache. `tryGet` is the case of the bound `latest`. -/
theorem hydrate_window {κ : Type} {S' : κ → Type} {types : ∀ k, AggregateType (S' k)} {limit : Nat}
    {calls : List (TimedCall S')}
    (hcache : b.cache = TimedCall.runAll types calls (SnapshotCache.new limit))
    (repo : Repository σ) {stream : EventStream} {store : σ}
    (hload : repo.store.load id ((start T id bound b).sequence + 1) b.store = (.ok stream, store)) :
    let snapshot := (b.cache.lookup T id bound b.now).1
    let start := snapshot.getD (Root.new T id)
    let window := stream.window bound
    let found := repo.tryGetAt T id bound b
    (∀ root, found.1 = .ok (some root) ↔
      root.hasHistory = true ∧ ∃ events, window = events.map .ok ∧ start.Absorbs T events root) ∧
    (found.1 = .ok none ↔ window = [] ∧ snapshot = none) ∧
    (∀ err, found.1 = .error err ↔ ∃ before item after root,
      window = before.map .ok ++ item :: after ∧ start.Absorbs T before root ∧
        root.Rejects T item err) ∧
    ((∀ root, found.1 ≠ .ok (some root)) →
      found.2 = { b with store, cache := (b.cache.lookup T id bound b.now).2 }) ∧
    (bound = latest → window = stream ∧ repo.tryGet T id b = found) := by
  intro snapshot start window found
  have hhistoried : b.cache.Historied := by
    rw [hcache]
    exact TimedCall.historied_runAll (SnapshotCache.settled_new limit) nofun calls
  obtain ⟨hanswer, hcacheAfter⟩ := hydrate_of_load hload
  -- Without history, the window is as empty as the cache.
  have hwithout : ∀ events root, start.Completes T window events root →
      (root.hasHistory = false ↔ window = [] ∧ snapshot = none) := by
    rintro events root ⟨hwindow, habsorbs⟩
    rw [hwindow, List.map_eq_nil_iff]
    exact hasHistory_eq_false_iff hhistoried habsorbs
  refine ⟨fun root => ?root, ?none, fun err => ?error, hcacheAfter, ?latest⟩
  case root =>
    have hreplay : (∃ n, start.replayFrom T bound 0 stream = .ok (root, n)) ↔
        ∃ events, start.Completes T window events root := by
      constructor
      · rintro ⟨n, h⟩
        obtain ⟨events, hcompletes, _⟩ := Root.replayFrom_eq_ok_iff.1 h
        exact ⟨events, hcompletes⟩
      · rintro ⟨events, hcompletes⟩
        exact ⟨_, Root.replayFrom_of_completes hcompletes⟩
    show (repo.hydrate T id bound b).1 = _ ↔ _
    rw [hanswer, answerOf_eq_root_iff]
    exact and_congr_right fun _ => hreplay
  case none =>
    show (repo.hydrate T id bound b).1 = _ ↔ _
    rw [hanswer, answerOf_eq_none_iff]
    constructor
    · rintro ⟨root, n, h, hhistory⟩
      obtain ⟨events, hcompletes, _⟩ := Root.replayFrom_eq_ok_iff.1 h
      exact (hwithout events root hcompletes).1 hhistory
    · intro h
      have hcompletes : start.Completes T window [] start := ⟨h.1, Root.absorbs_nil_iff.2 rfl⟩
      exact ⟨start, _, Root.replayFrom_of_completes hcompletes, (hwithout [] start hcompletes).2 h⟩
  case error =>
    show (repo.hydrate T id bound b).1 = _ ↔ _
    rw [hanswer, answerOf_eq_error_iff]
    exact Root.replayFrom_eq_error_iff
  case latest =>
    rintro rfl
    exact ⟨EventStream.window_latest stream, rfl⟩

end Repository

/-- The mode of a brittle aggregate is set, with numbers. -/
def Sample.setModeAt (mode : String) (sequence position : Int) : Event :=
  ((Sample.setMode mode).withMetadata Metadata.Key.sequence (toString sequence)).withMetadata
    Metadata.Key.position (toString position)

/-- Puts a root with one event into the cache. -/
def Sample.keepOpen : List (TimedCall fun _ : Sample.Kind => Sample.State) :=
  [⟨fun _ => ⟨0, 0⟩, .put .brittle ⟨"a", 0, 3, [], .brittle "open"⟩⟩]

/-- A history leaves out a number, and there is a snapshot of its first event. -/
def Sample.gap : Backing ScriptedStore where
  store := ⟨Log.empty, ⟨none, 0, [], none, some [Sample.setModeAt "open" 0 3,
    Sample.setModeAt "busy" 1 7, Sample.setModeAt "open" 3 9], none, none, none, none, 0⟩, []⟩
  cache := TimedCall.runAll Sample.aggregateType Sample.keepOpen (SnapshotCache.new 10)
  now := ⟨0, 0⟩

/-- Before the gap a root is found, which continues the snapshot, and behind it a load fails. -/
theorem Repository.hydrate_window_gap :
    let T := Sample.aggregateType .brittle
    let repo : Repository ScriptedStore := ⟨ScriptedStore.store, 0⟩
    let stream : EventStream := [.ok (Sample.setModeAt "busy" 1 7), .ok (Sample.setModeAt "open" 3 9)]
    let start : Root Sample.State := ⟨"a", 0, 3, [], .brittle "open"⟩
    let root : Root Sample.State := ⟨"a", 1, 7, [], .brittle "busy"⟩
    (repo.tryGetAt T "a" 8 Sample.gap).1 = .ok (some root) ∧
    (∃ events, stream.window 8 = events.map .ok ∧ start.Absorbs T events root) ∧
    (repo.tryGet T "a" Sample.gap).1 = .error (.inconsistentHistory "a" 2 3) ∧
    ∃ before item after root, stream = before.map .ok ++ item :: after ∧
      start.Absorbs T before root ∧ root.Rejects T item (.inconsistentHistory "a" 2 3) := by
  intro T repo stream start root
  have hfound : (repo.tryGetAt T "a" 8 Sample.gap).1 = .ok (some root) := by rfl
  have hfailed : (repo.tryGet T "a" Sample.gap).1 = .error (.inconsistentHistory "a" 2 3) := by rfl
  have hcache : Sample.gap.cache
      = TimedCall.runAll Sample.aggregateType Sample.keepOpen (SnapshotCache.new 10) := rfl
  -- The snapshot is cut below both bounds.
  have hstart : Repository.start T "a" 8 Sample.gap = start := by rfl
  have hstart' : Repository.start T "a" Repository.latest Sample.gap = start := by rfl
  have hload : repo.store.load "a" (start.sequence + 1) Sample.gap.store
      = (.ok stream, Sample.gap.store) := by rfl
  obtain ⟨habsorbs, _⟩ := Repository.hydrate_window hcache repo (hstart.symm ▸ hload)
  obtain ⟨_, _, hrejects, _⟩ := Repository.hydrate_window hcache repo (hstart'.symm ▸ hload)
  refine ⟨hfound, ?_, hfailed, ?_⟩
  · obtain ⟨_, h⟩ := (habsorbs root).1 hfound
    rwa [← Repository.start, hstart] at h
  · have h := (hrejects _).1 hfailed
    rwa [← Repository.start, hstart', EventStream.window_latest] at h

end Chronicle
