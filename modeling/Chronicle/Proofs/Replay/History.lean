import Chronicle.Proofs.Log.Runs
import Chronicle.Repository

namespace Chronicle

/-!
# Replaying the history of a root

* `Root.ofHistory` — a root as its events make it, one after the other, from the initial state.
* `Log.replay` — the root as the events up to a position make it. It looks at the log only.
* `Event.InOrder` — the events of one root, numbered from a number on, at increasing positions.
* `Root.replayFrom_eq` — the replay of a repository, with all its checks, applies exactly the events
  up to the bound if the events are in order.
* `Event.InOrder.filter_upTo` — the events up to a position begin with those up to an earlier one.
-/

/-! ### Roots made by events -/

/-- The event stands at or before a position. -/
def Event.upTo (bound : Int) (e : Event) : Bool :=
  match e.position with
  | .ok position => decide (position ≤ bound)
  | .error _ => false

theorem Event.upTo_eq_decide {e : Event} {position : Int} (h : e.position = .ok position)
    (bound : Int) : e.upTo bound = decide (position ≤ bound) := by
  rw [upTo, h]

namespace Root

variable {S : Type}

/-- Apply the next event of the root's history. -/
def advance (T : AggregateType S) (r : Root S) (e : Event) : Except RepositoryError (Root S) :=
  match e.position with
  | .error err => .error (.invalidEvent err)
  | .ok position =>
    match r.replay T e (r.sequence + 1) position with
    | .error err => .error (.apply r.id position err)
    | .ok r => .ok r

/-- The root that events make of the initial state. -/
def ofHistory (T : AggregateType S) (id : String) (events : List Event) :
    Except RepositoryError (Root S) :=
  events.foldlM (advance T) (new T id)

end Root

/-- The root as the events up to a position make it; `none` if there are no such events. -/
def Log.replay {S : Type} (T : AggregateType S) (id : String) (bound : Int) (log : Log) :
    Except RepositoryError (Option (Root S)) :=
  match (log.history id).filter (Event.upTo bound) with
  | [] => .ok none
  | events => (Root.ofHistory T id events).map some

/-! ### Events in order -/

/-- Events of one root, numbered from a number on, at increasing positions. -/
def Event.InOrder : Int → List Event → Prop
  | _, [] => True
  | first, e :: rest => ∃ position, e.position = .ok position ∧ e.sequence = .ok first ∧
      (∀ e' ∈ rest, ∃ later, e'.position = .ok later ∧ position < later) ∧
      InOrder (first + 1) rest

namespace Event.InOrder

theorem of_getElem? {first : Int} {events : List Event}
    (hsequence : ∀ (k : Nat) (e : Event), events[k]? = some e → e.sequence = .ok (first + k))
    (hposition : ∀ e ∈ events, ∃ p, e.position = .ok p)
    (hpairwise : events.Pairwise fun a b =>
      ∃ p q : Int, a.position = .ok p ∧ b.position = .ok q ∧ p < q) :
    InOrder first events := by
  induction events generalizing first with
  | nil => trivial
  | cons e rest ih =>
    obtain ⟨position, hp⟩ := hposition e List.mem_cons_self
    rw [List.pairwise_cons] at hpairwise
    refine ⟨position, hp, by simpa using hsequence 0 e rfl, fun e' he' => ?_, ih ?_ ?_ hpairwise.2⟩
    · obtain ⟨p, q, hp', hq, hlt⟩ := hpairwise.1 e' he'
      have heq : p = position := Except.ok.inj (hp'.symm.trans hp)
      exact ⟨q, hq, heq ▸ hlt⟩
    · intro k e' hk
      rw [hsequence (k + 1) e' (by simpa using hk)]
      congr 1
      push_cast
      omega
    · exact fun e' he' => hposition e' (List.mem_cons_of_mem _ he')

/-- Without the first events, the numbers start later. -/
theorem drop {first : Int} {events : List Event} (h : InOrder first events) (n : Nat)
    (hn : n ≤ events.length) : InOrder (first + n) (events.drop n) := by
  induction n generalizing first events with
  | zero => simpa using h
  | succ n ih =>
    cases events with
    | nil => simp at hn
    | cons e rest =>
      obtain ⟨_, _, _, _, hrest⟩ := h
      have hfirst : first + ((n + 1 : Nat) : Int) = first + 1 + n := by omega
      rw [hfirst, List.drop_succ_cons]
      exact ih hrest (by simpa using hn)

/-- Once an event is beyond a bound, so is every later one. -/
theorem filter_eq_nil {first bound position : Int} {e : Event} {rest : List Event}
    (h : InOrder first (e :: rest)) (hp : e.position = .ok position) (hlt : bound < position) :
    (e :: rest).filter (Event.upTo bound) = [] := by
  obtain ⟨position', hp', _, hlater, _⟩ := h
  have heq : position' = position := Except.ok.inj (hp'.symm.trans hp)
  rw [List.filter_eq_nil_iff]
  intro e' he'
  rcases List.mem_cons.1 he' with rfl | he'
  · rw [upTo_eq_decide hp]
    simpa using hlt
  · obtain ⟨q, hq, hpq⟩ := hlater e' he'
    rw [upTo_eq_decide hq, decide_eq_true_eq]
    omega

/-- The events up to a position begin with the events up to an earlier one. -/
theorem filter_upTo {first cutoff bound : Int} {events : List Event} (h : InOrder first events)
    (hle : cutoff ≤ bound) :
    events.filter (Event.upTo bound) = events.filter (Event.upTo cutoff)
      ++ (events.drop (events.filter (Event.upTo cutoff)).length).filter (Event.upTo bound) := by
  induction events generalizing first with
  | nil => rfl
  | cons e rest ih =>
    have horder := h
    obtain ⟨position, hp, hs, hlater, hrest⟩ := h
    -- Before the cutoff both sides take the event; behind it, the cutoff has taken all it can.
    by_cases hc : position ≤ cutoff
    · have hcut : e.upTo cutoff = true := by simpa [upTo_eq_decide hp] using hc
      have hbound : e.upTo bound = true := by simpa [upTo_eq_decide hp] using Int.le_trans hc hle
      rw [List.filter_cons_of_pos hcut, List.filter_cons_of_pos hbound, List.length_cons,
        List.drop_succ_cons, List.cons_append, ← ih hrest]
    · have hnil : (e :: rest).filter (Event.upTo cutoff) = [] := horder.filter_eq_nil hp (by omega)
      rw [hnil, List.length_nil, List.drop_zero, List.nil_append]

/-- The events up to a bound are the events up to the last one of them. -/
theorem filter_upTo_last {first bound position : Int} {events : List Event} {last : Event}
    (h : InOrder first events) (hlast : (events.filter (Event.upTo bound)).getLast? = some last)
    (hp : last.position = .ok position) :
    events.filter (Event.upTo position) = events.filter (Event.upTo bound) := by
  induction events generalizing first with
  | nil => rfl
  | cons e rest ih =>
    have horder := h
    obtain ⟨start, hstart, hs, hlater, hrest⟩ := h
    by_cases hb : start ≤ bound
    · have hbound : e.upTo bound = true := by simpa [upTo_eq_decide hstart] using hb
      rw [List.filter_cons_of_pos hbound] at hlast ⊢
      cases hnil : rest.filter (Event.upTo bound) with
      | nil =>
        -- The first event is the only one up to the bound, and the others come after it.
        rw [hnil] at hlast
        cases hlast
        have heq : start = position := Except.ok.inj (hstart.symm.trans hp)
        have hposition : e.upTo position = true := by simp [upTo_eq_decide hstart, heq]
        have hrestnil : rest.filter (Event.upTo position) = [] := by
          rw [List.filter_eq_nil_iff]
          intro e' he'
          obtain ⟨q, hq, hlt⟩ := hlater e' he'
          rw [upTo_eq_decide hq, decide_eq_true_eq]
          omega
        rw [List.filter_cons_of_pos hposition, hrestnil]
      | cons e₁ rest₁ =>
        -- The last event is one of the others, so the first one stands before it.
        rw [hnil, List.getLast?_cons_cons, ← hnil] at hlast
        have hmem : last ∈ rest := (List.mem_filter.1 (List.mem_of_getLast? hlast)).1
        obtain ⟨q, hq, hlt⟩ := hlater last hmem
        have heq : q = position := Except.ok.inj (hq.symm.trans hp)
        have hposition : e.upTo position = true := by
          rw [upTo_eq_decide hstart, decide_eq_true_eq]
          omega
        rw [List.filter_cons_of_pos hposition, ih hrest hlast, hnil]
    · have hempty : (e :: rest).filter (Event.upTo bound) = [] :=
        horder.filter_eq_nil hstart (by omega)
      rw [hempty] at hlast
      cases hlast

end Event.InOrder

/-! ### The replay of a repository -/

namespace Root

variable {S : Type} {T : AggregateType S}

/-- What an event that is applied does to the numbers of a root. -/
theorem advance_eq_ok {r r' : Root S} {e : Event} (h : r.advance T e = .ok r') :
    r'.id = r.id ∧ r'.sequence = r.sequence + 1 ∧ e.position = .ok r'.cutoff ∧
      r'.uncommitted = r.uncommitted := by
  unfold advance at h
  split at h
  · cases h
  · rename_i position hp
    unfold replay at h
    split at h
    · cases h
    · rename_i hr
      cases h
      split at hr
      · cases hr
        exact ⟨rfl, rfl, hp, rfl⟩
      · cases hr

/-- What events that are applied do to the numbers of a root. -/
theorem foldlM_advance_eq_ok {events : List Event} {r r' : Root S}
    (h : events.foldlM (advance T) r = .ok r') :
    r'.id = r.id ∧ r'.sequence = r.sequence + events.length ∧ r'.uncommitted = r.uncommitted ∧
      ∀ last, events.getLast? = some last → last.position = .ok r'.cutoff := by
  induction events generalizing r with
  | nil =>
    cases h
    exact ⟨rfl, by simp, rfl, by simp⟩
  | cons e rest ih =>
    rw [List.foldlM_cons] at h
    cases hr : r.advance T e with
    | error err =>
      rw [hr] at h
      cases h
    | ok r₁ =>
      rw [hr] at h
      obtain ⟨hid, hsequence, hcutoff, huncommitted⟩ := advance_eq_ok hr
      obtain ⟨hid', hsequence', huncommitted', hcutoff'⟩ := ih h
      refine ⟨hid'.trans hid, ?_, huncommitted'.trans huncommitted, fun last hlast => ?_⟩
      · rw [hsequence', hsequence, List.length_cons]
        omega
      · cases rest with
        | nil =>
          cases h
          cases hlast
          exact hcutoff
        | cons e' rest' => exact hcutoff' last hlast

/-- The replay of a repository applies exactly the events up to the bound, if they are in order: its
checks never fail. -/
theorem replayFrom_eq {bound : Int} {n : Nat} {r : Root S} {events : List Event}
    (h : Event.InOrder (r.sequence + 1) events) :
    r.replayFrom T bound n (events.map .ok)
      = ((events.filter (Event.upTo bound)).foldlM (advance T) r).map fun r' =>
          (r', n + (events.filter (Event.upTo bound)).length) := by
  induction events generalizing r n with
  | nil => rfl
  | cons e rest ih =>
    have horder := h
    obtain ⟨position, hp, hsequence, hlater, hrest⟩ := h
    by_cases hle : position ≤ bound
    · have hup : e.upTo bound = true := by simpa [Event.upTo_eq_decide hp] using hle
      -- The number is the one that is expected, so the event is applied.
      have hnot : ¬ bound < position := by omega
      rw [List.filter_cons_of_pos hup, List.foldlM_cons, List.map_cons, replayFrom]
      simp only [hp, hsequence, hnot, if_false, ne_eq, not_true_eq_false, advance]
      cases hr : r.replay T e (r.sequence + 1) position with
      | error err => rfl
      | ok r₁ =>
        have hadvance : r.advance T e = .ok r₁ := by simp only [advance, hp, hr]
        have hnext : r₁.sequence = r.sequence + 1 := (advance_eq_ok hadvance).2.1
        have hlength : n + (e :: rest.filter (Event.upTo bound)).length
            = n + 1 + (rest.filter (Event.upTo bound)).length := by
          rw [List.length_cons]
          omega
        rw [hlength]
        exact ih (by rwa [hnext])
    · have hnil : (e :: rest).filter (Event.upTo bound) = [] := horder.filter_eq_nil hp (by omega)
      have hlt : bound < position := by omega
      rw [hnil, List.map_cons, replayFrom]
      simp only [hp, hlt, if_true]
      rfl

/-- If the events break off, a replay has not needed the ones that are missing, or it says that it
has met the error. -/
theorem replayFrom_broken (bound : Int) (n : Nat) (r : Root S) (events later : EventStream)
    (err : StoreError) :
    r.replayFrom T bound n (events ++ [.error err]) = r.replayFrom T bound n (events ++ later) ∨
      r.replayFrom T bound n (events ++ [.error err]) = .error (.store err) := by
  induction events generalizing r n with
  | nil => exact .inr rfl
  | cons item rest ih =>
    cases item with
    | error err' => exact .inl rfl
    | ok e =>
      simp only [List.cons_append, replayFrom]
      -- Both replays do the same at this event.
      cases e.position with
      | error err' => exact .inl rfl
      | ok position =>
        simp only
        split
        · exact .inl rfl
        · cases e.sequence with
          | error err' => exact .inl rfl
          | ok sequence =>
            simp only
            split
            · exact .inl rfl
            · cases r.replay T e sequence position with
              | error err' => exact .inl rfl
              | ok r' => exact ih _ _

end Root

/-! ### Replaying from the start -/

namespace Root

variable {S : Type} {T : AggregateType S} {id : String} {events : List Event} {r : Root S}

/-- The numbers of a root that events make. -/
theorem ofHistory_eq_ok (h : ofHistory T id events = .ok r) :
    r.id = id ∧ r.sequence = events.length - 1 ∧ r.uncommitted = [] ∧
      ∀ last, events.getLast? = some last → last.position = .ok r.cutoff := by
  obtain ⟨hid, hsequence, huncommitted, hcutoff⟩ := foldlM_advance_eq_ok h
  refine ⟨hid, ?_, huncommitted, hcutoff⟩
  rw [hsequence, sequence_new]
  omega

/-- A root has history if some event made it. -/
theorem hasHistory_ofHistory (h : ofHistory T id events = .ok r) :
    r.hasHistory = !events.isEmpty := by
  rw [hasHistory, (ofHistory_eq_ok h).2.1]
  cases events with
  | nil => rfl
  | cons e rest =>
    have hlt : noNumber < ((e :: rest).length : Int) - 1 := by
      simp only [noNumber, List.length_cons]
      omega
    simp only [hlt, decide_true, List.isEmpty_cons, Bool.not_false]

/-- Events can be replayed in two parts. -/
theorem ofHistory_append (events later : List Event) :
    ofHistory T id (events ++ later) = ofHistory T id events >>= later.foldlM (advance T) :=
  List.foldlM_append

end Root

/-- The replay of a log, with the absence of a root read off the root. -/
theorem Log.replay_eq {S : Type} (T : AggregateType S) (id : String) (bound : Int) (log : Log) :
    log.replay T id bound
      = (Root.ofHistory T id ((log.history id).filter (Event.upTo bound))).map fun r =>
          if r.hasHistory then some r else none := by
  unfold replay
  generalize (log.history id).filter (Event.upTo bound) = events
  cases h : Root.ofHistory T id events with
  | error err =>
    cases events with
    | nil => cases h
    | cons e rest =>
      show (Root.ofHistory T id (e :: rest)).map some = _
      rw [h]
      rfl
  | ok r =>
    have hhistory := Root.hasHistory_ofHistory h
    cases events with
    | nil =>
      cases h
      rfl
    | cons e rest =>
      simp only [List.isEmpty_cons, Bool.not_false] at hhistory
      show (Root.ofHistory T id (e :: rest)).map some = _
      rw [h]
      simp only [Except.map, hhistory, if_true]

/-- A root that a replay of a log answers is made by the history up to the bound. -/
theorem Log.ofHistory_of_replay {S : Type} {T : AggregateType S} {id : String} {bound : Int} {log : Log}
    {r : Root S} (h : log.replay T id bound = .ok (some r)) :
    Root.ofHistory T id ((log.history id).filter (Event.upTo bound)) = .ok r := by
  unfold replay at h
  split at h
  · cases h
  · cases hmade : Root.ofHistory T id ((log.history id).filter (Event.upTo bound)) with
    | error err => simp [hmade, Except.map] at h
    | ok made => simpa [hmade, Except.map] using h

namespace Log.Consistent

variable {log log' : Log}

/-- The history of a root is in order. -/
theorem inOrder (hlog : log.Consistent) (root : String) : Event.InOrder 0 (log.history root) := by
  refine Event.InOrder.of_getElem? (fun k e hk => ?_) (fun e he => ?_) ?_
  · rw [hlog.sequence hk, Int.zero_add]
  · obtain ⟨i, hi, rfl⟩ := List.getElem_of_mem (Log.mem_history.1 he).1
    exact ⟨i, hlog.position (List.getElem?_eq_getElem hi)⟩
  · exact hlog.position_lt.sublist List.filter_sublist

/-- An event of the log stands before its end. -/
theorem position_lt_size (hlog : log.Consistent) {e : Event} (he : e ∈ log.events) {position : Int}
    (hp : e.position = .ok position) : position < log.size := by
  obtain ⟨i, hi, rfl⟩ := List.getElem_of_mem he
  have hpi := hlog.position (List.getElem?_eq_getElem hi)
  have heq : position = i := Except.ok.inj (hp.symm.trans hpi)
  rw [heq]
  exact_mod_cast hi

/-- Later events do not change what happened up to a position that the log has reached. -/
theorem filter_upTo_extends (hlog' : log'.Consistent) (hext : log.Extends log') {cutoff : Int}
    (hcutoff : cutoff < log.size) (root : String) :
    (log'.history root).filter (Event.upTo cutoff)
      = (log.history root).filter (Event.upTo cutoff) := by
  obtain ⟨events, hevents⟩ := hext
  -- Every later event stands behind the end of the old log.
  have hlater : (events.filter (Event.isOf root)).filter (Event.upTo cutoff) = [] := by
    rw [List.filter_eq_nil_iff]
    intro e he
    obtain ⟨k, hk, rfl⟩ := List.getElem_of_mem (List.mem_filter.1 he).1
    have hp : (events[k]).position = .ok ((log.size + k : Nat) : Int) := by
      apply hlog'.position
      rw [← hevents, size, List.getElem?_append_right (Nat.le_add_right _ _)]
      simp
    rw [Event.upTo_eq_decide hp, decide_eq_true_eq]
    omega
  rw [history_of_append hevents.symm, List.filter_append, hlater, List.append_nil]

/-- No position of a log is beyond the greatest word. -/
theorem filter_upTo_latest (hlog : log.Consistent) (root : String) :
    (log.history root).filter (Event.upTo Repository.latest) = log.history root := by
  rw [List.filter_eq_self]
  intro e he
  obtain ⟨i, hi, rfl⟩ := List.getElem_of_mem (Log.mem_history.1 he).1
  have hp := hlog.position (List.getElem?_eq_getElem hi)
  rw [Event.upTo_eq_decide hp, decide_eq_true_eq]
  obtain ⟨value, _, hread⟩ := (Event.readAs_eq_ok_iff _ _ _ _).1 hp
  exact (of_decide_eq_true (Option.filter_eq_some_iff.1 hread).2).2

end Log.Consistent

end Chronicle
