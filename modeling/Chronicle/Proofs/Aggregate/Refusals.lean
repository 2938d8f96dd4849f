import Chronicle.Proofs.Replay.History
import Chronicle.Sample.Aggregates
import Mathlib.Data.List.Induction

namespace Chronicle

/-!
# Emissions that are refused

A command may go on after an event was refused. The aggregate has been given the state by then, and
may have changed it before it refused the event.

* `AggregateType.replayed?` — the state that events make of a state, if each of them is taken. For
  the history of a root this is its state (`Root.replayed?_of_ofHistory`).
* `Root.offer` — a call that emits; the event may have to be made first, which may fail.
* `Root.offer_cases` — what such a call does: an event is taken, or only the state may change.
* `Root.replayed_iff_refusals_undone` — after every call the state is the replay of the history and
  the uncommitted events exactly if every call that fails leaves the state as it was. The numbers and
  the uncommitted events are never touched by a call that fails.
* `Root.refusal_leaves_trace` — an aggregate that changes its state first and then refuses.
-/

/-! ### Replaying states -/

namespace AggregateType

variable {S : Type}

/-- The state that events make of a state, if each of them is taken. -/
def replayed? (T : AggregateType S) (state : S) : List Event → Option S
  | [] => some state
  | e :: rest =>
    match T.apply state e with
    | (state, none) => replayed? T state rest
    | (_, some _) => none

@[simp] theorem replayed?_nil (T : AggregateType S) (state : S) :
    T.replayed? state [] = some state := rfl

theorem replayed?_cons (T : AggregateType S) (state : S) (e : Event) (rest : List Event) :
    T.replayed? state (e :: rest)
      = if (T.apply state e).2 = none then T.replayed? (T.apply state e).1 rest else none := by
  rw [replayed?]
  rcases T.apply state e with ⟨state', _ | err⟩ <;> rfl

/-- Events can be replayed in two parts. -/
theorem replayed?_append (T : AggregateType S) (state : S) (events later : List Event) :
    T.replayed? state (events ++ later)
      = (T.replayed? state events).bind fun state => T.replayed? state later := by
  induction events generalizing state with
  | nil => rfl
  | cons e rest ih =>
    rw [List.cons_append, replayed?_cons, replayed?_cons]
    split
    · exact ih _
    · rfl

end AggregateType

namespace Root

variable {S : Type} {T : AggregateType S} {id : String} {history : List Event} {start r : Root S}

/-- The state after a committed event. -/
theorem replayed?_of_advance {r' : Root S} {e : Event} (h : r.advance T e = .ok r') :
    T.replayed? r.state [e] = some r'.state := by
  unfold advance replay at h
  split at h
  · cases h
  · rw [AggregateType.replayed?_cons]
    split at h
    · cases h
    · rename_i hr
      cases h
      split at hr
      · rename_i happly
        cases hr
        rw [happly, if_pos rfl]
        rfl
      · cases hr

/-- The state of a root is what its history makes of the initial state. -/
theorem replayed?_of_ofHistory (h : ofHistory T id history = .ok r) :
    T.replayed? T.initial history = some r.state := by
  have hfold : ∀ (events : List Event) (r₀ : Root S), events.foldlM (advance T) r₀ = .ok r →
      T.replayed? r₀.state events = some r.state := by
    intro events
    induction events with
    | nil =>
      intro r₀ hr
      cases hr
      rfl
    | cons e rest ih =>
      intro r₀ hr
      rw [List.foldlM_cons] at hr
      cases hadvance : r₀.advance T e with
      | error err =>
        rw [hadvance] at hr
        cases hr
      | ok r₁ =>
        rw [hadvance] at hr
        rw [← List.singleton_append, AggregateType.replayed?_append,
          replayed?_of_advance hadvance]
        exact ih r₁ hr
  exact hfold history (new T id) h

/-! ### Calls that emit -/

/-- A call that emits an event: the root afterwards, and the error if the call fails. Where an event
could not be made of the data that it is to carry, there is an error in its place, and the aggregate
is not asked. -/
def offer (T : AggregateType S) (r : Root S) : Except AppError Event → Root S × Option AppError
  | .ok e => r.emit T e
  | .error err => (r, some err)

/-- The root after some calls, whose errors are ignored. -/
def offerAll (T : AggregateType S) (r : Root S) (calls : List (Except AppError Event)) : Root S :=
  calls.foldl (fun r made => (r.offer T made).1) r

@[simp] theorem offerAll_nil (T : AggregateType S) (r : Root S) : r.offerAll T [] = r := rfl

@[simp] theorem offerAll_concat (T : AggregateType S) (r : Root S)
    (calls : List (Except AppError Event)) (made : Except AppError Event) :
    r.offerAll T (calls ++ [made]) = ((r.offerAll T calls).offer T made).1 := by
  simp [offerAll]

/-- A call adds a marked event that the aggregate takes, or it fails and changes at most the state. -/
theorem offer_cases (T : AggregateType S) (r : Root S) (made : Except AppError Event) :
    (∃ e state, made = .ok e ∧ T.apply r.state (r.mark T e) = (state, none) ∧
      r.offer T made = ({ r with state, uncommitted := r.uncommitted ++ [r.mark T e] }, none)) ∨
    ∃ state err, r.offer T made = ({ r with state }, some err) := by
  rcases made with err | e
  · exact .inr ⟨r.state, err, rfl⟩
  · obtain ⟨state, refusal, happly⟩ : ∃ state refusal,
        T.apply r.state (r.mark T e) = (state, refusal) := ⟨_, _, rfl⟩
    cases refusal with
    | none => exact .inl ⟨e, state, rfl, happly, by rw [offer, emit, buffer, happly]⟩
    | some err => exact .inr ⟨state, err, by rw [offer, emit, buffer, happly]⟩

/-- **The state follows from the events exactly if refusals are undone.** Take a root that its history
has made (`ofHistory`) and any calls that emit on it (`offerAll`), whose errors are ignored. (A root that is
created has no history, and the first calls are those of its script.) A call never changes the id and the
numbers. If it succeeds, it adds its event, with the `mark` of the root, to the `uncommitted` ones, and if
it fails, it adds none. After each of the calls, and before them, the `state` is what the history and the
uncommitted events make of the initial state (`replayed?`), if and only if every call that fails leaves the
root as it was. -/
theorem replayed_iff_refusals_undone (hstart : ofHistory T id history = .ok start)
    (calls : List (Except AppError Event)) :
    (∀ before made after, calls = before ++ made :: after →
      let r := start.offerAll T before
      let r' := start.offerAll T (before ++ [made])
      (r'.id = r.id ∧ r'.sequence = r.sequence ∧ r'.cutoff = r.cutoff) ∧
      ((r.offer T made).2 = none →
        ∃ e, made = .ok e ∧ r'.uncommitted = r.uncommitted ++ [r.mark T e]) ∧
      ((r.offer T made).2 ≠ none → r'.uncommitted = r.uncommitted)) ∧
    ((∀ before, before <+: calls →
        T.replayed? T.initial (history ++ (start.offerAll T before).uncommitted)
          = some (start.offerAll T before).state) ↔
      ∀ before made after, calls = before ++ made :: after →
        ((start.offerAll T before).offer T made).2 ≠ none →
        start.offerAll T (before ++ [made]) = start.offerAll T before) := by
  refine ⟨fun before made after _ => ?_, fun h before made after hcalls hfailed => ?_,
    fun h before hbefore => ?_⟩
  · intro r r'
    have hr' : r' = (r.offer T made).1 := offerAll_concat T start before made
    rcases r.offer_cases T made with ⟨e, state, hmade, _, hoffer⟩ | ⟨state, err, hoffer⟩
    · rw [hr', hoffer]
      exact ⟨⟨rfl, rfl, rfl⟩, fun _ => ⟨e, hmade, rfl⟩, fun hne => absurd rfl hne⟩
    · rw [hr', hoffer]
      exact ⟨⟨rfl, rfl, rfl⟩, nofun, fun _ => rfl⟩
  · -- Both states are replays of the same events.
    have hreplayed := h before ⟨made :: after, hcalls.symm⟩
    have hreplayed' := h (before ++ [made]) ⟨after, by rw [hcalls, List.append_assoc]; rfl⟩
    rw [offerAll_concat] at hreplayed' ⊢
    rcases (start.offerAll T before).offer_cases T made with
      ⟨_, _, _, _, hoffer⟩ | ⟨state, err, hoffer⟩
    · rw [hoffer] at hfailed
      exact absurd rfl hfailed
    · rw [hoffer] at hreplayed' ⊢
      have hstate : state = (start.offerAll T before).state :=
        Option.some.inj (hreplayed'.symm.trans hreplayed)
      rw [hstate]
  · induction before using List.reverseRecOn with
    | nil =>
      rw [offerAll_nil, (ofHistory_eq_ok hstart).2.2.1, List.append_nil]
      exact replayed?_of_ofHistory hstart
    | append_singleton before made ih =>
      obtain ⟨after, hcalls⟩ := hbefore
      rw [List.append_assoc, List.singleton_append] at hcalls
      have hbefore := ih ⟨made :: after, hcalls⟩
      rcases (start.offerAll T before).offer_cases T made with
        ⟨e, state, _, happly, hoffer⟩ | ⟨_, err, hoffer⟩
      · -- The event is taken once more by the state that the earlier events make.
        rw [offerAll_concat, hoffer, ← List.append_assoc, AggregateType.replayed?_append, hbefore,
          Option.bind_some, AggregateType.replayed?_cons, happly]
        rfl
      · rw [h before made after hcalls.symm (by rw [hoffer]; nofun)]
        exact hbefore

end Root

/-- A mode is set. -/
def Sample.setMode (mode : String) : Event := Event.ofPayload Sample.modeSet mode

/-- A root with one event in its history; then one mode is taken, one is refused, and one that cannot
be made is not even tried. -/
theorem Root.replayed_iff_refusals_undone_modes :
    let T := Sample.aggregateType .brittle
    let history := [((Sample.setMode "open").withMetadata Metadata.Key.position "0")]
    let start : Root Sample.State := ⟨"a", 0, 0, [], .brittle "open"⟩
    let calls := [.ok (Sample.setMode "busy"), .ok (Sample.setMode "reject"), .error (.text "no event")]
    Root.ofHistory T "a" history = .ok start ∧
    (∀ before made after, calls = before ++ made :: after →
      let r := start.offerAll T before
      let r' := start.offerAll T (before ++ [made])
      (r'.id = r.id ∧ r'.sequence = r.sequence ∧ r'.cutoff = r.cutoff) ∧
      ((r.offer T made).2 = none →
        ∃ e, made = .ok e ∧ r'.uncommitted = r.uncommitted ++ [r.mark T e]) ∧
      ((r.offer T made).2 ≠ none → r'.uncommitted = r.uncommitted)) ∧
    ((∀ before, before <+: calls →
        T.replayed? T.initial (history ++ (start.offerAll T before).uncommitted)
          = some (start.offerAll T before).state) ↔
      ∀ before made after, calls = before ++ made :: after →
        ((start.offerAll T before).offer T made).2 ≠ none →
        start.offerAll T (before ++ [made]) = start.offerAll T before) := by
  intro T history start calls
  have hstart : Root.ofHistory T "a" history = .ok start := by rfl
  exact ⟨hstart, Root.replayed_iff_refusals_undone hstart calls⟩

/-- A refused mode stays in the state, although no event has set it. -/
theorem Root.refusal_leaves_trace :
    let T := Sample.aggregateType .brittle
    let start := Root.new T "a"
    let r := start.offerAll T [.ok (Sample.setMode "reject")]
    Root.ofHistory T "a" [] = .ok start ∧
      (start.offer T (.ok (Sample.setMode "reject"))).2 = some (.text "mode rejected") ∧
      r.uncommitted = [] ∧ r.state ≠ start.state ∧
      T.replayed? T.initial ([] ++ r.uncommitted) ≠ some r.state := by
  refine ⟨rfl, rfl, rfl, ?_, ?_⟩ <;> decide +kernel

end Chronicle
