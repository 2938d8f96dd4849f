import Chronicle.Proofs.Log.Runs

namespace Chronicle

/-!
# What is read is what stands in the log

The log skips by place and finds the events of a root through its index. Whoever reads knows only the
numbers that the events carry.

* `Event.Counted` — a list whose events carry their places as a number: positions in the log, sequence
  numbers in the history of a root.
* `Event.Counted.filter_numberedFrom` — in such a list, to skip places is to ask for numbers.
* `Log.Extends.resume` — who has seen the beginning of the log reads on where that ends.
* `Log.reads_agree` — the reads of a log that began empty, after any saves.
-/

/-! ### Counted lists -/

namespace Event

/-- Whether an event carries a number, and one that is not below `first`. -/
def numberedFrom (number : Event → Except EventError Int) (first : Int) (e : Event) : Bool :=
  match number e with
  | .ok n => decide (first ≤ n)
  | .error _ => false

/-- Every event carries its place in the list as its number. -/
def Counted (number : Event → Except EventError Int) (events : List Event) : Prop :=
  ∀ (k : Nat) (e : Event), events[k]? = some e → number e = .ok (k : Int)

namespace Counted

variable {number : Event → Except EventError Int} {events : List Event}

/-- The numbers behind the first `n` places go on from `n` without a gap. -/
theorem map_drop (h : Counted number events) (n : Nat) : (events.drop n).map number
    = (List.range' n (events.length - n)).map fun k => .ok (k : Int) := by
  refine List.ext_getElem (by simp) fun i hi _ => ?_
  rw [List.length_map, List.length_drop] at hi
  rw [List.getElem_map, List.getElem_map, List.getElem_drop, List.getElem_range', Nat.one_mul]
  exact h (n + i) _ (List.getElem?_eq_getElem (by omega))

/-- To ask for the numbers from `first` on is to skip so many places, and none if `first` is
negative. -/
theorem filter_numberedFrom (h : Counted number events) (first : Int) :
    events.filter (numberedFrom number first) = events.drop first.toNat := by
  have htest : ∀ (k : Nat) (e : Event), events[k]? = some e →
      numberedFrom number first e = decide (first.toNat ≤ k) := by
    intro k e he
    rw [numberedFrom, h k e he]
    show decide (first ≤ (k : Int)) = decide (first.toNat ≤ k)
    rw [decide_eq_decide]
    omega
  -- No event before the place passes the test, and every one behind it does.
  have hbefore : (events.take first.toNat).filter (numberedFrom number first) = [] := by
    rw [List.filter_eq_nil_iff]
    intro e he
    obtain ⟨k, hk, rfl⟩ := List.getElem_of_mem he
    rw [List.length_take] at hk
    rw [List.getElem_take, htest k _ (List.getElem?_eq_getElem (by omega)), decide_eq_true_eq]
    omega
  have hbehind : (events.drop first.toNat).filter (numberedFrom number first)
      = events.drop first.toNat := by
    rw [List.filter_eq_self]
    intro e he
    obtain ⟨k, hk, rfl⟩ := List.getElem_of_mem he
    rw [List.length_drop] at hk
    rw [List.getElem_drop, htest _ _ (List.getElem?_eq_getElem (by omega)), decide_eq_true_eq]
    omega
  calc events.filter (numberedFrom number first)
      = (events.take first.toNat ++ events.drop first.toNat).filter
          (numberedFrom number first) := by rw [List.take_append_drop]
    _ = events.drop first.toNat := by rw [List.filter_append, hbefore, hbehind, List.nil_append]

end Counted

end Event

namespace Log

/-! ### The numbers of a consistent log -/

variable {log log' : Log}

theorem Consistent.counted_events (h : log.Consistent) :
    Event.Counted Event.position log.events := fun _ _ he => h.position he

theorem Consistent.counted_history (h : log.Consistent) (root : String) :
    Event.Counted Event.sequence (log.history root) := fun _ _ he => h.sequence he

/-- The log from a position on has the events whose positions are not below it. -/
theorem Consistent.stream_eq_filter (h : log.Consistent) (first : Int) :
    log.stream first = log.events.filter (Event.numberedFrom Event.position first) :=
  (h.counted_events.filter_numberedFrom first).symm

/-- The history of a root from a number on has the events of the log that the root has emitted and
whose numbers are not below it. -/
theorem Consistent.load_eq_filter (h : log.Consistent) (root : String) (first : Int) :
    log.load root first = (log.stream 0).filter fun e =>
      Event.isOf root e && Event.numberedFrom Event.sequence first e := by
  rw [h.load_eq, ← (h.counted_history root).filter_numberedFrom, history, List.filter_filter]
  refine List.filter_congr fun e _ => ?_
  rw [Bool.and_comm]

/-! ### Reading on -/

/-- Who has seen the beginning of a log reads on where that ends: nothing is missed and nothing is
read twice, whatever has been added in the meantime. -/
theorem Extends.resume (h : log.Extends log') {seen : List Event} (hseen : seen <+: log.stream 0) :
    seen ++ log'.stream (seen.length : Int) = log'.stream 0 := by
  obtain ⟨rest, hrest⟩ : seen <+: log'.events := hseen.trans h
  show seen ++ log'.events.drop (seen.length : Int).toNat = log'.events
  rw [Int.toNat_natCast, ← hrest, List.drop_left]

/-- **Reads agree with the log.** Whatever has been saved in a log that began empty (`saveAll`), its reads
are what the numbers of the events say, and leave it as it is: `stream` from a position on has the events
whose positions are not below it (`Event.numberedFrom`), without a gap; `load` of a root from a number on
has the events that the root has emitted and whose numbers are not below it, without a gap too; and
`nextPosition` is the length of the log. A bound may be negative or past the end. Who has seen the first
events and reads on from there, after any further saves, has seen the log as it is then. -/
theorem reads_agree (calls : List Save) :
    let log := (saveAll calls empty).2
    -- The log from a position on.
    (∀ first : Int,
      store.stream first log
          = (.ok ((log.events.filter (Event.numberedFrom Event.position first)).map .ok), log) ∧
        (log.stream first).map Event.position
          = (List.range' first.toNat (log.size - first.toNat)).map fun p => .ok (p : Int)) ∧
    -- The history of a root from a number on.
    (∀ (root : String) (first : Int),
      store.load root first log
          = (.ok (((log.stream 0).filter fun e =>
              Event.isOf root e && Event.numberedFrom Event.sequence first e).map .ok), log) ∧
        (log.load root first).map Event.sequence
          = (List.range' first.toNat (log.stored root - first.toNat)).map fun n => .ok (n : Int)) ∧
    -- The next position.
    store.nextPosition log = (.ok ((log.stream 0).length : Int), log) ∧
    -- Reading on.
    ∀ (later : List Save) (k : Nat),
      let seen := (log.stream 0).take k
      seen ++ (saveAll later log).2.stream (seen.length : Int) = (saveAll later log).2.stream 0 := by
  intro log
  have hlog : log.Consistent := consistent_empty.saveAll calls
  refine ⟨fun first => ⟨?_, hlog.counted_events.map_drop _⟩, fun root first => ⟨?_, ?_⟩, rfl,
    fun later k => ?_⟩
  · rw [← hlog.stream_eq_filter]
    rfl
  · rw [← hlog.load_eq_filter]
    rfl
  · rw [hlog.load_eq, hlog.stored_eq]
    exact (hlog.counted_history root).map_drop _
  · exact (hlog.extends_saveAll later).resume (List.take_prefix k _)

end Log

end Chronicle
