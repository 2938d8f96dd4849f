import Chronicle.Data.Table
import Chronicle.Text.Quoted
import Chronicle.Time.Duration

namespace Chronicle

/-!
# Profiling

* `Profiler` — how many events of each type each view manager has applied, and how long it took.
* `Profiler.register` — counts one event.
* `Profiler.summary` — the totals, the longest time first.
-/

/-- Events counted for a view manager and an event type. -/
structure ProfileTotal where
  /-- Number of events. -/
  count : Nat := 0
  /-- Time spent on them. -/
  total : Duration := Duration.zero
deriving DecidableEq

/-- A line of the summary. -/
structure ProfileSummary where
  /-- The view manager. -/
  manager : String
  /-- The event type. -/
  type : String
  /-- Number of events. -/
  count : Nat
  /-- Time spent on them. -/
  total : Duration
deriving DecidableEq

/-- The mean time per event. -/
def ProfileSummary.average (s : ProfileSummary) : Duration := s.total.dividedBy s.count

/-- Totals by view manager and event type. -/
structure Profiler where
  /-- The totals. -/
  totals : Table (String × String) ProfileTotal := Table.empty

namespace Profiler

/-- Nothing has been counted. -/
def empty : Profiler := {}

/-- The total of a view manager and an event type. -/
def total (p : Profiler) (manager type : String) : ProfileTotal :=
  (p.totals.get? (manager, type)).getD {}

/-- Count one event that took a time. -/
def register (p : Profiler) (manager type : String) (time : Duration) : Profiler :=
  let t := p.total manager type
  ⟨p.totals.insert (manager, type) ⟨t.count + 1, t.total + time⟩⟩

/-- The totals, the longest time first. -/
def summary (p : Profiler) : List ProfileSummary :=
  (p.totals.entries.map fun e => ⟨e.1.1, e.1.2, e.2.count, e.2.total⟩).mergeSort
    fun a b => b.total.nanos ≤ a.total.nanos

/-- Forget all totals. -/
def reset (_ : Profiler) : Profiler := empty

/-- The profiler, described. -/
def describe (p : Profiler) : String :=
  Quoted.fields "RecordingProfiler" [("entries", toString p.totals.size)]

theorem total_register (p : Profiler) (manager type manager' type' : String) (time : Duration) :
    (p.register manager type time).total manager' type'
      = if (manager', type') = (manager, type) then
          ⟨(p.total manager type).count + 1, (p.total manager type).total + time⟩
        else p.total manager' type' := by
  simp only [register, total, Table.get?_insert]
  split <;> rfl

end Profiler

end Chronicle
