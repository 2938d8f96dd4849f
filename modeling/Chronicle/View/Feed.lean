namespace Chronicle

/-!
# Notices of updated views

* `ViewsUpdated` — a view manager has reached a position and changed some views.
* `Feed` — the notices that a subscriber has not taken yet. It keeps the latest ones and counts
  those that were dropped.
-/

/-- A view manager has applied events. -/
structure ViewsUpdated where
  /-- The view manager. -/
  manager : String
  /-- The position it has reached. -/
  position : Int
  /-- The changed views, in the order in which the events first touched them. -/
  views : List String
deriving DecidableEq

/-- The notices that a subscriber has not taken yet. -/
structure Feed where
  /-- The notices, oldest first. -/
  waiting : List ViewsUpdated := []
  /-- Number of older notices that were dropped. -/
  lost : Nat := 0

namespace Feed

/-- No notices. -/
def empty : Feed := {}

/-- How many notices are kept. -/
def capacity : Nat := 256

/-- Add a notice; if there are too many, the oldest ones are dropped. -/
def push (f : Feed) (notice : ViewsUpdated) : Feed :=
  let all := f.waiting ++ [notice]
  ⟨all.drop (all.length - capacity), f.lost + (all.length - capacity)⟩

theorem length_waiting_push (f : Feed) (notice : ViewsUpdated) :
    (f.push notice).waiting.length = min (f.waiting.length + 1) capacity := by
  simp only [push, List.length_drop, List.length_append, List.length_cons, List.length_nil]
  omega

end Feed

end Chronicle
