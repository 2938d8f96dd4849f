import Chronicle.Text.Quoted
import Chronicle.Time.Instant

namespace Chronicle

/-!
# Clocks moved by hand

* `ManualClock` — shows one instant until it is moved; every component that is given the clock sees
  the same instant.
-/

/-- A clock that shows an instant until it is moved. -/
structure ManualClock where
  /-- The instant it shows. -/
  now : Instant
deriving DecidableEq

namespace ManualClock

/-- Move the clock by a number of microseconds. -/
def advance (c : ManualClock) (us : Int) : ManualClock := ⟨c.now.addMicros us⟩

/-- Set the clock to an instant. -/
def set (_ : ManualClock) (t : Instant) : ManualClock := ⟨t⟩

@[simp] theorem now_set (c : ManualClock) (t : Instant) : (c.set t).now = t := rfl

/-- The clock, described. -/
def describe (c : ManualClock) : String := Quoted.fields "ManualClock" [("now", c.now.zulu)]

end ManualClock

end Chronicle
