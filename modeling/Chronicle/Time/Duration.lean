import Chronicle.Text.Shortest

namespace Chronicle

/-!
# Durations

* `Duration` — a length of time in nanoseconds.
* `Duration.dividedBy` — a share of a duration: exact for counts of 32 bits, in doubles above.
-/

/-- A length of time. -/
structure Duration where
  /-- Its nanoseconds. -/
  nanos : Nat := 0
deriving DecidableEq, Repr

namespace Duration

/-- No time at all. -/
def zero : Duration := ⟨0⟩

instance : Inhabited Duration := ⟨zero⟩

/-- So many seconds and nanoseconds. -/
def ofParts (seconds nanos : Nat) : Duration := ⟨seconds * 1000000000 + nanos⟩

/-- So many milliseconds. -/
def ofMillis (ms : Nat) : Duration := ⟨ms * 1000000⟩

/-- Whole seconds. -/
def seconds (d : Duration) : Nat := d.nanos / 1000000000

/-- Nanoseconds beyond the whole seconds. -/
def subsecNanos (d : Duration) : Nat := d.nanos % 1000000000

/-- Whole milliseconds beyond the whole seconds. -/
def subsecMillis (d : Duration) : Nat := d.subsecNanos / 1000000

instance : Add Duration := ⟨fun a b => ⟨a.nanos + b.nanos⟩⟩

@[simp] theorem nanos_add (a b : Duration) : (a + b).nanos = a.nanos + b.nanos := rfl

/-- The duration in seconds, as a double. -/
def toSeconds (d : Duration) : Float :=
  Float.ofNat d.seconds + Float.ofNat d.subsecNanos / 1000000000

/-- A nonnegative finite number of seconds to the nearest nanosecond, half to the even one. -/
def ofSeconds (x : Float) : Duration :=
  let b := Shortest.Binary.ofBits x.toBits
  let numerator := b.m * 1000000000 * Nat.pow 2 b.q.toNat
  let denominator := Nat.pow 2 (-b.q).toNat
  let down := numerator / denominator
  let rest := numerator % denominator
  if 2 * rest < denominator ∨ (2 * rest = denominator ∧ down % 2 = 0) then ⟨down⟩ else ⟨down + 1⟩

/-- The greatest count that is divided by exactly. -/
def greatestExactCount : Nat := 4294967295

/-- One of `count` equal shares, rounded down to a nanosecond; no share of nothing. Counts beyond
32 bits go through doubles. -/
def dividedBy (d : Duration) (count : Nat) : Duration :=
  if count = 0 then zero
  else if count ≤ greatestExactCount then ⟨d.nanos / count⟩
  else ofSeconds (d.toSeconds / Float.ofNat count)

end Duration

end Chronicle
