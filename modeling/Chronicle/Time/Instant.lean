import Chronicle.Time.Calendar

namespace Chronicle

/-!
# Instants

* `Instant` — a point in time to the nanosecond, in universal time.
* `Instant.rfc3339` — its text with the offset `+00:00`.
* `Instant.read?` — reads an RFC 3339 text with any offset.
* `Instant.addMicros` — moves an instant.

An instant inside a leap second has the seconds of the second before it and a count of nanoseconds
from 1 000 000 000 on; its text shows the second 60.
-/

/-- A point in time, counted from the begin of 1970 in universal time. -/
structure Instant where
  /-- Whole seconds. -/
  seconds : Int
  /-- Nanoseconds on top; at least 1 000 000 000 only inside a leap second. -/
  nanos : Nat := 0
deriving DecidableEq, Repr

namespace Instant

/-- The begin of 2025. -/
def begin2025 : Instant := ⟨1735689600, 0⟩

instance : Inhabited Instant := ⟨begin2025⟩

/-- Nanoseconds in a second. -/
def nanosPerSecond : Int := 1000000000

/-- Microseconds since the begin of 1970. -/
def micros (t : Instant) : Int := t.seconds * 1000000 + t.nanos / 1000

/-! ### Arithmetic -/

/-- Add whole seconds and a fraction of a second of the same sign, to an instant outside a leap
second. -/
def shift (seconds nanos : Int) (addSeconds addNanos : Int) : Instant :=
  let total := nanos + addNanos
  ⟨seconds + addSeconds + total / nanosPerSecond, (total % nanosPerSecond).toNat⟩

/-- Move an instant by a number of microseconds. A leap second counts as a second of its own when
it is left. -/
def addMicros (t : Instant) (us : Int) : Instant :=
  let addSeconds := Int.tdiv us 1000000
  let addNanos := Int.tmod us 1000000 * 1000
  if nanosPerSecond ≤ t.nanos then
    if 0 < addSeconds ∨ (0 < addNanos ∧ 2 * nanosPerSecond ≤ t.nanos + addNanos) then
      shift t.seconds (t.nanos - nanosPerSecond) addSeconds addNanos
    else if addSeconds < 0 then
      shift (t.seconds + 1) (t.nanos - nanosPerSecond) addSeconds addNanos
    else ⟨t.seconds, (t.nanos + addNanos).toNat⟩
  else shift t.seconds t.nanos addSeconds addNanos

/-! ### Writing -/

/-- A number with at least `width` digits. -/
def padded (width n : Nat) : List Char :=
  let ds := Nat.toDigits 10 n
  List.replicate (width - ds.length) '0' ++ ds

/-- A year: four digits, with a sign only outside the years 0 to 9999. -/
def yearText (year : Int) : List Char :=
  if 0 ≤ year ∧ year ≤ 9999 then padded 4 year.toNat
  else (if year < 0 then '-' else '+') :: padded 4 year.natAbs

/-- The fraction of a second with 0, 3, 6 or 9 digits, the fewest that are exact. -/
def fractionText (nanos : Nat) : List Char :=
  if nanos = 0 then []
  else if nanos % 1000000 = 0 then '.' :: padded 3 (nanos / 1000000)
  else if nanos % 1000 = 0 then '.' :: padded 6 (nanos / 1000)
  else '.' :: padded 9 nanos

/-- Date and time of day, without an offset. -/
def civilText (t : Instant) : List Char :=
  let date := Date.ofDay (t.seconds / 86400)
  let inDay := (t.seconds % 86400).toNat
  let leap := 1000000000 ≤ t.nanos
  let second := inDay % 60 + (if leap then 1 else 0)
  let nanos := if leap then t.nanos - 1000000000 else t.nanos
  yearText date.year ++ '-' :: padded 2 date.month ++ '-' :: padded 2 date.day
    ++ 'T' :: padded 2 (inDay / 3600) ++ ':' :: padded 2 (inDay / 60 % 60) ++ ':' :: padded 2 second
    ++ fractionText nanos

/-- The instant with the offset of universal time. -/
def rfc3339 (t : Instant) : String := String.ofList (t.civilText ++ ['+', '0', '0', ':', '0', '0'])

/-- The instant with the letter for universal time. -/
def zulu (t : Instant) : String := String.ofList (t.civilText ++ ['Z'])

/-! ### Reading -/

/-- A number of exactly `width` decimal digits. -/
def readNumber? (width : Nat) (cs : List Char) : Option (Nat × List Char) :=
  let ds := cs.take width
  if ds.length = width ∧ ds.all Char.isDigit then
    some (Nat.ofDigitChars 10 ds 0, cs.drop width)
  else none

/-- One given character. -/
def readChar? (c : Char) : List Char → Option (List Char)
  | [] => none
  | c' :: cs => if c' = c then some cs else none

/-- The letter or the space between date and time. -/
def readSeparator? : List Char → Option (List Char)
  | c :: cs => if c = 'T' ∨ c = 't' ∨ c = ' ' then some cs else none
  | [] => none

/-- The fraction of a second in nanoseconds; digits beyond the ninth are dropped. -/
def readFraction? : List Char → Option (Nat × List Char)
  | '.' :: cs =>
    let ds := cs.takeWhile Char.isDigit
    let kept := ds.take 9
    if ds = [] then none
    else some (Nat.ofDigitChars 10 kept 0 * Nat.pow 10 (9 - kept.length), cs.dropWhile Char.isDigit)
  | cs => some (0, cs)

/-- The offset from universal time in seconds. -/
def readOffset? : List Char → Option (Int × List Char)
  | [] => none
  | c :: cs =>
    if c = 'Z' ∨ c = 'z' then some (0, cs)
    else if c = '+' ∨ c = '-' ∨ c = '−' then do
      let (hours, cs) ← readNumber? 2 cs
      let cs ← readChar? ':' cs
      let (minutes, cs) ← readNumber? 2 cs
      if minutes ≤ 59 ∧ hours ≤ 23 then
        let offset : Int := (hours * 60 + minutes) * 60
        return (if c = '+' then offset else -offset, cs)
      else none
    else none

/-- The instant that an RFC 3339 text names. -/
def read? (s : String) : Option Instant := do
  let (year, cs) ← readNumber? 4 s.toList
  let (month, cs) ← readNumber? 2 (← readChar? '-' cs)
  let (day, cs) ← readNumber? 2 (← readChar? '-' cs)
  let (hour, cs) ← readNumber? 2 (← readSeparator? cs)
  let (minute, cs) ← readNumber? 2 (← readChar? ':' cs)
  let (second, cs) ← readNumber? 2 (← readChar? ':' cs)
  let (nanos, cs) ← readFraction? cs
  let (offset, cs) ← readOffset? cs
  let date : Date := ⟨year, month, day⟩
  if cs = [] ∧ date.Valid ∧ hour ≤ 23 ∧ minute ≤ 59 ∧ second ≤ 60 then
    let leap := second = 60
    let inDay : Int := hour * 3600 + minute * 60 + (if leap then 59 else second)
    return ⟨date.toDay * 86400 + inDay - offset, if leap then nanos + 1000000000 else nanos⟩
  else none

end Instant

end Chronicle
