import Chronicle.Aggregate.Basic
import Chronicle.Data.Table
import Chronicle.Data.Word
import Chronicle.Text.Quoted
import Chronicle.Time.Instant

namespace Chronicle

/-!
# The snapshot cache

* `Snapshot` — a stored state of a root, cut after one of its events.
* `SnapshotCache` — snapshots by root and cutoff, about as many as a limit allows.
* `SnapshotCache.lookup` — a copy of the newest snapshot cut at or before a position.
* `SnapshotCache.trimAt` — removes the snapshots of least worth, in passes.
* `SnapshotCache.putAt` — stores the state of a root, unless one with that cutoff is there, and trims.
* `SnapshotCache.setLimitAt` — changes the limit, and trims.

A snapshot is worth more the longer the history it saves, the more often it was used and the more
recently. The clock may run while a call works, so a call is told what the clock shows each time it is
read; `trim`, `put` and `setLimit` are the calls while it stands still.
-/

/-- A stored state. Only the record of its use changes. -/
structure Snapshot where
  /-- The name of the aggregate type that wrote it. -/
  type : String
  /-- The sequence number of the last event in it. -/
  sequence : Int
  /-- The position of the last event in it. -/
  cutoff : Int
  /-- The state. -/
  data : Json
  /-- How often it was used. -/
  hits : Nat
  /-- When it was used last, or stored, in microseconds since the begin of 1970. -/
  lastHit : Int

namespace Snapshot

/-- The snapshot of a root, if its state has a stored form. -/
def ofRoot? {S : Type} (T : AggregateType S) (r : Root S) (now : Instant) : Option Snapshot :=
  (T.encode r.state).map fun data =>
    ⟨T.name, r.sequence, r.cutoff, data, 0, now.micros⟩

/-- The root that a snapshot holds, if it was written by the same type and can be read. -/
def toRoot? {S : Type} (T : AggregateType S) (id : String) (s : Snapshot) : Option (Root S) :=
  if s.type = T.name then
    (T.decode s.data).map fun state => { id, sequence := s.sequence, cutoff := s.cutoff, state }
  else none

/-- The snapshot after one more use. -/
def hit (s : Snapshot) (now : Instant) : Snapshot :=
  { s with hits := s.hits + 1, lastHit := now.micros }

/-- What a snapshot is worth: sequence number times hits, over the seconds since its last use, of
which at least a hundredth counts. The times are words, so `Word64.wrap` applies to their difference. -/
def worth (s : Snapshot) (now : Instant) : Float :=
  let elapsed := Float.ofInt (Word64.wrap (now.micros - s.lastHit)) / 1000000
  let seconds := if elapsed < 0.01 then 0.01 else elapsed
  Float.ofInt s.sequence * Float.ofNat s.hits / seconds

end Snapshot

/-- Where a double stands in the total order of doubles. -/
def floatRank (x : Float) : Int :=
  let bits : Int := x.toBits.toNat
  if bits < 9223372036854775808 then bits else 9223372036854775807 - bits

/-- Snapshots of roots, with a limit on their number. -/
structure SnapshotCache where
  /-- The snapshots by root and cutoff. -/
  entries : Table String (Table Int Snapshot) := Table.empty
  /-- Number of snapshots. -/
  count : Nat := 0
  /-- About how many snapshots are kept; none at all if it is 0. -/
  limit : Nat
  /-- A trim is under way, and no other one starts. -/
  trimming : Bool := false

namespace SnapshotCache

/-- The empty cache with a limit. -/
def new (limit : Nat) : SnapshotCache := { limit }

/-- The limit of a cache for which none is given. -/
def defaultLimit : Nat := 1000

instance : Inhabited SnapshotCache := ⟨new defaultLimit⟩

/-- The cache keeps nothing. -/
def isDisabled (c : SnapshotCache) : Bool := c.limit = 0

/-- Number of snapshots. -/
def size (c : SnapshotCache) : Nat := c.count

/-- Whether there are no snapshots. -/
def isEmpty (c : SnapshotCache) : Bool := c.size = 0

/-- The snapshots of a root by cutoff. -/
def ofRoot (c : SnapshotCache) (id : String) : Table Int Snapshot :=
  (c.entries.get? id).getD Table.empty

/-! ### Looking up -/

/-- The snapshot with the greatest cutoff among those cut at or before a position. -/
def newest? (bound : Int) : List (Int × Snapshot) → Option Snapshot
  | [] => none
  | (cutoff, s) :: rest =>
    match newest? bound rest with
    | none => if cutoff ≤ bound then some s else none
    | some best => if cutoff ≤ bound ∧ best.cutoff < cutoff then some s else some best

/-- A copy of the root in its newest snapshot cut at or before a position. The use is recorded if
the snapshot can be read as the wanted type. -/
def lookup {S : Type} (T : AggregateType S) (id : String) (bound : Int) (now : Instant)
    (c : SnapshotCache) : Option (Root S) × SnapshotCache :=
  let ofRoot := c.ofRoot id
  match newest? bound ofRoot.entries with
  | none => (none, c)
  | some s =>
    match s.toRoot? T id with
    | none => (none, c)
    | some root =>
      (some root, { c with entries := c.entries.insert id (ofRoot.insert s.cutoff (s.hit now)) })

/-! ### Trimming -/

/-- Every snapshot with its root. -/
def all (c : SnapshotCache) : List (String × Snapshot) :=
  c.entries.entries.flatMap fun e => e.2.values.map fun s => (e.1, s)

/-- Remove one snapshot. -/
def remove (c : SnapshotCache) (id : String) (cutoff : Int) : SnapshotCache :=
  match c.entries.get? id with
  | none => c
  | some ofRoot =>
    if ofRoot.contains cutoff then
      { c with entries := c.entries.insert id (ofRoot.erase cutoff), count := c.count - 1 }
    else c

/-- The snapshots by worth, the least first. -/
def byWorth (c : SnapshotCache) (now : Instant) : List (String × Snapshot) :=
  c.all.mergeSort fun a b => floatRank (a.2.worth now) ≤ floatRank (b.2.worth now)

/-- Remove the `removals` snapshots of least worth. -/
def trimPass (now : Instant) (removals : Nat) (c : SnapshotCache) : SnapshotCache :=
  ((c.byWorth now).take removals).foldl (fun c e => c.remove e.1 e.2.cutoff) c

/-- How many snapshots a pass removes. -/
def removalsPerPass (limit : Nat) : Nat := max (limit / 10) 10

/-- A clock that was read once. -/
def later (clock : Nat → Instant) : Nat → Instant := fun n => clock (n + 1)

/-- Make passes until the limit is met or a pass removes nothing. Each pass reads the clock. -/
def trimPassesAt (clock : Nat → Instant) : Nat → SnapshotCache → SnapshotCache
  | 0, c => c
  | fuel + 1, c =>
    if c.count ≤ c.limit then c
    else
      let c' := c.trimPass (clock 0) (removalsPerPass c.limit)
      if c'.count = c.count then c' else trimPassesAt (later clock) fuel c'

/-- Forget roots without snapshots, and end a trim. -/
def swept (c : SnapshotCache) : SnapshotCache :=
  { c with entries := c.entries.filter fun _ t => !t.isEmpty, trimming := false }

/-- Bring the cache within its limit, and forget roots without snapshots. A pass that removes
something lowers the count, so the count bounds the passes. -/
def trimAt (clock : Nat → Instant) (c : SnapshotCache) : SnapshotCache :=
  if c.count ≤ c.limit ∨ c.trimming then c
  else (trimPassesAt clock c.count { c with trimming := true }).swept

/-- Trim while the clock stands still. -/
def trim (now : Instant) (c : SnapshotCache) : SnapshotCache := c.trimAt fun _ => now

/-! ### Storing -/

/-- A snapshot comes in, unless there is one with its cutoff. -/
def store (c : SnapshotCache) (id : String) (s : Snapshot) : SnapshotCache :=
  -- The state at a cutoff never changes, so the first snapshot of it stays.
  if (c.ofRoot id).contains s.cutoff then c
  else { c with
    entries := c.entries.insert id ((c.ofRoot id).insert s.cutoff s), count := c.count + 1 }

/-- The cache with the snapshot of a root; nothing if the root has no history or its state no stored
form, or if the cache is disabled. -/
def accept {S : Type} (T : AggregateType S) (r : Root S) (now : Instant) (c : SnapshotCache) :
    Option SnapshotCache :=
  if c.isDisabled || !r.hasHistory then none else (Snapshot.ofRoot? T r now).map (c.store r.id)

/-- Store the state of a root and trim. The clock is read for the snapshot first. -/
def putAt {S : Type} (T : AggregateType S) (r : Root S) (clock : Nat → Instant) (c : SnapshotCache) :
    SnapshotCache :=
  match c.accept T r (clock 0) with
  | none => c
  | some c' => c'.trimAt (later clock)

/-- Store the state of a root while the clock stands still. -/
def put {S : Type} (T : AggregateType S) (r : Root S) (now : Instant) (c : SnapshotCache) :
    SnapshotCache := c.putAt T r fun _ => now

/-- Change the limit and trim. -/
def setLimitAt (limit : Nat) (clock : Nat → Instant) (c : SnapshotCache) : SnapshotCache :=
  trimAt clock { c with limit }

/-- Change the limit while the clock stands still. -/
def setLimit (limit : Nat) (now : Instant) (c : SnapshotCache) : SnapshotCache :=
  c.setLimitAt limit fun _ => now

/-- The cache, described. -/
def describe (c : SnapshotCache) : String :=
  Quoted.fields "InMemorySnapshotCache" [
    ("entries", toString c.size), ("approximate_max_entries", toString c.limit)]

end SnapshotCache

end Chronicle
