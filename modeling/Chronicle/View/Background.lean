import Chronicle.View.Dispatcher

namespace Chronicle

/-!
# Work in the background

* `ViewDispatcher.start` — brings all managers up to date and starts a background task for each
  eventual one.
* `ViewDispatcher.settle` — lets every task run that has been signalled or whose time has come.
* `ViewDispatcher.sleep` — lets time pass; tasks wake up on the way.
* `ViewDispatcher.wait` — lets time pass until views have reached a position.
* `ViewDispatcher.shutdown` — ends the tasks for good.

Time is a number of milliseconds that moves only here. A task that wakes up catches up with the log
and then sleeps until a signal comes or the idle interval has passed.
-/

/-- Why views were not seen to reach a position. -/
inductive ViewWaitError where
  /-- There is no such view manager. -/
  | unknownManager (id : String)
  /-- A view manager stopped before the position. -/
  | stopped (manager : String) (position target : Int)
  /-- A view manager did not get there in time. -/
  | timeout (manager : String) (position target : Int)
deriving DecidableEq

/-- The error as a sentence. -/
def ViewWaitError.message : ViewWaitError → String
  | unknownManager id => s!"Unknown view manager: {id}"
  | stopped manager position target =>
    s!"View manager {manager} stopped at position {position}, before {target}"
  | timeout manager position target =>
    s!"Timed out waiting for view manager {manager}: at {position}, waiting for {target}"

namespace ViewDispatcher

variable {σ V : Type}

/-! ### Tasks -/

/-- A background task wakes up: it catches up unless its manager is stopped, and plans its next
wake-up. -/
def wakeUp (src : ViewSource σ) (now : Nat) (f : Feeding σ V) : Feeding σ V :=
  let f := { f with target := { f.target with
    signalled := false, wake := some (now + src.config.idlePollMs) } }
  if f.target.manager.stopped then f else (f.catchUp src).2

/-- Whether a background task has something to do: a signal has come, or it is time to wake up. -/
def isDue (now : Nat) (r : Registration V) : Bool :=
  match r.wake with
  | none => false
  | some wake => r.signalled || decide (wake ≤ now)

/-- Let a task run if it has something to do. -/
def runIfDue (src : ViewSource σ) (now : Nat) (f : Feeding σ V) : Unit × Feeding σ V :=
  if isDue now f.target then ((), wakeUp src now f) else ((), f)

/-- Let every task run that has something to do. -/
def settle (src : ViewSource σ) (s : σ × ViewDispatcher V) : σ × ViewDispatcher V :=
  (visitAll (runIfDue src s.2.now) s).2

/-- Start a task for a registration, unless its manager gets events at once. -/
def startTask (firstWake : Nat) (r : Registration V) : Registration V :=
  match r.mode with
  | .immediate => r
  | .eventual => { r with wake := some firstWake }

/-- Start the tasks, once. -/
def startTasks (src : ViewSource σ) (d : ViewDispatcher V) : ViewDispatcher V :=
  if d.started then d
  else { d with
    registrations := d.registrations.map (startTask (d.now + src.config.idlePollMs))
    started := true }

/-- Bring all managers up to date, after a purge if it is wanted, and start the tasks: the first
error. -/
def start (src : ViewSource σ) (purge : Bool) (s : σ × ViewDispatcher V) :
    Option ViewDispatchError × σ × ViewDispatcher V :=
  let (err, store, d) := catchUpAll src purge s
  (err, store, d.startTasks src)

/-- End all tasks. They are not started again. -/
def shutdown (d : ViewDispatcher V) : ViewDispatcher V :=
  { d with registrations := d.registrations.map fun r => { r with wake := none } }

/-! ### Time -/

/-- The earlier one of two times, of which either may be missing. -/
def earlier : Option Nat → Option Nat → Option Nat
  | some a, some b => some (min a b)
  | some a, none => some a
  | none, b => b

/-- The time of the next wake-up. -/
def nextWake (d : ViewDispatcher V) : Option Nat :=
  (d.registrations.map Registration.wake).foldr earlier none

/-- Let the tasks wake up whose time comes before a limit, one time after the other. The first
argument bounds the number of times. -/
def wakeBefore (src : ViewSource σ) (limit : Nat) :
    Nat → σ × ViewDispatcher V → σ × ViewDispatcher V
  | 0, s => s
  | fuel + 1, s =>
    match s.2.nextWake with
    | none => s
    | some wake =>
      if wake < limit then wakeBefore src limit fuel (settle src (s.1, { s.2 with now := wake }))
      else s

/-- Let time pass. Tasks that are to wake up at the very end have not done so yet. A task that wakes
up does not wake up again in the same millisecond, so there are not more wake-ups than
milliseconds. -/
def sleep (src : ViewSource σ) (ms : Nat) (s : σ × ViewDispatcher V) : σ × ViewDispatcher V :=
  let (store, d) := wakeBefore src (s.2.now + ms) (ms + 1) s
  (store, { d with now := s.2.now + ms })

/-! ### Waiting -/

/-- Wait for the chosen managers to reach a position, looking at them once and then after each of a
number of polls. -/
def waitFor (src : ViewSource σ) (chosen : ViewDispatcher V → List (ViewManager V))
    (target : Int) : Nat → σ × ViewDispatcher V → Option ViewWaitError × σ × ViewDispatcher V
  | polls, s =>
    match (chosen s.2).find? fun m => decide (m.position < target) with
    | none => (none, s)
    | some m =>
      if m.stopped then (some (.stopped m.id m.position target), s)
      else match polls with
        -- The last look came when the timeout had passed.
        | 0 => (some (.timeout m.id m.position target), s)
        | polls + 1 => waitFor src chosen target polls (sleep src src.config.waitPollMs s)

/-- After how many polls a timeout has passed. -/
def pollsWithin (config : ViewConfig) (timeout : Nat) : Nat :=
  (timeout + config.waitPollMs - 1) / config.waitPollMs

/-- Wait for all managers to reach a position; nothing to wait for without a position. -/
def wait (src : ViewSource σ) (target : Option Int) (timeout : Nat) (s : σ × ViewDispatcher V) :
    Option ViewWaitError × σ × ViewDispatcher V :=
  match target with
  | none => (none, s)
  | some target =>
    waitFor src (fun d => d.registrations.map Registration.manager) target
      (pollsWithin src.config timeout) s

/-- Wait for one manager to reach a position; nothing to wait for without a position. -/
def waitForView (src : ViewSource σ) (id : String) (target : Option Int) (timeout : Nat)
    (s : σ × ViewDispatcher V) : Option ViewWaitError × σ × ViewDispatcher V :=
  match s.2.manager? id, target with
  | none, _ => (some (.unknownManager id), s)
  | some _, none => (none, s)
  | some _, some target =>
    waitFor src (fun d => (d.manager? id).toList) target (pollsWithin src.config timeout) s

@[simp] theorem manager_startTask (firstWake : Nat) (r : Registration V) :
    (startTask firstWake r).manager = r.manager := by
  unfold startTask
  split <;> rfl

@[simp] theorem mode_startTask (firstWake : Nat) (r : Registration V) :
    (startTask firstWake r).mode = r.mode := by
  unfold startTask
  split <;> rfl

@[simp] theorem started_startTasks (src : ViewSource σ) (d : ViewDispatcher V) :
    (d.startTasks src).started = true := by
  unfold startTasks
  split
  · assumption
  · rfl

@[simp] theorem nextWake_shutdown (d : ViewDispatcher V) : d.shutdown.nextWake = none := by
  simp only [nextWake, shutdown, List.map_map]
  induction d.registrations with
  | nil => rfl
  | cons r rest ih => simpa [earlier] using ih

end ViewDispatcher

end Chronicle
