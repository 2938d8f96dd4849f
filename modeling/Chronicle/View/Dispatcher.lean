import Chronicle.Command.Processor
import Chronicle.View.Delivery

namespace Chronicle

/-!
# The dispatcher of views

* `ViewDispatcher V` — the registered view managers, in order.
* `ViewDispatcher.dispatch` — hands committed events to every manager: at once to immediate ones, by
  a signal to eventual ones. An error of one manager does not keep the events from the others.
* `ViewDispatcher.catchUpAll`, `ViewDispatcher.replay` — bring all managers, or one after a purge,
  to the end of the log.
-/

/-- The registered view managers. -/
structure ViewDispatcher (V : Type) where
  /-- The registrations, in order. -/
  registrations : List (Registration V)
  /-- Counts the events that are applied. -/
  profiler : Profiler := Profiler.empty
  /-- Whether the background tasks have been started. -/
  started : Bool := false
  /-- The time in milliseconds, from which background tasks tell when to wake up. -/
  now : Nat := 0

namespace ViewDispatcher

variable {σ V β : Type}

/-! ### Visiting registrations -/

/-- Do something to every registration in turn: the answers and what there is afterwards. -/
def visitList (act : Feeding σ V → β × Feeding σ V) :
    σ → Profiler → List (Registration V) → List β × σ × Profiler × List (Registration V)
  | store, profiler, [] => ([], store, profiler, [])
  | store, profiler, r :: rest =>
    let (answer, f) := act ⟨store, profiler, r⟩
    let (answers, store, profiler, rest) := visitList act f.store f.profiler rest
    (answer :: answers, store, profiler, f.target :: rest)

/-- Do something to every registration in turn. -/
def visitAll (act : Feeding σ V → β × Feeding σ V) (s : σ × ViewDispatcher V) :
    List β × σ × ViewDispatcher V :=
  let (answers, store, profiler, registrations) :=
    visitList act s.1 s.2.profiler s.2.registrations
  (answers, store, { s.2 with registrations, profiler })

/-- Do something to the registration at an index. -/
def visitAt (i : Nat) (act : Feeding σ V → β × Feeding σ V) (s : σ × ViewDispatcher V) :
    Option β × σ × ViewDispatcher V :=
  match s.2.registrations[i]? with
  | none => (none, s)
  | some r =>
    let (answer, f) := act ⟨s.1, s.2.profiler, r⟩
    (some answer, f.store, { s.2 with
      registrations := s.2.registrations.set i f.target, profiler := f.profiler })

/-- The index of the first manager with an id. -/
def indexOf? (d : ViewDispatcher V) (id : String) : Option Nat :=
  d.registrations.findIdx? fun r => r.manager.id = id

/-- The first manager with an id. -/
def manager? (d : ViewDispatcher V) (id : String) : Option (ViewManager V) :=
  (d.registrations.find? fun r => r.manager.id = id).map Registration.manager

/-! ### Events -/

/-- Hand committed events to one registration. -/
def notify (src : ViewSource σ) (events : List Event) (f : Feeding σ V) :
    Option ViewDispatchError × Feeding σ V :=
  match f.target.mode with
  | .immediate => f.deliver src events
  | .eventual => (none, { f with target := { f.target with signalled := true } })

/-- Hand committed events to every manager. -/
def dispatch (src : ViewSource σ) : Dispatcher σ (ViewDispatcher V) := fun events s =>
  (visitAll (notify src events) s).2

/-- Bring every manager to the end of the log, after a purge if it is wanted: the first error. -/
def catchUpAll (src : ViewSource σ) (purge : Bool) (s : σ × ViewDispatcher V) :
    Option ViewDispatchError × σ × ViewDispatcher V :=
  let (errors, s) :=
    visitAll (fun f => if purge then f.replay src else f.catchUp src) s
  (errors.findSome? id, s)

/-- Build the views of one manager anew from the log. -/
def replay (src : ViewSource σ) (id : String) (s : σ × ViewDispatcher V) :
    Option ViewDispatchError × σ × ViewDispatcher V :=
  match s.2.indexOf? id with
  | none => (some (.unknownManager id), s)
  | some i =>
    let (answer, s) := visitAt i (Feeding.replay src) s
    (answer.bind fun err => err, s)

/-- The dispatcher, described. -/
def describe (d : ViewDispatcher V) : String :=
  Quoted.fields "ViewManagerEventDispatcher" [
    ("view_managers", Quoted.list (d.registrations.map fun r =>
      "(" ++ Quoted.quote r.manager.id ++ ", " ++ r.mode.name ++ ")")),
    ("started", toString d.started)]

@[simp] theorem length_visitList (act : Feeding σ V → β × Feeding σ V) (store : σ)
    (profiler : Profiler) (rs : List (Registration V)) :
    (visitList act store profiler rs).2.2.2.length = rs.length := by
  induction rs generalizing store profiler with
  | nil => rfl
  | cons r rest ih => simp [visitList, ih]

/-- Events reach every registration; none comes or goes. -/
@[simp] theorem length_registrations_dispatch (src : ViewSource σ) (events : List Event)
    (s : σ × ViewDispatcher V) :
    (dispatch src events s).2.registrations.length = s.2.registrations.length := by
  simp [dispatch, visitAll]

end ViewDispatcher

end Chronicle
