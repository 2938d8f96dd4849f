import Chronicle.Aggregate.Basic
import Chronicle.DispatchTable

namespace Chronicle

/-!
# Which views an event affects

* `Locator` — the ids of the views that an event affects, in a context.
* `Locator.global` — one view for all events.
* `Locator.perRoot` — one view for each aggregate root; a batch affects the views of all its events.
* `HandlerLocator` — functions by event type, found through the hierarchy of types.
-/

/-- Named values that locators may look at. -/
abbrev ViewContext := Dict Json

/-- The ids of the views that an event affects, in the order in which they are to be updated. -/
abbrev Locator := ViewContext → Event → Except AppError (List String)

namespace Locator

/-- The id of the view that all events affect. -/
def globalId : String := "__global__"

/-- One view for all events. -/
def global : Locator := fun _ _ => .ok [globalId]

/-- The root of an event, as a locator answers it. -/
def rootOf (e : Event) : Except AppError String :=
  match e.root with
  | .ok root => .ok root
  | .error err => .error (.event err)

/-- The roots of events in order. -/
def rootsOf : List Event → Except AppError (List String)
  | [] => .ok []
  | e :: rest =>
    match rootOf e with
    | .error err => .error err
    | .ok root =>
      match rootsOf rest with
      | .error err => .error err
      | .ok roots => .ok (root :: roots)

/-- One view for each root. A batch affects the views of its events, each once, in the order in
which their roots first come up. -/
def perRoot : Locator := fun _ e =>
  match e.batched? with
  | some (.ok events) => (rootsOf events).map List.eraseDups
  | some (.error err) => .error (.event err)
  | none => (rootOf e).map fun root => [root]

end Locator

/-- A locator that asks the function registered for the type of the event. -/
structure HandlerLocator where
  /-- The functions by event type. -/
  table : DispatchTable Locator

namespace HandlerLocator

/-- The locator of a list of registrations. -/
def build (hierarchy : Hierarchy) (functions : List (String × Locator)) : HandlerLocator :=
  ⟨DispatchTable.build hierarchy functions⟩

/-- The views that the function of an event's type names; none without a function. -/
def locate (l : HandlerLocator) : Locator := fun context e =>
  match l.table.handler? e.tag with
  | some function => function context e
  | none => .ok []

/-- The locator, described. -/
def describe (l : HandlerLocator) : String :=
  Quoted.fields "HandlerViewLocator" [("table", l.table.describe)]

end HandlerLocator

end Chronicle
