import Chronicle.Hierarchy
import Chronicle.Text.Quoted

namespace Chronicle

/-!
# Finding the handler of an event type

* `DispatchTable H` — handlers by the tag they are registered under, in a hierarchy of types.
* `DispatchTable.search` — the handler of the first candidate of a tag that has one.
* `DispatchTable.resolve` — the same answer, remembered for the next time.
-/

/-- Handlers by registered tag, with the answers found so far. -/
structure DispatchTable (H : Type) where
  /-- Which tags an event type matches. -/
  hierarchy : Hierarchy
  /-- The handlers by registered tag. -/
  handlers : Table String H
  /-- The answers found so far. -/
  resolved : Table String (Option H) := Table.empty

namespace DispatchTable

variable {H : Type}

/-- The handler of the first candidate of a tag that has one. -/
def search (hierarchy : Hierarchy) (handlers : Table String H) (tag : String) : Option H :=
  (hierarchy.candidates tag).findSome? handlers.get?

/-- The handler of a tag, and the table that remembers the answer. -/
def resolve (t : DispatchTable H) (tag : String) : Option H × DispatchTable H :=
  match t.resolved.get? tag with
  | some answer => (answer, t)
  | none =>
    let answer := search t.hierarchy t.handlers tag
    (answer, { t with resolved := t.resolved.insert tag answer })

/-- The handler of a tag. -/
def handler? (t : DispatchTable H) (tag : String) : Option H := (t.resolve tag).1

/-- The table after a tag was asked for. -/
def asked (t : DispatchTable H) (tag : String) : DispatchTable H := (t.resolve tag).2

/-- Whether a tag has a handler. -/
def handles (t : DispatchTable H) (tag : String) : Bool := (t.handler? tag).isSome

/-- The tags with registered handlers. -/
def subscribed (t : DispatchTable H) : List String := t.handlers.keys

/-- Whether nothing is registered. -/
def isEmpty (t : DispatchTable H) : Bool := t.handlers.isEmpty

/-- Number of remembered answers. -/
def memoSize (t : DispatchTable H) : Nat := t.resolved.size

/-- The table of a list of registrations: the last one of a tag counts. Every declared and every
registered tag is resolved at once. -/
def build (hierarchy : Hierarchy) (registrations : List (String × H)) : DispatchTable H :=
  let handlers := Table.ofList registrations
  (hierarchy.declaredTypes ++ handlers.keys).foldl asked { hierarchy, handlers }

/-- The table, described. -/
def describe (t : DispatchTable H) : String :=
  Quoted.fields "DispatchTable" [
    ("subscribed", Quoted.list (t.subscribed.map Quoted.quote)),
    ("resolved", toString t.memoSize)]

@[simp] theorem handlers_asked (t : DispatchTable H) (tag : String) :
    (t.asked tag).handlers = t.handlers := by
  unfold asked resolve
  split <;> rfl

@[simp] theorem hierarchy_asked (t : DispatchTable H) (tag : String) :
    (t.asked tag).hierarchy = t.hierarchy := by
  unfold asked resolve
  split <;> rfl

end DispatchTable

end Chronicle
