import Chronicle.Sample.Payloads
import Chronicle.View.Manager

namespace Chronicle.Sample

/-!
# Views of the sample application

* `Tally` — a view that counts events, adds up amounts and keeps a log.
* `Tally.Action` — what a tally can make of an event; `Tally.subscription` registers one.
* `Place` — ways to name the views that an event affects.
-/

/-- What a view has seen. -/
structure Tally where
  /-- Number of events. -/
  count : Int := 0
  /-- Sum of amounts. -/
  sum : Int := 0
  /-- Lines about events. -/
  log : List String := []
deriving DecidableEq

namespace Tally

/-- What a view makes of an event. -/
inductive Action where
  /-- Count it. -/
  | count
  /-- Add its amount. -/
  | sum
  /-- Write it down. -/
  | log
  /-- Refuse it. -/
  | fail
  /-- Add its amount unless that is negative. -/
  | guard
  /-- Take the events of a batch one by one. -/
  | batch
  /-- Add a deposited amount. -/
  | typedDeposited
  /-- Subtract a withdrawn amount. -/
  | typedWithdrawn
deriving DecidableEq

/-- The amount that an event speaks of. -/
def amountOf (e : Event) : Int :=
  (((e.payload.get? "amount").bind Json.int?).filter
    fun n => decide (Word64.Fits n)).getD 0

/-- Write a line. -/
def note (t : Tally) (line : String) : Tally := { t with log := t.log ++ [line] }

/-- Take one event of a batch. -/
def takeInner (t : Tally) (e : Event) : Tally :=
  ({ t with count := t.count + 1, sum := t.sum + amountOf e } : Tally).note e.display

/-- Carry out an action. -/
def perform (a : Action) : ViewHandler Tally :=
  match a with
  | .count => fun t _ => .ok { t with count := t.count + 1 }
  | .sum => fun t e => .ok { t with sum := t.sum + amountOf e }
  | .log => fun t e => .ok (t.note e.display)
  | .fail => fun _ e => .error (.text s!"handler refused {e.display}")
  | .guard => fun t e =>
    if amountOf e < 0 then .error (.text s!"negative amount {amountOf e}")
    else .ok { t with sum := t.sum + amountOf e }
  | .batch => fun t e =>
    match e.batched? with
    | none => .ok (t.note s!"single {e.display}")
    | some (.error err) => .error (.event err)
    | some (.ok events) => .ok (events.foldl takeInner t)
  | .typedDeposited => ViewHandler.typed deposited fun t amount e =>
    .ok (({ t with sum := t.sum + amount } : Tally).note s!"deposit {amount} {e.display}")
  | .typedWithdrawn => ViewHandler.typed withdrawn fun t amount e =>
    .ok (({ t with sum := t.sum - amount } : Tally).note s!"withdraw {amount} {e.display}")

/-- The subscription of an action to a tag, where `*` stands for every event. A typed action is
subscribed to the tag of its type. -/
def subscription (tag : String) (a : Action) : String × ViewHandler Tally :=
  (match a with
    | .typedDeposited => deposited.tag
    | .typedWithdrawn => withdrawn.tag
    | _ => if tag = "*" then Event.universalTag else tag,
  perform a)

end Tally

/-! ### Places -/

/-- How to name the views that an event affects. -/
inductive Place where
  /-- The root of the event. -/
  | root
  /-- These views. -/
  | fixed (ids : List String)
  /-- The text in the payload under a key. -/
  | field (name : String)
  /-- The root, qualified by a text of the context, or by `default` where there is none. -/
  | context (key : String)
  /-- No views can be named. -/
  | fail

/-- The views that an event affects. -/
def Place.locate (p : Place) : Locator := fun context e =>
  match p with
  | .root => (Locator.rootOf e).map fun root => [root]
  | .fixed ids => .ok ids
  | .field name =>
    match (e.payload.get? name).bind Json.str? with
    | some id => .ok [id]
    | none => .error (.text s!"no {name} in {e.display}")
  | .context key =>
    let qualifier := ((context.get? key).bind Json.str?).getD "default"
    (Locator.rootOf e).map fun root => [qualifier ++ "/" ++ root]
  | .fail => .error (.text s!"no views for {e.display}")

end Chronicle.Sample
