import Chronicle.Aggregate.Basic
import Chronicle.Sample.Payloads

namespace Chronicle.Sample

/-!
# Aggregates of the sample application

* `Kind.counter` — adds up numbers, and knows whether it was created by its hook.
* `Kind.account` — a balance that never becomes negative.
* `Kind.brittle` — keeps a mode, and fails in every way a mode may ask for.
* `aggregateType` — the aggregate type of each kind, over the states of all of them.
-/

/-- The kinds of aggregates. -/
inductive Kind where
  | counter
  | account
  | brittle
deriving DecidableEq

/-- The state of an aggregate. -/
inductive State where
  /-- The number of a counter, and whether it was created. -/
  | counter (value : Int) (created : Bool)
  /-- The balance of an account. -/
  | account (balance : Int)
  /-- The mode of a brittle aggregate. -/
  | brittle (mode : String)
deriving DecidableEq

instance : Inhabited State := ⟨.counter 0 false⟩

namespace Kind

/-- The name of a kind. -/
def name : Kind → String
  | counter => "Counter"
  | account => "Account"
  | brittle => "Brittle"

/-- The kind with a name. -/
def ofName? (s : String) : Option Kind := [counter, account, brittle].find? fun k => k.name = s

/-- The state without any event. -/
def initial : Kind → State
  | counter => .counter 0 false
  | account => .account 0
  | brittle => .brittle ""

end Kind

/-! ### Applying events -/

/-- The payload of an event; in aggregates a payload that cannot be read is told by its tag. -/
def payloadOf {P : Type} (t : PayloadType P) (e : Event) : Except AppError P :=
  match e.readPayload t with
  | .ok p => .ok p
  | .error _ => .error (.text s!"bad {t.tag} payload")

/-- The tag of the event that creates a counter. -/
def counterCreated : String := "CounterCreated"

/-- Apply an event to a counter. -/
def applyCounter (value : Int) (created : Bool) (e : Event) : Except AppError State :=
  if e.tag = counterCreated then .ok (.counter value true)
  else if e.tag = incremented.tag then
    match payloadOf incremented e with
    | .error err => .error err
    | .ok n =>
      if Word64.Fits (value + n) then .ok (.counter (value + n) created)
      else .error (.text "counter overflow")
  else .ok (.counter value created)

/-- Change a balance by an amount. -/
def changeBalance (balance amount : Int) : Except AppError State :=
  if ¬ Word64.Fits amount ∨ ¬ Word64.Fits (balance + amount) then .error (.text "balance overflow")
  else if balance + amount < 0 then
    .error (.text s!"insufficient funds: {balance} available")
  else .ok (.account (balance + amount))

/-- Apply an event to an account. -/
def applyAccount (balance : Int) (e : Event) : Except AppError State :=
  if e.tag = deposited.tag then
    match payloadOf deposited e with
    | .error err => .error err
    | .ok amount => changeBalance balance amount
  else if e.tag = withdrawn.tag then
    match payloadOf withdrawn e with
    | .error err => .error err
    | .ok amount => changeBalance balance (-amount)
  else .ok (.account balance)

/-- Apply an event to a brittle aggregate, which takes over the mode before it refuses it. -/
def applyBrittle (mode : String) (e : Event) : State × Option AppError :=
  if e.tag = modeSet.tag then
    match payloadOf modeSet e with
    | .error err => (.brittle mode, some err)
    | .ok mode => (.brittle mode, if mode = "reject" then some (.text "mode rejected") else none)
  else (.brittle mode, none)

/-- The new state, or the old one with the error. -/
def keepOnError (old : State) : Except AppError State → State × Option AppError
  | .ok state => (state, none)
  | .error err => (old, some err)

/-- Apply an event to a state. -/
def applyState (s : State) (e : Event) : State × Option AppError :=
  match s with
  | .counter value created => keepOnError s (applyCounter value created e)
  | .account balance => keepOnError s (applyAccount balance e)
  | .brittle mode => applyBrittle mode e

/-! ### Snapshots -/

/-- The fields of a state. -/
def State.json : State → Json
  | counter value created => Json.record [("value", .int value), ("created", .bool created)]
  | account balance => Json.record [("balance", .int balance)]
  | brittle mode => Json.record [("mode", .str mode)]

/-- The form of a state in a snapshot. A brittle aggregate is stored as its mode, if it may be
stored at all. -/
def encodeState : State → Option Json
  | .brittle mode => if mode = "no-serialize" then none else some (.str mode)
  | s => some s.json

/-- The truth value that a value is. -/
def bool? : Json → Option Bool
  | .bool b => some b
  | _ => none

/-- Reads the state of a kind from its form in a snapshot. -/
def decodeState : Kind → Json → Option State
  | .counter, v => do
    let value ← (v.get? "value").bind Json.int?
    let created ← (v.get? "created").bind bool?
    return .counter value created
  | .account, v => ((v.get? "balance").bind Json.int?).map .account
  | .brittle, v => (v.str?.filter fun mode => mode ≠ "no-deserialize").map .brittle

/-- What happens when a root is created: a counter says so, and a brittle aggregate refuses ids that
start with `bad`. -/
def creation : Kind → String → Script State
  | .counter, _ => Script.emitAll .done [Event.new counterCreated .null]
  | .account, _ => .done
  | .brittle, id =>
    if id.startsWith "bad" then .fail (.text s!"creation refused for {id}") else .done

/-- The aggregate type of a kind. -/
def aggregateType (k : Kind) : AggregateType State where
  name := k.name
  initial := k.initial
  apply := applyState
  encode := encodeState
  decode := decodeState k
  created root := creation k root.id

/-- A root as a snapshot shows it: with the numbers of its last event and the state that one event
makes of the initial one; without history if the sequence number is negative. -/
def rootAfter (k : Kind) (id : String) (e : Event) (sequence position : Int) : Root State :=
  if sequence < 0 then Root.new (aggregateType k) id
  else { id, sequence, cutoff := position, state := (applyState k.initial e).1 }

/-- The root as an object, with its uncommitted events. -/
def rootJson (r : Root State) : Json := Json.record [
  ("id", .str r.id), ("seq", .int r.sequence), ("cutoff", .int r.cutoff),
  ("has_history", .bool r.hasHistory), ("state", r.state.json),
  ("uncommitted", .arr (r.uncommitted.map Event.json))]

end Chronicle.Sample
