import Chronicle.Event.Payload

namespace Chronicle.Sample

/-!
# Typed events of the sample application

* `incremented`, `deposited`, `withdrawn` — events that carry one number.
* `modeSet` — an event that carries one text.
-/

/-- Events that carry a signed 64-bit number under a key. -/
def numberPayload (tag key : String) : PayloadType Int where
  tag := tag
  encode n := Json.record [(key, .int n)]
  decoder := Decoder.struct {
    fields := [Decoder.field key Decoder.word64 fun n _ => some n]
    start := (none : Option Int)
    complete := id }

/-- A counter was incremented by a number. -/
def incremented : PayloadType Int := numberPayload "Incremented" "by"

/-- An amount was deposited. -/
def deposited : PayloadType Int := numberPayload "Deposited" "amount"

/-- An amount was withdrawn. -/
def withdrawn : PayloadType Int := numberPayload "Withdrawn" "amount"

/-- A mode was set. -/
def modeSet : PayloadType String where
  tag := "ModeSet"
  encode mode := Json.record [("mode", .str mode)]
  decoder := Decoder.struct {
    fields := [Decoder.field "mode" Decoder.string fun s _ => some s]
    start := (none : Option String)
    complete := id }

end Chronicle.Sample
