import Chronicle.Json.Decoder
import Chronicle.Text.Quoted
import Chronicle.Time.Duration

namespace Chronicle

/-!
# Configuration

* `Config` — the settings of a runtime. Every setting has a default, so any part of a document may
  be left out.
* `Config.check` — the values that a runtime cannot work with.
* `Config.read` — reads and checks a document.
-/

/-- Settings for commands. -/
structure CommandConfig where
  /-- How often a command is tried again after a conflict. -/
  maxRetries : Nat := 10
deriving DecidableEq

/-- Settings for snapshots. -/
structure SnapshotConfig where
  /-- About how many snapshots are kept; none at all if it is 0. -/
  maxEntries : Nat := 1000
  /-- A root is put into the cache if more events than this were replayed. -/
  replayThreshold : Nat := 10
deriving DecidableEq

/-- Settings for views. -/
structure ViewConfig where
  /-- How many events are read from the store at a time. -/
  maxItemsPerBatch : Nat := 1000
  /-- How often waiting callers look at the positions, in milliseconds. -/
  waitPollMs : Nat := 20
  /-- How often views catch up without a signal, in milliseconds. -/
  idlePollMs : Nat := 1000
deriving DecidableEq

/-- The settings of a runtime. -/
structure Config where
  /-- Settings for commands. -/
  commands : CommandConfig := {}
  /-- Settings for snapshots. -/
  snapshots : SnapshotConfig := {}
  /-- Settings for views. -/
  views : ViewConfig := {}
deriving DecidableEq

/-- Why a configuration cannot be used. -/
inductive ConfigError where
  /-- The document cannot be read. -/
  | parse (fault : Json.Fault)
  /-- A value is out of range. -/
  | invalid (field reason : String)
deriving DecidableEq

/-- The error as a sentence. -/
def ConfigError.message : ConfigError → String
  | parse _ => "Failed to parse configuration"
  | invalid field reason => s!"Invalid configuration value for {field}: {reason}"

/-- How long waiting callers sleep between two looks. -/
def ViewConfig.waitPoll (c : ViewConfig) : Duration := .ofMillis c.waitPollMs

/-- How long views sleep without a signal. -/
def ViewConfig.idlePoll (c : ViewConfig) : Duration := .ofMillis c.idlePollMs

namespace Config

/-! ### Checking -/

/-- A setting has to be at least 1. -/
def requirePositive (field : String) (n : Nat) : Except ConfigError Unit :=
  if n = 0 then .error (.invalid field "must be at least 1") else .ok ()

/-- Check the ranges of values. -/
def check (c : Config) : Except ConfigError Unit := do
  requirePositive "views.max_items_per_batch" c.views.maxItemsPerBatch
  requirePositive "views.wait_poll_interval_ms" c.views.waitPollMs
  requirePositive "views.idle_poll_interval_ms" c.views.idlePollMs

theorem check_eq_ok_iff (c : Config) :
    c.check = .ok () ↔
      0 < c.views.maxItemsPerBatch ∧ 0 < c.views.waitPollMs ∧ 0 < c.views.idlePollMs := by
  simp only [check, requirePositive, Nat.pos_iff_ne_zero]
  by_cases h₁ : c.views.maxItemsPerBatch = 0 <;> by_cases h₂ : c.views.waitPollMs = 0 <;>
    by_cases h₃ : c.views.idlePollMs = 0 <;> simp [h₁, h₂, h₃, bind, Except.bind]

/-! ### JSON -/

/-- Reads the settings for commands. -/
def commandDecoder : Decoder CommandConfig := Decoder.struct {
  fields := [Decoder.field "max_retries" Decoder.natural32 fun n c => { c with maxRetries := n }]
  start := ({} : CommandConfig)
  complete := some }

/-- Reads the settings for snapshots. -/
def snapshotDecoder : Decoder SnapshotConfig := Decoder.struct {
  fields := [
    Decoder.field "approximate_max_entries" Decoder.natural64 fun n c => { c with maxEntries := n },
    Decoder.field "replay_threshold" Decoder.natural64 fun n c => { c with replayThreshold := n }]
  start := ({} : SnapshotConfig)
  complete := some }

/-- Reads the settings for views. -/
def viewDecoder : Decoder ViewConfig := Decoder.struct {
  fields := [
    Decoder.field "max_items_per_batch" Decoder.natural64
      fun n c => { c with maxItemsPerBatch := n },
    Decoder.field "wait_poll_interval_ms" Decoder.natural64 fun n c => { c with waitPollMs := n },
    Decoder.field "idle_poll_interval_ms" Decoder.natural64 fun n c => { c with idlePollMs := n }]
  start := ({} : ViewConfig)
  complete := some }

/-- Reads a configuration. -/
def decoder : Decoder Config := Decoder.struct {
  fields := [
    Decoder.field "command_processing" commandDecoder fun a c => { c with commands := a },
    Decoder.field "snapshots" snapshotDecoder fun a c => { c with snapshots := a },
    Decoder.field "views" viewDecoder fun a c => { c with views := a }]
  start := ({} : Config)
  complete := some }

/-- Read and check a document. -/
def read (text : String) : Except ConfigError Config :=
  match decoder.run text with
  | .error fault => .error (.parse fault)
  | .ok c =>
    match c.check with
    | .error err => .error err
    | .ok _ => .ok c

/-- The settings for commands as an object. -/
def commandJson (c : CommandConfig) : Json := Json.record [("max_retries", .int c.maxRetries)]

/-- The settings for snapshots as an object. -/
def snapshotJson (c : SnapshotConfig) : Json := Json.record [
  ("approximate_max_entries", .int c.maxEntries), ("replay_threshold", .int c.replayThreshold)]

/-- The settings for views as an object. -/
def viewJson (c : ViewConfig) : Json := Json.record [
  ("max_items_per_batch", .int c.maxItemsPerBatch),
  ("wait_poll_interval_ms", .int c.waitPollMs),
  ("idle_poll_interval_ms", .int c.idlePollMs)]

/-- The configuration as an object. -/
def json (c : Config) : Json := Json.record [
  ("command_processing", commandJson c.commands),
  ("snapshots", snapshotJson c.snapshots),
  ("views", viewJson c.views)]

/-- The configuration, described. -/
def describe (c : Config) : String :=
  Quoted.fields "RuntimeConfig" [
    ("command_processing", Quoted.fields "CommandProcessingConfig" [
      ("max_retries", toString c.commands.maxRetries)]),
    ("snapshots", Quoted.fields "SnapshotConfig" [
      ("approximate_max_entries", toString c.snapshots.maxEntries),
      ("replay_threshold", toString c.snapshots.replayThreshold)]),
    ("views", Quoted.fields "ViewConfig" [
      ("max_items_per_batch", toString c.views.maxItemsPerBatch),
      ("wait_poll_interval_ms", toString c.views.waitPollMs),
      ("idle_poll_interval_ms", toString c.views.idlePollMs)])]

end Config

end Chronicle
