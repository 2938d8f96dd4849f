import Chronicle.Config.Basic

namespace Chronicle

/-!
# The schema of the configuration

* `Schema.Setting`, `Schema.Group` — settings and groups of settings with their descriptions.
* `Config.schema` — the JSON schema (draft 7) of a configuration document.
-/

namespace Schema

/-- A whole number that can be configured. -/
structure Setting where
  /-- The key of the setting. -/
  name : String
  /-- What the setting is for. -/
  description : String
  /-- The name of the number's range. -/
  format : String
  /-- The value if none is given. -/
  default : Nat

/-- Settings that stand together. -/
structure Group where
  /-- The key of the group. -/
  name : String
  /-- The name under which the group is defined. -/
  title : String
  /-- What the group is for. -/
  description : String
  /-- The settings. -/
  settings : List Setting

/-- The schema of a setting. -/
def Setting.json (s : Setting) : Json := Json.record [
  ("description", .str s.description),
  ("default", .int s.default),
  ("type", .str "integer"),
  ("format", .str s.format),
  ("minimum", .float 0)]

/-- The schema of a group as it is defined. -/
def Group.definition (g : Group) : Json := Json.record [
  ("description", .str g.description),
  ("type", .str "object"),
  ("properties", Json.record (g.settings.map fun s => (s.name, s.json)))]

/-- The schema of a group as it is used: the definition with a description and the defaults. -/
def Group.property (g : Group) : Json := Json.record [
  ("description", .str g.description),
  ("default", Json.record (g.settings.map fun s => (s.name, .int s.default))),
  ("allOf", .arr [Json.record [("$ref", .str ("#/definitions/" ++ g.title))]])]

/-- The schema of a document that consists of groups. -/
def document (title description : String) (groups : List Group) : Json := Json.record [
  ("$schema", .str "http://json-schema.org/draft-07/schema#"),
  ("title", .str title),
  ("description", .str description),
  ("type", .str "object"),
  ("properties", Json.record (groups.map fun g => (g.name, g.property))),
  ("definitions", Json.record (groups.map fun g => (g.title, g.definition)))]

/-- The settings for commands. -/
def commands : Group where
  name := "command_processing"
  title := "CommandProcessingConfig"
  description := "Command processing settings"
  settings := [⟨"max_retries", "Retries after a concurrency conflict before giving up", "uint32",
    ({} : CommandConfig).maxRetries⟩]

/-- The settings for snapshots. -/
def snapshots : Group where
  name := "snapshots"
  title := "SnapshotConfig"
  description := "Snapshot cache settings"
  settings := [
    ⟨"approximate_max_entries", "Approximate upper bound on cached snapshots; 0 disables the cache",
      "uint", ({} : SnapshotConfig).maxEntries⟩,
    ⟨"replay_threshold", "A reconstructed root is cached when more events than this were replayed",
      "uint", ({} : SnapshotConfig).replayThreshold⟩]

/-- The settings for views. -/
def views : Group where
  name := "views"
  title := "ViewConfig"
  description := "View dispatch settings"
  settings := [
    ⟨"max_items_per_batch", "Events read from the store per catch-up chunk", "uint",
      ({} : ViewConfig).maxItemsPerBatch⟩,
    ⟨"wait_poll_interval_ms", "How often waiting callers re-check view positions", "uint64",
      ({} : ViewConfig).waitPollMs⟩,
    ⟨"idle_poll_interval_ms", "How often background catch-up runs without a local commit signal",
      "uint64", ({} : ViewConfig).idlePollMs⟩]

end Schema

/-- The schema of a configuration document. -/
def Config.schema : Json :=
  Schema.document "RuntimeConfig" "Top-level runtime configuration"
    [Schema.commands, Schema.snapshots, Schema.views]

end Chronicle
