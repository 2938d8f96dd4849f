import Chronicle.Command.Program

namespace Chronicle

/-!
# Failed commands

* `CommandFailure` — why a command failed.
* `CommandFailure.ofExecution` — sorts the error that a command ends with: an error of the
  repository is one whether or not the command passed it on.
* `CommandError` — a failure with the command and the number of attempts.
-/

/-- Why a command failed. -/
inductive CommandFailure where
  /-- The command or an aggregate refuses. -/
  | execution (cause : ExecutionError)
  /-- A root could not be loaded. -/
  | repository (cause : RepositoryError)
  /-- The store failed. -/
  | store (cause : StoreError)
  /-- The batch is not numbered as it should. -/
  | integrity (cause : BatchError)
  /-- Every attempt met a conflict. -/
  | conflict (cause : Conflict)
deriving DecidableEq

namespace CommandFailure

/-- The failure of a command that ends with an error. -/
def ofExecution : ExecutionError → CommandFailure
  | .acquire (.repository cause) => repository cause
  | err => execution err

/-- The failure as a sentence. -/
def message : CommandFailure → String
  | execution cause => s!"Command execution failed: {cause.message}"
  | repository cause => s!"Repository error: {cause.message}"
  | store cause => s!"Event store error: {cause.message}"
  | integrity cause => s!"Batch integrity violation: {cause.message}"
  | conflict cause => s!"Retries exhausted: {cause.message}"

end CommandFailure

/-- A command failed for good. -/
structure CommandError where
  /-- The text that names the command. -/
  label : String
  /-- Number of attempts, as it was counted: an unsigned 32-bit number. -/
  attempts : Nat
  /-- Why the last attempt failed. -/
  cause : CommandFailure
deriving DecidableEq

namespace CommandError

/-- The error as a sentence. -/
def message (e : CommandError) : String :=
  s!"Command {e.label} failed after {e.attempts} attempt(s): {e.cause.message}"

/-- The command met a conflict each time. -/
def isConflict (e : CommandError) : Bool :=
  match e.cause with
  | .conflict _ => true
  | _ => false

/-- The batch was not numbered as it should. -/
def isIntegrityViolation (e : CommandError) : Bool :=
  match e.cause with
  | .integrity _ | .store (.integrity _) => true
  | _ => false

/-- A root that is needed does not exist. -/
def isNotFound (e : CommandError) : Bool :=
  match e.cause with
  | .repository cause => cause.isNotFound
  | _ => false

end CommandError

end Chronicle
