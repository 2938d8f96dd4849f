import Chronicle.UnitOfWork

namespace Chronicle

/-!
# What commands do

* `Program κ S` — the steps of a command: it acquires roots, emits events on them, looks at what
  comes back, and ends well or with an error.
* `Program.run` — executes a command in a unit of work.
* `Command κ S` — a program with the text that names it in errors and with metadata for its events.

A command changes roots only by emitting events.
-/

/-- Why a command could not be executed. -/
inductive ExecutionError where
  /-- The command or an aggregate refuses. -/
  | app (cause : AppError)
  /-- A root could not be acquired. -/
  | acquire (cause : UnitOfWorkError)
deriving DecidableEq

/-- The error as a sentence. -/
def ExecutionError.message : ExecutionError → String
  | app cause => cause.message
  | acquire cause => cause.message

/-- The steps of a command that works on roots of kinds in `κ`. -/
inductive Program (κ S : Type) where
  /-- The command is done. -/
  | done
  /-- The command gives up. -/
  | fail (err : ExecutionError)
  /-- The command acquires a root and goes on with the answer. -/
  | acquire (mode : Acquisition) (kind : κ) (id : String)
      (next : Except UnitOfWorkError (Option (Root S)) → Program κ S)
  /-- The command emits an event on a root it has acquired and goes on with the root as it is then
  and the error of the event; there is no answer if the root was not acquired. -/
  | emit (id : String) (e : Event) (next : Option (Root S × Option AppError) → Program κ S)

namespace Program

variable {σ κ S : Type}

/-- Execute a command in a unit of work: the error if the command gives up, the unit of work and the
backing afterwards. -/
def run [DecidableEq κ] (types : κ → AggregateType S) (repo : Repository σ) :
    Program κ S → UnitOfWork κ S → Backing σ →
    Option ExecutionError × UnitOfWork κ S × Backing σ
  | done, u, b => (none, u, b)
  | fail err, u, b => (some err, u, b)
  | acquire mode kind id next, u, b =>
    match u.acquire types repo mode kind id b with
    | (answer, u, b) => run types repo (next answer) u b
  | emit id e next, u, b =>
    match u.emit types id e with
    | (answer, u) => run types repo (next answer) u b

/-- Acquire a root and go on with it; give up if it cannot be acquired. -/
def acquiring (mode : Acquisition) (kind : κ) (id : String)
    (next : Option (Root S) → Program κ S) : Program κ S :=
  acquire mode kind id fun
    | .ok root => next root
    | .error err => fail (.acquire err)

/-- Emit events on a root in order, up to the first one that is refused, and give up with its error;
then go on. -/
def emitAll (id : String) (last : Program κ S) : List Event → Program κ S
  | [] => last
  | e :: rest => emit id e fun
    | some (_, some err) => fail (.app err)
    | _ => emitAll id last rest

/-- Do to an acquired root what a script says, and go on. -/
def ofScript (id : String) (last : Program κ S) : Script S → Program κ S
  | .done => last
  | .fail err => fail (.app err)
  | .emit e next => emit id e fun
    | some (root, err) => ofScript id last (next root err)
    | none => last

/-- The program of a command on one root: the root is loaded, and created if it has no history. -/
def single (kind : κ) (id : String) (execute : Root S → Script S) : Program κ S :=
  acquiring .load kind id fun
    | some root => ofScript id done (execute root)
    | none => done

end Program

/-- A request to change roots. The label, the program and the metadata are fixed: every attempt executes
the same `program` from its start, on roots that it acquires anew, and stamps the same `metadata`. What
an attempt does can differ from the one before only by the answers that its acquisitions and emissions
get. -/
structure Command (κ S : Type) where
  /-- The text that names the command in errors. -/
  label : String
  /-- What the command does, in every attempt. -/
  program : Program κ S
  /-- Metadata for every event of the command that does not have them already, in every attempt. -/
  metadata : Metadata := Dict.empty

end Chronicle
