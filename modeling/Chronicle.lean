import Chronicle.Clock
import Chronicle.Config.Schema
import Chronicle.Engine
import Chronicle.Json.Printer
import Chronicle.Proofs.Log.History
import Chronicle.Sample.Requests
import Chronicle.Sample.Tally
import Chronicle.Store.Scripted
import Chronicle.Proofs.Log.Saving
import Chronicle.Proofs.Log.Runs
import Chronicle.Proofs.Replay.History
import Chronicle.Proofs.Replay.Snapshots
import Chronicle.Proofs.Replay.Loading
import Chronicle.Proofs.Command.Isolation
import Chronicle.Proofs.View.Applying
import Chronicle.Proofs.View.Feeding
import Chronicle.Proofs.View.Runs
import Chronicle.Proofs.Log.Outcome
import Chronicle.Proofs.View.Dispatching
import Chronicle.Proofs.Command.Attempts
import Chronicle.Proofs.Engine.ReadYourWrites
import Chronicle.Proofs.Command.Acquiring
import Chronicle.Proofs.Command.Numbering
import Chronicle.Proofs.Command.Contention
import Chronicle.Proofs.Command.Emissions
import Chronicle.Proofs.Command.Agreement
import Chronicle.Proofs.Command.Trials
import Chronicle.Proofs.Command.Courses
import Chronicle.Proofs.Command.Creation
import Chronicle.Proofs.View.Folding
import Chronicle.Proofs.View.Replaying
import Chronicle.Proofs.Replay.Keeping
import Chronicle.Proofs.Command.Provenance
import Chronicle.Proofs.Command.Noninterference
import Chronicle.Proofs.Log.Reading
import Chronicle.Proofs.Log.Allocation
import Chronicle.Proofs.Command.Provisional
import Chronicle.Proofs.View.CatchingUp
import Chronicle.Proofs.View.Isolation
import Chronicle.Proofs.View.Starting
import Chronicle.Proofs.Batch.Defects
import Chronicle.Proofs.View.Overlapping
import Chronicle.Proofs.View.Chunking
import Chronicle.Proofs.Log.Conflicts
import Chronicle.Proofs.Snapshot.Lookups
import Chronicle.Proofs.Snapshot.Worth
import Chronicle.Proofs.Replay.Windows
import Chronicle.Proofs.Command.Units
import Chronicle.Proofs.Hierarchy.Building
import Chronicle.Proofs.View.Resolving
import Chronicle.Proofs.View.Locating
import Chronicle.Proofs.View.Profiling
import Chronicle.Proofs.Command.Retries
