import WasmAgent.Agent.ContextSafety
import WasmAgent.Queue.Concurrency
import WasmAgent.Queue.Idempotence
import WasmAgent.Queue.Budgets
import WasmAgent.Queue.Codec
import WasmAgent.State.Rehearsals
import WasmAgent.Host.Finishing
import WasmAgent.Host.Isolation
import WasmAgent.Bus.Access
import WasmAgent.Bus.Stream
import WasmAgent.Operation.Reconciliation
import WasmAgent.Mesh.Execution
import WasmAgent.Bounded.References
import WasmAgent.Mesh.Interrupted
import WasmAgent.Watchdog.Requests
import WasmAgent.Watchdog.Records
import WasmAgent.Serve.Lifecycle
import WasmAgent.Watchdog.Refinement
import WasmAgent.Sync.Convergence
import WasmAgent.Sync.Forks
import WasmAgent.Sync.SearchRows
import WasmAgent.Stt.Audio
import WasmAgent.Stt.Worker
import WasmAgent.Sink.Frames
import WasmAgent.Sink.Rotation
import WasmAgent.Rendezvous.Once
import WasmAgent.Rendezvous.Correlation
import WasmAgent.Rendezvous.Enrollment
import WasmAgent.State.Renames
import WasmAgent.Agent.Undoing
import WasmAgent.Queue.Streaming
import WasmAgent.Queue.Alerts
import WasmAgent.Queue.Ordering
import WasmAgent.Whatsapp.Revoked
import WasmAgent.Selfloop.Runs
import WasmAgent.Grant.Globs
import WasmAgent.Grant.Approvals
import WasmAgent.Grant.Waits
import WasmAgent.Bounded.Limits
import WasmAgent.Bounded.Quota
import WasmAgent.Bus.Atomic
import WasmAgent.Bus.Unchanged
import WasmAgent.Operation.Redact
import WasmAgent.Mesh.Cache
import WasmAgent.Whatsapp.Outbox
import WasmAgent.Jobs.Lanes
