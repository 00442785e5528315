import BatchKit.Dict
import BatchKit.Types
import BatchKit.Naming
import BatchKit.Orchestrator
import BatchKit.Hotswap
import BatchKit.System
import BatchKit.Accounting
import BatchKit.Invariant
import BatchKit.Batch
import BatchKit.Callbacks
import BatchKit.Completion
import BatchKit.Fleet
import BatchKit.Reconcile
import BatchKit.Reentrant
import BatchKit.Stop
import BatchKit.RunSummary
import BatchKit.Shutdown
import BatchKit.Drain
import BatchKit.Lifecycle
import BatchKit.MasterLoop
import BatchKit.Results
