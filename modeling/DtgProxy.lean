import DtgProxy.Shard.SnapshotIsolation
import DtgProxy.Transaction.TimestampGuarantees
import DtgProxy.Meta.Interleaving
import DtgProxy.Control.MigrationCompletion
import DtgProxy.Control.CatalogReplica
import DtgProxy.Language.CompileTotal
import DtgProxy.Language.Scoping
import DtgProxy.Storage.FjallApply
import DtgProxy.Execution.ExtensionRebuild
import DtgProxy.Execution.GatewaySnapshots
import DtgProxy.Execution.ScanBound
import DtgProxy.Shard.HomeDecisions
import DtgProxy.Transaction.OverlayValidation
import DtgProxy.Query.OverlayExecution
import DtgProxy.Shard.ConflictHistory
import DtgProxy.Shard.Cutover
import DtgProxy.Transaction.Participants
import DtgProxy.Shard.RaftStore
import DtgProxy.Control.ActionFencing
import DtgProxy.Analytics.Traversal
