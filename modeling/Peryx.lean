import Peryx.Availability.AnalyticsReplication
import Peryx.Availability.Circuit
import Peryx.Availability.OrphanPurge
import Peryx.Availability.PlacementFence
import Peryx.Availability.ReclamationReady
import Peryx.Blob.Durability
import Peryx.Core.Path
import Peryx.Identity.Glob
import Peryx.Identity.GrantLedger
import Peryx.Identity.TokenHistory
import Peryx.Ownership.Singleton
import Peryx.Ownership.WriteLease
import Peryx.Policy.DecisionHistory
import Peryx.Policy.RevocationService
import Peryx.Pql.NonInterference
import Peryx.Pql.Ordering
import Peryx.Pql.Pages
import Peryx.Raft.SnapshotNames
import Peryx.Raft.TransferAudit
import Peryx.Replica.PullRounds
import Peryx.Storage.ExactlyOnce
import Peryx.Storage.IntentAccounting
import Peryx.Storage.QuotaIndex
import Peryx.Storage.QuotaLimits
import Peryx.Storage.RevocationIndex
import Peryx.Webhook.OutboxRuns
import Peryx.Pql.Membership
import Peryx.Replica.JsonDepth
import Peryx.Replica.PageBound
import Peryx.Replica.Traceparent
import Peryx.Storage.StagedTransfer
import Peryx.Blob.Chunked
import Peryx.Search.Plain
