import Knowledger.Lib.Program
import Knowledger.Lib.Json
import Knowledger.Lib.Uri
import Knowledger.Canonical
import Knowledger.Keys
import Knowledger.Records
import Knowledger.Checks
import Knowledger.Validation
import Knowledger.WellFormed
import Knowledger.WellFormedRevision
import Knowledger.WellFormedConfig
import Knowledger.Resolve
import Knowledger.Engine
import Knowledger.State
import Knowledger.Reads
import Knowledger.Steps
import Knowledger.Activation
import Knowledger.Publishing
import Knowledger.Transition
import Knowledger.Effects
import Knowledger.Invariant
import Knowledger.Preservation
import Knowledger.Manifest
import Knowledger.Resolution
import Knowledger.Runs
import Knowledger.Lib.Sha256
import Knowledger.Requests
import Knowledger.Guarantees
import Knowledger.Once
import Knowledger.Dependencies
import Knowledger.Lossless
import Knowledger.Lib.Derivation
import Knowledger.Eligibility
import Knowledger.ActivatedSlots
import Knowledger.Serializability
import Knowledger.Lib.Machine
import Knowledger.Lib.MemoSearch
import Knowledger.Lib.JsonEquality
import Knowledger.Lib.Bfs
import Knowledger.Lib.JsonNumber
import Knowledger.Lib.JsonText
import Knowledger.Lib.Der
import Knowledger.Api.Paging
import Knowledger.Api.RevisionImpact
import Knowledger.Lib.Lcs
import Knowledger.Web.LineDiff
import Knowledger.Web.RevisionDiff
import Knowledger.Http.GracefulClose
import Knowledger.Fabric.BlockHeader
import Knowledger.Fabric.Attestation
import Knowledger.Fabric.ApplicationLedger
import Knowledger.Fabric.Freshness
import Knowledger.Fabric.Abandonment
import Knowledger.Fabric.Gateway
import Knowledger.Fabric.Outbox
import Knowledger.Storage.StateValidation
import Knowledger.Storage.DeliveryContract
import Knowledger.Storage.SlackNotices
import Knowledger.Storage.SlackChanges
import Knowledger.Storage.SlackOnce
import Knowledger.Storage.ReviewDelivery
import Knowledger.Storage.ReviewOnce
import Knowledger.Connectors.TokenOnce
import Knowledger.Fabric.Acknowledged
import Knowledger.Auth.CurrentSession
import Knowledger.Connectors.SourceRuns
import Knowledger.Fabric.RenewalHistory
import Knowledger.Api.Commands
import Knowledger.StrictJson
import Knowledger.Lib.JsonRoundTrip
import Knowledger.CanonicalForm
import Knowledger.Lib.OrderedMap
import Knowledger.Storage.PooledCache
import Knowledger.Storage.BrowseIndex
import Knowledger.Storage.CacheRuns
import Knowledger.Storage.ReviewReminders
import Knowledger.Storage.StateLinks
import Knowledger.Lib.JsonStable
import Knowledger.StableRecords
import Knowledger.Storage.HonestWrites
import Knowledger.Storage.LocalJournal
import Knowledger.Storage.LedgerReads
import Knowledger.Fabric.BlockProjector
