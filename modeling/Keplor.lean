import Keplor.Lib.Utf8
import Keplor.Lib.Lines
import Keplor.Lib.Grouping
import Keplor.Lib.Run
import Keplor.Lib.Json.Value
import Keplor.Lib.Json.Text
import Keplor.Lib.Json.RoundTrip
import Keplor.Lib.Json.Struct
import Keplor.Lib.Json.Record
import Keplor.Core.Provider
import Keplor.Core.Event
import Keplor.Core.Formats
import Keplor.Lib.Fallible
import Keplor.Store.Mapping
import Keplor.Store.RowRoundTrip
import Keplor.Store.Error
import Keplor.Store.StoredEvent
import Keplor.Store.LineRoundTrip
import Keplor.Store.Archive
import Keplor.Lib.Int64
import Keplor.Pricing.Compute
import Keplor.Pricing.Catalog
import Keplor.Server.Schema
import Keplor.Server.Validate
import Keplor.Server.Pipeline
import Keplor.Store.Kdb
import Keplor.Store.MemoryEngine
import Keplor.Server.Config
import Keplor.Server.Retention
import Keplor.Store.Append
import Keplor.Lib.Paging
import Keplor.Store.Query
import Keplor.Store.Manifests
import Keplor.Store.Batch
import Keplor.Store.ArchiveCycle
import Keplor.Server.Timestamps
import Keplor.Lib.Lru
import Keplor.Server.Auth
import Keplor.Server.Reload
import Keplor.Server.Idempotency
import Keplor.Server.IdempotencyRuns
import Keplor.Server.Ingest
import Keplor.Store.BatchQueue
import Keplor.Server.Attribution
import Keplor.Server.Retries
import Keplor.Server.Tenants
import Keplor.Store.Reads
import Keplor.Server.Erase
import Keplor.Server.Erasure
import Keplor.Store.ArchiveProgress
import Keplor.Server.Upkeep
import Keplor.Store.Fetch
import Keplor.Server.Events
import Keplor.Server.Viewing
import Keplor.Server.InView
import Keplor.Lib.Leading
import Keplor.Server.Merge
import Keplor.Lib.TokenBucket
import Keplor.Server.RateLimit
import Keplor.Server.Responses
import Keplor.Store.Filters
import Keplor.Server.Tiers
import Keplor.Lib.Aliases
import Keplor.Pricing.Load
import Keplor.Server.CursorWalk
import Keplor.Lib.Aggregate
import Keplor.Lib.Offsets
import Keplor.Store.Rollups
import Keplor.Server.Rollups
import Keplor.Store.EngineMap
import Keplor.Store.TierDirs
import Keplor.Store.Shutdown
import Keplor.Store.SizeCache
import Keplor.Store.Deletion
import Keplor.Server.SizeLimit
import Keplor.Server.StaysErased
import Keplor.Lib.Saturating
import Keplor.Core.Usage
import Keplor.Pricing.Bill
import Keplor.Server.LongContext
import Keplor.Pricing.Index
import Keplor.Store.Totals
import Keplor.Store.ErrorCounts
import Keplor.Lib.Scatter
import Keplor.Server.BatchResults
import Keplor.Server.Body
import Keplor.Lib.Calendar
import Keplor.Lib.Numerals
import Keplor.Store.Days
import Keplor.Server.DayBuckets
import Keplor.Store.ArchiveOwners
import Keplor.Pricing.DateSuffix
import Keplor.Server.KeyIds
import Keplor.Cli.ArchiveStatus
import Keplor.Core.ErrorBody
import Keplor.Lib.Hex
import Keplor.Store.TraceIds
import Keplor.Store.Queues
import Keplor.Store.Drain
import Keplor.Server.Receipts
import Keplor.Server.Moves
import Keplor.Server.Refusals
import Keplor.Server.Gateway
import Keplor.Store.Rotation
import Keplor.Server.TierRuns
import Keplor.Server.Reported
import Keplor.Server.Posted
import Keplor.Server.Node
import Keplor.Server.Node
import Keplor.Lib.Tally
import Keplor.Store.Conservation
import Keplor.Server.Provenance
import Keplor.Server.Provenance
