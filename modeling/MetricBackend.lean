import MetricBackend.AggregateAlerts
import MetricBackend.AlertBudgets
import MetricBackend.AlertPairing
import MetricBackend.AlertQueries
import MetricBackend.ApiCursors
import MetricBackend.ArchivableEvents
import MetricBackend.ArchiveSources
import MetricBackend.ArtifactAssembly
import MetricBackend.ArtifactCollection
import MetricBackend.ArtifactQuotas
import MetricBackend.BatchRuns
import MetricBackend.BatchTransparency
import MetricBackend.BatcherIsolation
import MetricBackend.BlobKeys
import MetricBackend.CatalogLinks
import MetricBackend.CatalogQuotas
import MetricBackend.CrontabFields
import MetricBackend.CrontabSearch
import MetricBackend.CursorBinding
import MetricBackend.DebugIdentifiers
import MetricBackend.DeliveryFairness
import MetricBackend.DeliveryLifecycle
import MetricBackend.DeliveryOverlap
import MetricBackend.DeliveryWorkers
import MetricBackend.DomainEvents
import MetricBackend.DomainExplore
import MetricBackend.DomainFinalization
import MetricBackend.DomainIssues
import MetricBackend.DomainMetrics
import MetricBackend.DomainMonitors
import MetricBackend.DomainNormalized
import MetricBackend.DomainNotifications
import MetricBackend.DomainSchedules
import MetricBackend.DomainSessions
import MetricBackend.DomainValues
import MetricBackend.DuplicateSessions
import MetricBackend.EnvelopeFraming
import MetricBackend.ErrorSearch
import MetricBackend.EventDispatcher
import MetricBackend.EventFinalizer
import MetricBackend.EventGrouping
import MetricBackend.EventNormalizer
import MetricBackend.EventPayloads
import MetricBackend.EventProcessor
import MetricBackend.EventScrubber
import MetricBackend.EventWriter
import MetricBackend.ExplorePages
import MetricBackend.ExplorePlanner
import MetricBackend.FinalizationCounts
import MetricBackend.GroupingInsertion
import MetricBackend.GroupingKeys
import MetricBackend.GroupingLimits
import MetricBackend.GroupingRelocation
import MetricBackend.InboundContains
import MetricBackend.InboundGlobs
import MetricBackend.IngestCheckIns
import MetricBackend.IssueAggregates
import MetricBackend.IssueDocuments
import MetricBackend.IssueLifecycle
import MetricBackend.IssuePaths
import MetricBackend.IssueQueries
import MetricBackend.IssueSimulation
import MetricBackend.IssueSizes
import MetricBackend.IssueStores
import MetricBackend.IssueTexts
import MetricBackend.IssueWrites
import MetricBackend.LibAddresses
import MetricBackend.LibBase64
import MetricBackend.LibBatches
import MetricBackend.LibBorders
import MetricBackend.LibBytes
import MetricBackend.LibCalendar
import MetricBackend.LibCodes
import MetricBackend.LibDoubles
import MetricBackend.LibFairness
import MetricBackend.LibFallible
import MetricBackend.LibFences
import MetricBackend.LibFormulas
import MetricBackend.LibIndexed
import MetricBackend.LibLetters
import MetricBackend.LibMarks
import MetricBackend.LibNumerals
import MetricBackend.LibPages
import MetricBackend.LibParallel
import MetricBackend.LibPipelines
import MetricBackend.LibRounds
import MetricBackend.LibRuns
import MetricBackend.LibSlices
import MetricBackend.LibSplits
import MetricBackend.LibTable
import MetricBackend.LibText
import MetricBackend.LibThrottle
import MetricBackend.MetricBatching
import MetricBackend.MetricIngest
import MetricBackend.MissedIsolation
import MetricBackend.MissedRaces
import MetricBackend.MissedSlots
import MetricBackend.MongoDeliveries
import MetricBackend.MongoIssues
import MetricBackend.MongoMonitors
import MetricBackend.MongoNotifications
import MetricBackend.MongoSessions
import MetricBackend.MonitorAlerts
import MetricBackend.MonitorEdits
import MetricBackend.MonitorInterleaving
import MetricBackend.MonitorLifecycle
import MetricBackend.MonitorRows
import MetricBackend.NotificationDispatch
import MetricBackend.NotificationExpansion
import MetricBackend.PlannableQueries
import MetricBackend.PortsMonitors
import MetricBackend.PortsNotifications
import MetricBackend.PortsSessions
import MetricBackend.PostgresArtifacts
import MetricBackend.PostgresEvents
import MetricBackend.PostgresExpansion
import MetricBackend.PostgresExplore
import MetricBackend.PostgresFinalization
import MetricBackend.PostgresIssues
import MetricBackend.PostgresMonitors
import MetricBackend.PostgresNotifications
import MetricBackend.PostgresPages
import MetricBackend.PostgresSessions
import MetricBackend.PostgresTables
import MetricBackend.ProcessorRetries
import MetricBackend.QueryDepth
import MetricBackend.QueryLanguage
import MetricBackend.QueryPrinting
import MetricBackend.QueryTrees
import MetricBackend.RateWindows
import MetricBackend.ReleaseHealth
import MetricBackend.RfcTimestamps
import MetricBackend.ScheduledKeys
import MetricBackend.ScrubbedAddresses
import MetricBackend.SearchIndex
import MetricBackend.SearchPages
import MetricBackend.SearchRequests
import MetricBackend.SearchRows
import MetricBackend.SentryProtocol
import MetricBackend.SessionConvergence
import MetricBackend.SessionRedelivery
import MetricBackend.TimeRanges
import MetricBackend.TransitionPages
import MetricBackend.UptimeRounds
import MetricBackend.WriterProtocol
