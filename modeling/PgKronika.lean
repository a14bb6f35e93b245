import PgKronika.ByteCodec
import PgKronika.FileTrace
import PgKronika.Crc32c
import PgKronika.Catalog
import PgKronika.CheckedArith
import PgKronika.PartFormat
import PgKronika.PartBuild
import PgKronika.LayoutTime
import PgKronika.JournalFormat
import PgKronika.StateLogic
import PgKronika.ReadAt
import PgKronika.FrameScan
import PgKronika.StreamingScan
import PgKronika.ScanAgreement
import PgKronika.Tiling
import PgKronika.RecoveryScan
import PgKronika.RecoveryAccounting
import PgKronika.Journal
import PgKronika.JournalImage
import PgKronika.JournalRuns
import PgKronika.JournalReset
import PgKronika.Scheduler
import PgKronika.SegmentAdmission
import PgKronika.WindowAppend
import PgKronika.WindowRefusal
import PgKronika.JournalRecovery
import PgKronika.JournalCrash
import PgKronika.OrderedMap
import PgKronika.Dictionary
import PgKronika.Interner
import PgKronika.InternerRefinement
import PgKronika.SealedBounds
import PgKronika.SegmentPlan
import PgKronika.DictionaryMerge
import PgKronika.PartDictionary
import PgKronika.InternerJournal
import PgKronika.JournalReader
import PgKronika.ReaderAgreement
import PgKronika.ReaderRetention
import PgKronika.Coverage
import PgKronika.SortedDedup
import PgKronika.DescriptorSelection
import PgKronika.Digest
import PgKronika.CursorRegistry
import PgKronika.PlanIdentity
import PgKronika.ViewIdentity
import PgKronika.CounterReduction
import PgKronika.CounterPartition
import PgKronika.KeysetPaging
import PgKronika.Utf8Text
import PgKronika.TailState
import PgKronika.LogCollector
import PgKronika.CollectorLoop
import PgKronika.SegmentOpening
import PgKronika.LogOnce
import PgKronika.LogTail
import PgKronika.LiveBuilder
import PgKronika.LiveRefresh
import PgKronika.QueryValue
import PgKronika.QueryCursor
import PgKronika.SectionPaging
import PgKronika.Sha256
import PgKronika.SmallestKept
import PgKronika.Base64Url
import PgKronika.EventFacts
import PgKronika.EventCursor
import PgKronika.EventQuery
import PgKronika.EventPaging
import PgKronika.EventTiling
import PgKronika.SnapshotRefresh
import PgKronika.JournalResume
import PgKronika.SnapshotSound
import PgKronika.DeltaReport
import PgKronika.LiveFeed
import PgKronika.FixedLayouts
import PgKronika.SpanSet
import PgKronika.CoverageUnion
import PgKronika.GregorianCalendar
import PgKronika.CivilDays
import PgKronika.PositionSearch
import PgKronika.ResyncSearch
import PgKronika.SchedulerRuns
import PgKronika.DictionaryRuns
import PgKronika.DictionaryOrder
import PgKronika.InternerHot
import PgKronika.GreedyPrefix
import PgKronika.Rotation
import PgKronika.RotationBudget
import PgKronika.RotationReclaim
import PgKronika.BoundedRanking
import PgKronika.EntitySeries
import PgKronika.Heatmap
import PgKronika.PartitionPoint
import PgKronika.GapSweep
import PgKronika.GaugeHold
import PgKronika.SparseCounts
import PgKronika.EventCounts
import PgKronika.CoverageGaps
import PgKronika.SeriesDiff
import PgKronika.Gating
import PgKronika.TypeBloom
import PgKronika.SectionRows
import PgKronika.SnapshotUnits
import PgKronika.LatestRow
import PgKronika.KeptState
import PgKronika.QueryWork
import PgKronika.QueryBudget
import PgKronika.QueryBatch
import PgKronika.LogRotation
import PgKronika.CompactInput
import PgKronika.PagePreflight
import PgKronika.PageTiling
import PgKronika.PageAdmission
import PgKronika.ThresholdPolicy
import PgKronika.BoundedQuery
import PgKronika.HealthCell
import PgKronika.WorstPoint
import PgKronika.HealthLine
import PgKronika.FactContainer
import PgKronika.FactReading
import PgKronika.SidecarGc
import PgKronika.SidecarUsage
import PgKronika.SidecarGrace
import PgKronika.ColdAdmission
import PgKronika.AdmissionBooks
import PgKronika.AdmissionRuns
import PgKronika.RecencyList
import PgKronika.CursorBooks
import PgKronika.CursorHistory
import PgKronika.LruCaches
import PgKronika.CacheRecency
import PgKronika.CacheRuns
import PgKronika.IntervalTree
import PgKronika.DescriptorIndex
import PgKronika.BudgetOrder
import PgKronika.TimelineMetadata
import PgKronika.MetadataOrder
import PgKronika.SpanSweep
import PgKronika.SelfDelimiting
import PgKronika.EpisodeClusters
import PgKronika.IncidentKey
import PgKronika.SortedRetention
import PgKronika.EventDigest
import PgKronika.NotablePreview
import PgKronika.SortedSlices
import PgKronika.WindowScore
import PgKronika.AnomalyScan
import PgKronika.FloatOrder
import PgKronika.MaximalRuns
import PgKronika.AnomalyEpisodes
import PgKronika.AnomalyWindows
import PgKronika.AlignedMerge
import PgKronika.CounterSums
import PgKronika.CounterContinuity
import PgKronika.IntervalSums
import PgKronika.GaugeWindows
import PgKronika.LatchedPrograms
import PgKronika.FindingEvidence
import PgKronika.FindingSink
import PgKronika.IncidentEngine
import PgKronika.LensEvaluation
import PgKronika.IncidentTruncation
import PgKronika.HeatmapMerge
import PgKronika.HeatmapGaps
import PgKronika.HeatmapSound
import PgKronika.SortedFront
import PgKronika.AnomalyHits
import PgKronika.AnomalyRanking
import PgKronika.SealWriter
import PgKronika.SealSections
import PgKronika.SealContent
import PgKronika.SealSplit
