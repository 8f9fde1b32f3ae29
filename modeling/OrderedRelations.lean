import OrderedRelations.Columnar.Table
import OrderedRelations.Digest.Fingerprint
import OrderedRelations.Query
import OrderedRelations.Proofs.Relation.Cell
import OrderedRelations.Proofs.Hierarchy.JoinPath
import OrderedRelations.Proofs.Hierarchy.Levels
import OrderedRelations.Proofs.Hierarchy.JoinResolution
import OrderedRelations.Proofs.Calendar.Order
import OrderedRelations.Proofs.Value.Order
import OrderedRelations.Proofs.Window.KeyOrder
import OrderedRelations.Proofs.Window.KeyText
import OrderedRelations.Proofs.Window.ArrangedPositions
import OrderedRelations.Proofs.Window.NumberLine
import OrderedRelations.Proofs.Window.Bisection
import OrderedRelations.Proofs.Window.PeerRuns
import OrderedRelations.Proofs.Window.RangeFrame
import OrderedRelations.Proofs.Window.RangeSpans
import OrderedRelations.Proofs.Window.Accumulation
import OrderedRelations.Proofs.Window.Sliding
import OrderedRelations.Proofs.Window.RangeArrangement
import OrderedRelations.Proofs.Hierarchy.Ancestry
import OrderedRelations.Proofs.Hierarchy.Termination
import OrderedRelations.Proofs.Window.SpanOrder
import OrderedRelations.Proofs.Window.SlidingMoves
import OrderedRelations.Proofs.Window.Validation
import OrderedRelations.Proofs.Window.ArrangedSpans
import OrderedRelations.Proofs.Window.AggregateTypes
import OrderedRelations.Proofs.Window.SpanBounds
import OrderedRelations.Proofs.Window.PartitionResults
import OrderedRelations.Proofs.Window.WindowSafety
import OrderedRelations.Proofs.Window.Overflow
import OrderedRelations.Proofs.Hierarchy.DepthCap
import OrderedRelations.Proofs.Hierarchy.AnchoredWalks
import OrderedRelations.Proofs.Window.PartitionClasses
import OrderedRelations.Proofs.Window.PartitionLocality
import OrderedRelations.Proofs.Window.LeadingRows
import OrderedRelations.Proofs.Window.PeerCounts
import OrderedRelations.Proofs.Window.OffsetCuts
import OrderedRelations.Proofs.Window.FrameRows
import OrderedRelations.Proofs.Window.StretchTotals
import OrderedRelations.Proofs.Window.ArrivalOrder
import OrderedRelations.Proofs.Relation.Widening
import OrderedRelations.Proofs.Window.SortedGroups
import OrderedRelations.Proofs.Window.WiderEvaluation
import OrderedRelations.Proofs.Query.IndependentWindows
import OrderedRelations.Proofs.Relation.Operations
import OrderedRelations.Proofs.Query.BuiltRelations
import OrderedRelations.Proofs.Hierarchy.PathReading
import OrderedRelations.Proofs.Query.StreakDirections
import OrderedRelations.Proofs.Query.StreakSummaries
import OrderedRelations.Proofs.Text.Numerals
import OrderedRelations.Proofs.Digest.JsonTokens
import OrderedRelations.Proofs.Digest.Canonical
import OrderedRelations.Proofs.Calendar.IsoText
import OrderedRelations.Proofs.Digest.Preimage
import OrderedRelations.Proofs.Window.Partitioning
import OrderedRelations.Proofs.Streak.ArrangedLines
import OrderedRelations.Proofs.Query.ConsecutiveStreaks
import OrderedRelations.Proofs.Window.PlainFrames
import OrderedRelations.Proofs.Window.RankCounts
import OrderedRelations.Proofs.Query.GapStreaks
import OrderedRelations.Proofs.Streak.QualifyingRuns
import OrderedRelations.Proofs.Query.QualifyingStreaks
import OrderedRelations.Proofs.Window.ExtremeQueue
import OrderedRelations.Proofs.Window.HeldTotals
import OrderedRelations.Proofs.Window.UnorderedExtremes
import OrderedRelations.Proofs.Number.Rounding
import OrderedRelations.Proofs.Window.FrameOrder
import OrderedRelations.Proofs.Query.NamedColumns
import OrderedRelations.Proofs.Window.EndExtremes
import OrderedRelations.Proofs.Window.FrameFreeFunctions
import OrderedRelations.Proofs.Number.Representable
import OrderedRelations.Proofs.Window.CurrentRowBounds
import OrderedRelations.Proofs.Window.DayDurations
import OrderedRelations.Proofs.Vocabulary.Spellings
import OrderedRelations.Proofs.Relation.Records
import OrderedRelations.Proofs.Settings.Refusals
import OrderedRelations.Proofs.Settings.Precedence
import OrderedRelations.Proofs.Calendar.DaysBetween
import OrderedRelations.Proofs.Window.CoordinateOrder
import OrderedRelations.Proofs.Window.MaximalRuns
import OrderedRelations.Proofs.Streak.FreshColumns
