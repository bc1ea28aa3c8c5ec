import Lancet.FixedRefinement
import Lancet.MeasureWindow
import Lancet.ReplyPairing
import Lancet.ReplySplits
import Lancet.NicTimestamps
import Lancet.Reassembly
import Lancet.UserspaceTimestamps
import Lancet.CreditBound
import Lancet.WouldBlock
import Lancet.Targets
import Lancet.OpenLoop
import Lancet.MessageStream
import Lancet.Aggregation
import Lancet.NicRingBound
import Lancet.IntervalGate
import Lancet.ManagerSafety
import Lancet.FixedTermination
import Lancet.SampleBound
import Lancet.PatternReturns
import Lancet.KsStatistic
import Lancet.Convergence
import Lancet.SortOrders
import Lancet.ExactPercentiles
import Lancet.SerialCorrelation
import Lancet.TimestampPaths
import Lancet.AggregateRoom
import Lancet.IaBounds
import Lancet.WaitingTime
import Lancet.TxCompletion
import Lancet.ReplyFrames
import Lancet.StepLoads
import Lancet.TargetList
import Lancet.OfferedLoad
import Lancet.ReferenceSpec
import Lancet.InverseCdf
import Lancet.RealGaps
import Lancet.ClosedLoop
import Lancet.Experiments
import Lancet.Settling
import Lancet.CommandLine
