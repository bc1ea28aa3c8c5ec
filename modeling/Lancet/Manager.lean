import Lancet.CoordProto
import Lancet.Stats

/-! The agent's manager thread (manager.c): it handles the coordinator's messages one by
one while worker threads record into their statistics. The measure flag is off from the
start of a report until the manager turns it on again after the reply. -/
namespace Lancet.Manager
open Foundation RandGen Agent Timestamping Stats CoordProto Wire

inductive Reply where
  | ack
  | throughput (data : ThroughputReply) (iaComp : Option UInt32)
  | latency (data : LatencyReply) (checks : Option NicChecks)
  deriving DecidableEq, Repr

def ackMsg : Msg1 := ⟨⟨replyCode,4⟩,replyAckType⟩
def throughputMsg : Msg1 := ⟨⟨replyCode,36⟩,replyStatsThroughput⟩
def latencyMsg : Msg1 := ⟨⟨replyCode,32⟩,replyStatsLatency⟩
-- `sizeof(2*sizeof(uint32_t))` is the size of a `size_t`
def convergenceMsg : Msg1 := ⟨⟨replyCode,8⟩,replyConvergence⟩
def iidMsg : Msg1 := ⟨⟨replyCode,8⟩,replyIid⟩
def iaCompMsg (iaComp : UInt32) : Msg2 := ⟨⟨replyCode,8⟩,replyIaComp,iaComp⟩

def checksIov (checks : NicChecks) : List (List UInt8) :=
  [convergenceMsg.bytes,u32Bytes checks.convergence,iidMsg.bytes,u64Bytes checks.correlation,
    (iaCompMsg checks.iaComp).bytes]

def Reply.iov : Reply → List (List UInt8)
  | .ack => [ackMsg.bytes]
  | .throughput data iaComp => [throughputMsg.bytes,data.bytes] ++ (iaComp.map (fun flag => (iaCompMsg flag).bytes)).toList
  | .latency data checks => [latencyMsg.bytes,data.bytes] ++ (checks.map checksIov).getD []

def Reply.bytes (reply : Reply) : List UInt8 := reply.iov.flatten

/-- The generators that the option `-i` has set; without it they are null pointers. -/
structure Generators where
  idist : Option (RandGen Float)
  referenceIaGen : Option (RandGen Float)
  deriving DecidableEq, Repr

def Generators.exponential : Generators := ⟨some (.exp 1),some (.exp 1)⟩

structure ManagerState where
  generators : Generators
  shouldLoad : Bool
  shouldMeasure : Bool
  startMeasureTime : Int
  stopMeasureTime : Int
  sampling : Sampling
  referenceIa : List UInt64
  threads : List ThreadStats
  aggStats : LatencyStats
  -- the reply to a report is out and the measure flag not yet on again
  reporting : Bool

inductive Message where
  | startLoad (load : Int)
  | startMeasure (samples : Int) (sampling : Float)
  | reportReq (type : UInt32)
  deriving DecidableEq

inductive Event where
  | message (message : Message) (now : Int) (reference : List UInt64)
  | resume (now : Int)
  | worker (thread : Nat) (call : StatsCall) (draw : Float)

def initially (generators : Generators) (threads : List ThreadStats) (aggStats : LatencyStats) : ManagerState where
  generators := generators
  shouldLoad := false
  shouldMeasure := false
  startMeasureTime := 0
  stopMeasureTime := 0
  sampling := ⟨0,0⟩
  referenceIa := List.replicate referenceIaSize 0
  threads := threads
  aggStats := aggStats
  reporting := false

def clearAllStats (config : AgentConfig) (manager : ManagerState) : ManagerState :=
  {manager with threads := manager.threads.map (clearThread config.atype)}

def allStats (manager : ManagerState) : List LatencyStats := manager.threads.map (·.stats)

def allTx (manager : ManagerState) : List TxSamples := manager.threads.map (·.txS)

/-- `lround(1.01*payload1/get_thread_count())` as the `int` argument. -/
def perThreadSamples (samples threadCount : Int) : Int :=
  toInt (Binary64.lround (1.01 * Float.ofInt samples / Float.ofInt threadCount))

def throughputData (stats : LatencyStats) (duration : Int) : ThroughputReply :=
  ⟨stats.thS.rx.bytes,stats.thS.tx.bytes,stats.thS.rx.reqs,UInt64.ofInt duration⟩

def latencyData (stats : LatencyStats) (duration : Int) : LatencyReply where
  thData := throughputData stats duration
  avgLat := stats.avgLat
  p50I := stats.p50I
  p50 := stats.p50
  p50K := stats.p50K
  p90I := stats.p90I
  p90 := stats.p90
  p90K := stats.p90K
  p95I := stats.p95I
  p95 := stats.p95
  p95K := stats.p95K
  p99I := stats.p99I
  p99 := stats.p99
  p99K := stats.p99K

def collectLatencyStats (config : AgentConfig) (qsort : Qsort) (manager : ManagerState) : Outcome LatencyStats := do
  let agg ← aggregateLatencySamples config.atype manager.aggStats (allStats manager)
  computeLatencyPercentilesCi Float qsort agg

def replaceSamples (stats : LatencyStats) (samples : List LatSample) : LatencyStats :=
  {stats with samples := fun index => samples[index]?.getD (stats.samples index)}

def replyThroughputStats (config : AgentConfig) (qsort : Qsort) (manager : ManagerState) : Outcome (ManagerState × Reply) := do
  let agg := aggregateThroughputStats config.atype manager.aggStats (allStats manager)
  let data := throughputData agg (manager.stopMeasureTime - manager.startMeasureTime)
  if config.atype = .symmetricNicTimestampAgent then
    let iaComp ← checkIa Float qsort manager.referenceIa (allTx manager)
    return ({manager with aggStats := agg},.throughput data (some iaComp))
  else return ({manager with aggStats := agg},.throughput data none)

def replyLatencyStats (config : AgentConfig) (qsort : Qsort) (manager : ManagerState) : Outcome (ManagerState × Reply) := do
  let agg ← collectLatencyStats config qsort manager
  let data := latencyData agg (manager.stopMeasureTime - manager.startMeasureTime)
  let conv := computeConvergence Float qsort agg.held
  let agg := replaceSamples agg conv.2
  if config.atype = .symmetricNicTimestampAgent then
    let correlation := (checkIid qsort agg.held : Float).toBits
    let agg := replaceSamples agg (qsort.sort sampleCmpTx agg.held)
    let iaComp ← checkIa Float qsort manager.referenceIa (allTx manager)
    return ({manager with aggStats := agg},.latency data (some ⟨conv.1,correlation,iaComp⟩))
  else return ({manager with aggStats := agg},.latency data none)

theorem replyThroughputStats_next {config : AgentConfig} {qsort : Qsort} {manager after : ManagerState} {reply : Reply}
    (replied : replyThroughputStats config qsort manager = .next (after,reply)) :
    ∃ agg iaComp, agg = aggregateThroughputStats config.atype manager.aggStats (allStats manager) ∧
      after = {manager with aggStats := agg} ∧
      reply = .throughput (throughputData agg (manager.stopMeasureTime - manager.startMeasureTime))
        (if config.atype = .symmetricNicTimestampAgent then some iaComp else none) := by
  rw [replyThroughputStats] at replied
  split at replied
  next nic =>
    obtain ⟨iaComp,-,returned⟩ := Outcome.bind_next replied
    cases returned
    exact ⟨_,iaComp,rfl,rfl,by rw [if_pos nic]⟩
  next other =>
    cases replied
    exact ⟨_,0,rfl,rfl,by rw [if_neg other]⟩

theorem replyLatencyStats_next {config : AgentConfig} {qsort : Qsort} {manager after : ManagerState} {reply : Reply}
    (replied : replyLatencyStats config qsort manager = .next (after,reply)) :
    ∃ agg kept checks, collectLatencyStats config qsort manager = .next agg ∧ after = {manager with aggStats := kept} ∧
      reply = .latency (latencyData agg (manager.stopMeasureTime - manager.startMeasureTime))
        (if config.atype = .symmetricNicTimestampAgent then some checks else none) := by
  obtain ⟨agg,collected,replied⟩ := Outcome.bind_next replied
  dsimp only at replied
  split at replied
  next nic =>
    obtain ⟨iaComp,-,returned⟩ := Outcome.bind_next replied
    cases returned
    exact ⟨agg,_,_,collected,rfl,by rw [if_pos nic]⟩
  next other =>
    cases replied
    exact ⟨agg,_,⟨0,0,0⟩,collected,rfl,by rw [if_neg other]⟩

def stopMeasure (manager : ManagerState) (now : Int) : ManagerState :=
  if manager.shouldMeasure then {manager with shouldMeasure := false, stopMeasureTime := now} else manager

def loadGenerators (config : AgentConfig) (generators : Generators) (load : UInt32) : Outcome Generators :=
  match generators.idist,generators.referenceIaGen with
  | some idist, some referenceIaGen => do
    let (idist,referenceIaGen) ← setLoad config.threadCount idist referenceIaGen load
    return ⟨some idist,some referenceIaGen⟩
  | _, _ => .fault

def handle (config : AgentConfig) (qsort : Qsort) (manager : ManagerState) (now : Int) (reference : List UInt64) :
    Message → Outcome (ManagerState × Reply)
  | .startLoad load => do
    let generators ← loadGenerators config manager.generators (UInt32.ofInt load)
    return ({clearAllStats config {manager with generators := generators, shouldMeasure := false} with shouldLoad := true},
      .ack)
  | .startMeasure samples sampling => do
    let cleared := clearAllStats config manager
    let chosen ← setPerThreadSamples (perThreadSamples samples config.threadCount) sampling
    -- `collect_reference_ia` after the ack
    Outcome.assert manager.generators.referenceIaGen.isSome
    return ({cleared with sampling := chosen, startMeasureTime := now, shouldMeasure := true, referenceIa := reference},
      .ack)
  | .reportReq type => do
    let stopped := {stopMeasure manager now with reporting := true}
    if type = reportThroughputType then replyThroughputStats config qsort stopped
    else if type = reportLatencyType then replyLatencyStats config qsort stopped
    else .halt

theorem startLoad_next {config : AgentConfig} {qsort : Qsort} {manager after : ManagerState} {now load : Int}
    {reference : List UInt64} {reply : Reply}
    (handled : handle config qsort manager now reference (.startLoad load) = .next (after,reply)) :
    ∃ generators, loadGenerators config manager.generators (UInt32.ofInt load) = .next generators ∧
      after = {clearAllStats config {manager with generators := generators, shouldMeasure := false} with shouldLoad := true} ∧
      reply = .ack := by
  obtain ⟨generators,loaded,returned⟩ := Outcome.bind_next handled
  cases returned
  exact ⟨generators,loaded,rfl,rfl⟩

theorem startMeasure_next {config : AgentConfig} {qsort : Qsort} {manager after : ManagerState} {now samples : Int}
    {sampling : Float} {reference : List UInt64} {reply : Reply}
    (handled : handle config qsort manager now reference (.startMeasure samples sampling) = .next (after,reply)) :
    ∃ chosen, setPerThreadSamples (perThreadSamples samples config.threadCount) sampling = .next chosen ∧
      after = {clearAllStats config manager with
        sampling := chosen, startMeasureTime := now, shouldMeasure := true, referenceIa := reference} ∧ reply = .ack := by
  obtain ⟨chosen,sized,handled⟩ := Outcome.bind_next handled
  obtain ⟨-,-,returned⟩ := Outcome.bind_next handled
  cases returned
  exact ⟨chosen,sized,rfl,rfl⟩

def work (manager : ManagerState) (thread : Nat) (call : StatsCall) (draw : Float) : Outcome ManagerState :=
  match manager.threads[thread]? with
  | none => return manager
  | some stats => do
    let stats' ← stats.apply manager.shouldMeasure manager.sampling draw call
    return {manager with threads := manager.threads.set thread stats'}

def managerRun (config : AgentConfig) (qsort : Qsort) : Machine ManagerState Event (Option Reply) where
  step manager
    | .message message now reference => do
      let (manager,reply) ← handle config qsort manager now reference message
      return (manager,some reply)
    | .resume _ => return ({manager with shouldMeasure := true, reporting := false},none)
    | .worker thread call draw => do
      let manager ← work manager thread call draw
      return (manager,none)

end Lancet.Manager
