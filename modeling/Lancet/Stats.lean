import Lancet.Agent
import Lancet.Timestamping
import Lancet.Foundation.CDouble
import Lancet.Foundation.Sorting

/-! Per-thread statistics, their aggregation and the checks on them (stats.c, stats.h).
`qsort` is a parameter with its contract; doubles are a `CDouble` parameter. A read or
write outside an array is a fault, as is a failed assertion. -/
namespace Lancet.Stats
open Foundation Agent Timestamping

def maxPerThreadSamples : Nat := 131072
def maxPerThreadTxSamples : Nat := 2048
def referenceIaSize : Nat := 8192
def aggSampleSize : Nat := 0x100000

structure ByteReqPair where
  bytes : UInt64
  reqs : UInt64
  deriving DecidableEq, Repr

def ByteReqPair.zero : ByteReqPair := ⟨0,0⟩

def ByteReqPair.add (a b : ByteReqPair) : ByteReqPair := ⟨a.bytes + b.bytes,a.reqs + b.reqs⟩

structure CiIdx where
  i : UInt32
  k : UInt32
  deriving DecidableEq, Repr

structure TxSamples where
  count : UInt32
  samples : Nat → Timespec

structure ThroughputStats where
  rx : ByteReqPair
  tx : ByteReqPair
  deriving DecidableEq, Repr

def ThroughputStats.zero : ThroughputStats := ⟨.zero,.zero⟩

structure LatSample where
  nsec : UInt64
  tx : Timespec
  deriving DecidableEq, Repr

def LatSample.zero : LatSample := ⟨0,Timespec.zero⟩

/-- `union stats`: `struct throughput_stats` is its initial part. -/
structure LatencyStats where
  thS : ThroughputStats
  count : UInt32
  size : UInt32
  avgLat : UInt64
  p50I : UInt64
  p50 : UInt64
  p50K : UInt64
  p90I : UInt64
  p90 : UInt64
  p90K : UInt64
  p95I : UInt64
  p95 : UInt64
  p95K : UInt64
  p99I : UInt64
  p99 : UInt64
  p99K : UInt64
  samples : Nat → LatSample

def LatencyStats.zero : LatencyStats :=
  ⟨.zero,0,0,0,0,0,0,0,0,0,0,0,0,0,0,0,fun _ => .zero⟩

def LatencyStats.held (stats : LatencyStats) : List LatSample :=
  (List.range stats.size.toNat).map stats.samples

structure ThreadStats where
  stats : LatencyStats
  txS : TxSamples

structure Sampling where
  perThreadSamples : Int
  samplingRate : Float
  deriving DecidableEq

def setPerThreadSamples (samples : Int) (sr : Float) : Outcome Sampling := do
  Outcome.assert (samples ≤ maxPerThreadSamples)
  Outcome.assert (0 < samples)
  return ⟨samples,sr / 100⟩

theorem setPerThreadSamples_iff (samples : Int) (samplingRate : Float) :
    setPerThreadSamples samples samplingRate ≠ .fault ↔ 0 < samples ∧ samples ≤ maxPerThreadSamples := by
  rw [setPerThreadSamples]
  by_cases low : samples ≤ maxPerThreadSamples
  · by_cases high : 0 < samples
    · simp [low,high]
    · simp [low,high]
  · simp [low]

def clearStats (atype : AgentType) (stats : LatencyStats) : LatencyStats :=
  match atype with
  | .throughputAgent => {stats with thS := .zero}
  | .latencyAgent | .symmetricNicTimestampAgent | .symmetricAgent =>
    {LatencyStats.zero with samples := stats.samples}

def clearThread (atype : AgentType) (thread : ThreadStats) : ThreadStats :=
  ⟨clearStats atype thread.stats,{thread.txS with count := 0}⟩

def toInt (difference : Int) : Int := difference.bmod (2^32)

def longCompare (a b : UInt64) : Int := toInt (a - b).toNat

def sampleCmpLatency (a b : LatSample) : Int := toInt (a.nsec - b.nsec).toNat

def sampleCmpTx (a b : LatSample) : Int :=
  if a.tx.tvSec ≠ b.tx.tvSec then (if b.tx.tvSec < a.tx.tvSec then 1 else 0)
  else if b.tx.tvNsec < a.tx.tvNsec then 1 else 0

def timespecCmp (a b : Timespec) : Int :=
  if a.tvSec = b.tvSec then toInt (a.tvNsec - b.tvNsec) else toInt (a.tvSec - b.tvSec)

section Double
variable {F : Type} [CDouble F]

def heta : F := 1.96
def ca : F := 1.858

def ksLoop (aLen bLen : Int) : Nat → List UInt64 → List UInt64 → Int → Int → F → F
  | passes + 1, a :: as, b :: bs, ia, ib, maxDiff =>
    let minVal := if a < b then a else b
    let takeA := minVal = a
    let takeB := minVal = b
    let ia' := if takeA then ia + 1 else ia
    let ib' := if takeB then ib + 1 else ib
    let diff : F :=
      if takeB then CDouble.ofInt (ib + 1) / CDouble.ofInt bLen - CDouble.ofInt ia' / CDouble.ofInt aLen
      else CDouble.ofInt (ia + 1) / CDouble.ofInt aLen - CDouble.ofInt ib / CDouble.ofInt bLen
    let size := if CDouble.lt diff (0.0 : F) then diff * (CDouble.ofInt (-1)) else diff
    ksLoop aLen bLen passes (if takeA then as else a :: as) (if takeB then bs else b :: bs) ia' ib'
      (if CDouble.lt maxDiff size then size else maxDiff)
  | _, _, _, _, _, maxDiff => maxDiff

def ksSorted (a b : List UInt64) : F :=
  ksLoop a.length b.length (a.length + b.length) a b 0 0 (0.0 : F)

def ks (qsort : Qsort) (a b : List UInt64) : F :=
  ksSorted (qsort.sort longCompare a) (qsort.sort longCompare b)

def ksLts (qsort : Qsort) (a b : List LatSample) : F × List LatSample × List LatSample :=
  let a' := qsort.sort sampleCmpLatency a
  let b' := qsort.sort sampleCmpLatency b
  (ksSorted (a'.map (·.nsec)) (b'.map (·.nsec)),a',b')

def computeConvergence (F : Type) [CDouble F] (qsort : Qsort) (samples : List LatSample) : UInt32 × List LatSample :=
  let samples' := qsort.sort sampleCmpTx samples
  let half := samples'.length / 2
  let (dnm,first,second) := ksLts (F := F) qsort (samples'.take half) ((samples'.drop half).take half)
  let sizeD : F := CDouble.ofInt half
  let val := ca * CDouble.sqrt (CDouble.ofInt 2 * sizeD / (sizeD * sizeD))
  (if CDouble.lt dnm val then 1 else 0,first ++ second ++ samples'.drop (half + half))

def getCiBounds (n : Int) (p : F) : CiIdx :=
  -- a negative `double` becomes a `uint32_t` as in the compiled code, modulo 2^32
  let prod := CDouble.ofInt n * p
  let sq := heta * CDouble.sqrt (prod * (CDouble.ofInt 1 - p))
  ⟨UInt32.ofInt (CDouble.floor (prod - sq)),UInt32.ofInt (CDouble.ceil (prod + sq)) + 1⟩

def readSample (samples : Nat → LatSample) (index : UInt32) : Outcome UInt64 :=
  if index.toNat < aggSampleSize then .next (samples index.toNat).nsec else .fault

def percentile (samples : Nat → LatSample) (size percent : UInt32) (p : F) : Outcome (UInt64 × UInt64 × UInt64) := do
  let value ← readSample samples (size * percent / 100)
  let bounds := getCiBounds size.toNat p
  let lower ← readSample samples bounds.i
  let upper ← readSample samples bounds.k
  return (lower,value,upper)

def sortedSamples (qsort : Qsort) (stats : LatencyStats) : Nat → LatSample :=
  fun index => (qsort.sort sampleCmpLatency stats.held)[index]?.getD (stats.samples index)

def computeLatencyPercentilesCi (F : Type) [CDouble F] (qsort : Qsort) (stats : LatencyStats) : Outcome LatencyStats := do
  let samples := sortedSamples qsort stats
  let sum := ((List.range stats.size.toNat).map (fun index => (samples index).nsec)).sum
  Outcome.assert (0 < stats.size)
  let (p50I,p50,p50K) ← percentile samples stats.size 50 (0.50 : F)
  let (p90I,p90,p90K) ← percentile samples stats.size 90 (0.90 : F)
  let (p95I,p95,p95K) ← percentile samples stats.size 95 (0.95 : F)
  let (p99I,p99,p99K) ← percentile samples stats.size 99 (0.99 : F)
  return {stats with
    samples := samples, avgLat := sum / stats.size.toUInt64
    p50I := p50I, p50 := p50, p50K := p50K
    p90I := p90I, p90 := p90, p90K := p90K
    p95I := p95I, p95 := p95, p95K := p95K
    p99I := p99I, p99 := p99, p99K := p99K}

def checkIid (qsort : Qsort) (samples : List LatSample) : F :=
  let sorted := (qsort.sort sampleCmpTx samples).map (·.nsec)
  let pairs : F := CDouble.ofInt (sorted.length - 1 : Nat)
  let first := sorted.headD 0
  let last := sorted.getLastD 0
  let middle := sorted.tail.dropLast
  let sum := middle.sum
  let sumOfSquares := (middle.map (fun x => x * x)).sum
  let ofU64 (x : UInt64) : F := CDouble.ofInt x.toNat
  let avgX := ofU64 (sum + first) / pairs
  let avgY := ofU64 (sum + last) / pairs
  let avgSqrX := ofU64 (sumOfSquares + first * first) / pairs
  let avgSqrY := ofU64 (sumOfSquares + last * last) / pairs
  let sx := CDouble.sqrt (avgSqrX - avgX * avgX)
  let sy := CDouble.sqrt (avgSqrY - avgY * avgY)
  let covSum := (sorted.zip sorted.tail).foldl
    (fun acc pair => acc + (ofU64 pair.1 - avgX) * (ofU64 pair.2 - avgY)) (0.0 : F)
  covSum / pairs / (sx * sy)

def interArrivals : List Timespec → Outcome (List UInt64)
  | earlier :: later :: rest =>
    match timespecDiff (some later) (some earlier) with
    | none => .fault
    | some diff => do
      Outcome.assert (diff.tvSec = 0)
      let gaps ← interArrivals (later :: rest)
      return UInt64.ofInt diff.tvNsec :: gaps
  | _ => return []

def retainedTx (txS : TxSamples) : List Timespec :=
  (List.range (min txS.count.toNat maxPerThreadTxSamples)).map txS.samples

def checkIa (F : Type) [CDouble F] (qsort : Qsort) (referenceIa : List UInt64) (allTx : List TxSamples) :
    Outcome UInt32 := do
  let data := allTx.flatMap retainedTx
  Outcome.assert (data.length ≤ maxThreads * maxPerThreadTxSamples)
  let collectedIa ← interArrivals (qsort.sort timespecCmp data)
  -- with no transmission `ks` gets length -1 and `qsort` (size_t)-1 elements
  Outcome.assert (data ≠ [])
  let ksResult : F := ks qsort referenceIa collectedIa
  let collectedIaSize : F := CDouble.ofInt collectedIa.length
  let reference : F := CDouble.ofInt referenceIaSize
  let val := ca * CDouble.sqrt ((reference + collectedIaSize) / (reference * collectedIaSize))
  return if CDouble.lt ksResult val then 1 else 0

end Double

def aggregateThroughputStats (atype : AgentType) (aggStats : LatencyStats) (allStats : List LatencyStats) : LatencyStats :=
  allStats.foldl (fun agg stats =>
    {agg with thS := ⟨agg.thS.rx.add stats.thS.rx,agg.thS.tx.add stats.thS.tx⟩}) (clearStats atype aggStats)

def appendSamples (agg : LatencyStats) (aggCount : Nat) (stats : LatencyStats) : Outcome LatencyStats :=
  if aggCount + stats.size.toNat ≤ aggSampleSize then
    .next {agg with
      thS := ⟨agg.thS.rx.add stats.thS.rx,agg.thS.tx.add stats.thS.tx⟩
      samples := fun index =>
        if aggCount ≤ index ∧ index < aggCount + stats.size.toNat then stats.samples (index - aggCount)
        else agg.samples index}
  else .fault

def aggregateFrom (agg : LatencyStats) (aggCount : Nat) : List LatencyStats → Outcome LatencyStats
  | [] => return {agg with size := UInt32.ofNat aggCount}
  | stats :: rest => do
    let agg' ← appendSamples agg aggCount stats
    aggregateFrom agg' (aggCount + stats.size.toNat) rest

def aggregateLatencySamples (atype : AgentType) (aggStats : LatencyStats) (allStats : List LatencyStats) :
    Outcome LatencyStats :=
  aggregateFrom {clearStats atype aggStats with samples := fun _ => .zero} 0 allStats

def addThroughputTxSample (measure : Bool) (stats : LatencyStats) (txP : ByteReqPair) : LatencyStats :=
  if measure then {stats with thS := {stats.thS with tx := stats.thS.tx.add txP}} else stats

def addThroughputRxSample (measure : Bool) (stats : LatencyStats) (rxP : ByteReqPair) : LatencyStats :=
  if measure then {stats with thS := {stats.thS with rx := stats.thS.rx.add rxP}} else stats

def addTxTimestamp (measure : Bool) (txS : TxSamples) (txTs : Timespec) : TxSamples :=
  if measure then
    ⟨txS.count + 1,fun index =>
      if index = txS.count.toNat % maxPerThreadTxSamples then txTs else txS.samples index⟩
  else txS

def addLatencySample (measure : Bool) (sampling : Sampling) (draw : Float) (stats : LatencyStats)
    (diff : Int) (tx : Option Timespec) : Outcome LatencyStats :=
  if !measure || sampling.samplingRate < draw then .next stats
  else
    let capacity := UInt32.ofInt sampling.perThreadSamples
    -- before the first `set_per_thread_samples` the index is taken modulo zero
    if capacity = 0 then .fault
    else
      let position := (stats.count % capacity).toNat
      let count := stats.count + 1
      .next {stats with
        count := count
        size := if capacity < count then capacity else count
        samples := fun index =>
          if index = position then ⟨UInt64.ofInt diff,tx.getD (stats.samples index).tx⟩ else stats.samples index}

theorem addLatencySample_throughput {measure : Bool} {sampling : Sampling} {draw : Float} {stats stats' : LatencyStats} {diff : Int}
    {tx : Option Timespec} (added : addLatencySample measure sampling draw stats diff tx = .next stats') :
    stats'.thS = stats.thS := by
  rw [addLatencySample] at added
  split at added
  next =>
    cases added
    rfl
  next =>
    dsimp only at added
    split at added
    next => cases added
    next =>
      cases added
      rfl

inductive StatsCall where
  | throughputTx (txP : ByteReqPair)
  | throughputRx (rxP : ByteReqPair)
  | txTimestamp (txTs : Timespec)
  | latency (diff : Int) (tx : Option Timespec)
  deriving DecidableEq, Repr

def ThreadStats.apply (measure : Bool) (sampling : Sampling) (draw : Float) (thread : ThreadStats) :
    StatsCall → Outcome ThreadStats
  | .throughputTx txP => .next {thread with stats := addThroughputTxSample measure thread.stats txP}
  | .throughputRx rxP => .next {thread with stats := addThroughputRxSample measure thread.stats rxP}
  | .txTimestamp txTs => .next {thread with txS := addTxTimestamp measure thread.txS txTs}
  | .latency diff tx => do
    let stats ← addLatencySample measure sampling draw thread.stats diff tx
    return {thread with stats := stats}

end Lancet.Stats
