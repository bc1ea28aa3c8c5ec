import Lancet.Proto
import Lancet.Foundation.CDouble
import Lancet.Foundation.Machine

/-! The coordinator's experiments (coordinator.go, stats.go). Every program runs over the
network and the screen. The iteration of the fixed pattern is split into the calls to the
agents and a pass over what they returned. -/
namespace Lancet.Patterns
open Foundation CoordProto Proto

inductive Value where
  | int (value : Int)
  | float (value : Float)
  | ints (values : List Int)
  | floats (values : List Float)
  deriving DecidableEq

/-- One call of `fmt.Printf`. -/
structure Printed where
  format : String
  args : List Value
  deriving DecidableEq

abbrev Screen := List Printed

def printf (format : String) (args : List Value) : Go Screen Unit := Go.change (fun screen => screen ++ [⟨format,args⟩])

def println (text : String) : Go Screen Unit := printf (text ++ "\n") []

def float64 (value : UInt64) : Float := Float.ofInt value.toNat

/-- Go's conversion of a `float64` to an `int`. -/
def intOfFloat (whole : Int) : Int := if -2^63 ≤ whole ∧ whole < 2^63 then whole else Binary64.indefinite

/-- Go's arithmetic on `int`. -/
def wrap (value : Int) : Int := value.bmod (2^64)

def addThroughput (agg r : ThroughputReply) : ThroughputReply :=
  {agg with rxBytes := agg.rxBytes + r.rxBytes, txBytes := agg.txBytes + r.txBytes, reqCount := agg.reqCount + r.reqCount}

def computeStatsThroughput (replies : List ThroughputReply) : Go Screen ThroughputReply :=
  match replies.head? with
  | none => Go.crash
  | some first => return {replies.foldl addThroughput ⟨0,0,0,0⟩ with duration := first.duration}

def addLatency (agg r : LatencyReply) : LatencyReply where
  thData := agg.thData
  avgLat := agg.avgLat + r.avgLat
  p50I := agg.p50I + r.p50I
  p50 := agg.p50 + r.p50
  p50K := agg.p50K + r.p50K
  p90I := agg.p90I + r.p90I
  p90 := agg.p90 + r.p90
  p90K := agg.p90K + r.p90K
  p95I := agg.p95I + r.p95I
  p95 := agg.p95 + r.p95
  p95K := agg.p95K + r.p95K
  p99I := agg.p99I + r.p99I
  p99 := agg.p99 + r.p99
  p99K := agg.p99K + r.p99K

def divLatency (agg : LatencyReply) (count : UInt64) : LatencyReply where
  thData := agg.thData
  avgLat := agg.avgLat / count
  p50I := agg.p50I / count
  p50 := agg.p50 / count
  p50K := agg.p50K / count
  p90I := agg.p90I / count
  p90 := agg.p90 / count
  p90K := agg.p90K / count
  p95I := agg.p95I / count
  p95 := agg.p95 / count
  p95K := agg.p95K / count
  p99I := agg.p99I / count
  p99 := agg.p99 / count
  p99K := agg.p99K / count

def LatencyReply.zero : LatencyReply := ⟨⟨0,0,0,0⟩,0,0,0,0,0,0,0,0,0,0,0,0,0⟩

def averageLatency (replies : List LatencyReply) : LatencyReply :=
  divLatency (replies.foldl addLatency LatencyReply.zero) (UInt64.ofNat replies.length)

def printThroughputStats (stats : ThroughputReply) : Go Screen Unit := do
  println "#ReqCount\tQPS\tRxBw\tTxBw"
  printf "%v\t%v\t%v\t%v\n" [.int stats.reqCount.toNat,
    .float (1e6 * float64 stats.reqCount / float64 stats.duration),
    .float (1e6 * float64 stats.rxBytes / float64 stats.duration),
    .float (1e6 * float64 stats.txBytes / float64 stats.duration)]

def printLatencyStats (stats : LatencyReply) : Go Screen Unit := do
  println "#Avg Lat\t50th\t90th\t95th\t99th"
  printf "%v\t%v(%v, %v)\t%v(%v, %v)\t%v(%v, %v)\t%v(%v, %v)\n" ([stats.avgLat,
    stats.p50,stats.p50I,stats.p50K,stats.p90,stats.p90I,stats.p90K,stats.p95,stats.p95I,stats.p95K,
    stats.p99,stats.p99I,stats.p99K].map (fun value => .float (float64 value / 1e3)))

def computeStatsLatency (replies : List LatencyReply) : Go Screen LatencyReply := do
  let _ ← Go.forEach printLatencyStats replies
  if UInt64.ofNat replies.length = 0 then Go.crash else return averageLatency replies

def getRPS (stats : ThroughputReply) : Float := 1e6 * float64 stats.reqCount / float64 stats.duration

inductive CoordState where
  | waitForThroughput
  | waitForLatency
  | exit
  deriving DecidableEq, Repr

def initialSamplingRate : Float := 20
def initialSamples : Int := 10000
def maxTries : Nat := 20

/-- The variables of `fixedSymPattern` that its iterations change. -/
structure Loop where
  state : CoordState
  samples : Int
  samplingRate : Float
  perAgentSamplingRate : Float
  tryCount : Nat
  deriving DecidableEq

/-- Its variables that stay as they are. -/
structure Plan where
  agents : List Conn
  perAgentLoad : Int
  expectedRPS : Float
  ciSize : Int

def throughputPass (plan : Plan) (loop : Loop) (results : ThroughputResults) : Go Screen Loop := do
  let aggThroughput ← computeStatsThroughput results.result
  let rps := getRPS aggThroughput
  printf "%v\n" [.float rps]
  printf "Throughput should be between %v %v\n" [.float (0.9 * plan.expectedRPS),.float (1.1 * plan.expectedRPS)]
  if plan.expectedRPS * 1.1 < rps ∨ rps < plan.expectedRPS * 0.90 then
    println "Throughput is wrong"
    return {loop with tryCount := loop.tryCount + 1}
  else
    printf "%v\n" [.ints results.iaComp]
    return {loop with state := .waitForLatency}

def correlated (correlation : UInt64) : Bool := (0.25 : Float) < Float.ofBits correlation

def uncorrelated (correlation : UInt64) : Bool := Float.ofBits correlation == 0

/-- `int(agg_lat.P99_k-agg_lat.P99_i) > (ciSize * 1000)` -/
def intervalExceeds (aggLat : LatencyReply) (ciSize : Int) : Bool :=
  wrap (ciSize * 1000) < wrap (aggLat.p99K - aggLat.p99I).toNat

def aggregateLatencyLine : Printed := ⟨"Aggregate latency" ++ "\n",[]⟩

def latencyPass (plan : Plan) (loop : Loop) (results : LatencyResults) : Go Screen Loop := do
  printf "Unhandled IA comp: %v\n" [.ints (results.iaComp.map (fun flag => (flag.toNat : Int)))]
  printf "Correlations for iidness: %v\n" [.floats (results.correlations.map Float.ofBits)]
  if results.correlations.any correlated then
    let samplingRate := loop.samplingRate / 2
    return {loop with
      samplingRate := samplingRate
      perAgentSamplingRate := Float.ofInt plan.agents.length * samplingRate
      tryCount := loop.tryCount + 1}
  else
    printf "Result convergence: %v\n" [.ints (results.convergence.map (fun flag => (flag.toNat : Int)))]
    -- the convergence test goes over the correlations
    if results.correlations.any uncorrelated then
      return {loop with samples := wrap (loop.samples + 10000), tryCount := loop.tryCount + 1}
    else
      let aggThroughput ← computeStatsThroughput (results.result.map (·.thData))
      printThroughputStats aggThroughput
      let aggLat ← computeStatsLatency results.result
      printf "ciSize = %v\n" [.int plan.ciSize]
      if intervalExceeds aggLat plan.ciSize then
        return {loop with samples := wrap (loop.samples + 10000), tryCount := loop.tryCount + 1}
      else
        println "Aggregate latency"
        printLatencyStats aggLat
        return {loop with state := .exit}

/-- Every agent has a connection of its own. -/
structure Coordinator where
  thAgents : List Conn
  ltAgents : List Conn
  symAgents : List Conn
  samples : Int
  samplingRate : Float
  separate : (thAgents ++ ltAgents ++ symAgents).Nodup

section Programs
variable {σ : Type} (net : Net σ)

def sleep (seconds : Int) : Go (σ × Screen) Unit := Go.onFirst (Go.change (net.sleep seconds))

def screen {σ α : Type} (program : Go Screen α) : Go (σ × Screen) α := Go.onSecond program

def settingLoad (err : String) : String := "Error setting load: " ++ err ++ "\n"
def startingLoad (err : String) : String := "Error starting load: " ++ err ++ "\n"
def throughputReplies (err : String) : String := "Error getting throughput replies: " ++ err ++ "\n"
def latencyReplies (err : String) : String := "Error getting latency replies: " ++ err ++ "\n"

def iteration (plan : Plan) (loop : Loop) : Go (σ × Screen) (Loop ⊕ Unit) :=
  if loop.tryCount < maxTries then
    match loop.state with
    | .waitForThroughput => do
      Go.describe startingLoad (Go.onFirst (startMeasure net plan.agents loop.samples
        (Float.ofInt plan.agents.length * loop.samplingRate)))
      screen (println "Trying throughput")
      sleep net 1
      let results ← Go.describe throughputReplies (Go.onFirst (reportThroughput net plan.agents))
      let loop' ← screen (throughputPass plan loop results)
      return .inl loop'
    | .waitForLatency => do
      Go.describe startingLoad (Go.onFirst (startMeasure net plan.agents loop.samples
        (Float.ofInt plan.agents.length * loop.samplingRate)))
      let sps := Float.ofInt plan.perAgentLoad * loop.perAgentSamplingRate / 100.0
      let duration := wrap (intOfFloat (Binary64.ceil (Float.ofInt loop.samples / sps)) + 1)
      screen (printf "Will run for %v sec\n" [.int duration])
      screen (printf "Sampling rate = %v\n" [.float loop.samplingRate])
      screen (printf "Number of samples = %v\n" [.int loop.samples])
      sleep net duration
      let results ← Go.describe latencyReplies (Go.onFirst (reportLatency net plan.agents))
      let loop' ← screen (latencyPass plan loop results)
      return .inl loop'
    | .exit => return .inr ()
  else Go.fail "Exp Failure: Max tries reached\n"

def fixedPlan (c : Coordinator) (loadRate ciSize : Int) : Plan where
  agents := c.symAgents
  perAgentLoad := loadRate.tdiv c.symAgents.length
  expectedRPS := Float.ofInt loadRate
  ciSize := ciSize

def fixedLoop (c : Coordinator) : Loop where
  state := .waitForThroughput
  samples := c.samples
  samplingRate := c.samplingRate
  perAgentSamplingRate := Float.ofInt c.symAgents.length * c.samplingRate
  tryCount := 0

def fixedSymPattern (passes : Nat) (c : Coordinator) (loadRate ciSize : Int) : Go (σ × Screen) Unit :=
  if c.symAgents.length = 0 then Go.crash
  else do
    let plan := fixedPlan c loadRate ciSize
    Go.describe settingLoad (Go.onFirst (startLoad net plan.agents plan.perAgentLoad))
    sleep net 2
    Go.loop (iteration net plan) passes (fixedLoop c)

def testSymPattern (c : Coordinator) (loadRate : Int) : Go (σ × Screen) Unit :=
  if c.symAgents.length = 0 then Go.crash
  else do
    let perAgentLoad := loadRate.tdiv c.symAgents.length
    Go.describe settingLoad (Go.onFirst (startLoad net c.symAgents perAgentLoad))
    sleep net 5
    screen (printf "The sampling rate is %v\n" [.float c.samplingRate])
    let perAgentSampingRate := c.samplingRate
    screen (printf "Per agent sampling rate %v\n" [.float perAgentSampingRate])
    screen (println "Start measure...")
    Go.describe startingLoad (Go.onFirst (startMeasure net c.symAgents c.samples perAgentSampingRate))
    let sps := Float.ofInt perAgentLoad * perAgentSampingRate / 100.0
    let duration := intOfFloat (Binary64.ceil (Float.ofInt c.samples / sps))
    screen (printf "Will run for %v sec\n" [.int duration])
    sleep net duration
    let results ← Go.describe latencyReplies (Go.onFirst (reportLatency net c.symAgents))
    sleep net 5
    screen do
      let aggThroughput ← computeStatsThroughput (results.result.map (·.thData))
      printThroughputStats aggThroughput
      let aggLat ← computeStatsLatency results.result
      println "Aggregate latency"
      printLatencyStats aggLat
      printf "Result convergence: %v\n" [.ints (results.convergence.map (fun flag => (flag.toNat : Int)))]
      printf "Correlations for iidness: %v\n" [.floats (results.correlations.map Float.ofBits)]
      printf "IA Compliance?: %v\n" [.ints (results.iaComp.map (fun flag => (flag.toNat : Int)))]

def loadThAgents (c : Coordinator) (loadRate : Int) : Go (σ × Screen) Unit :=
  if 0 < c.thAgents.length then
    Go.describe settingLoad (Go.onFirst (startLoad net c.thAgents (loadRate.tdiv c.thAgents.length)))
  else return ()

def testAsymPattern (c : Coordinator) (loadRate latencyRate : Int) : Go (σ × Screen) Unit := do
  loadThAgents net c loadRate
  Go.describe settingLoad (Go.onFirst (startLoad net c.ltAgents latencyRate))
  sleep net 10
  let latPortion := 100.0 * Float.ofInt latencyRate / Float.ofInt (wrap (loadRate + latencyRate))
  let latSamplingRate := if c.samplingRate < latPortion then 100.0 * c.samplingRate / latPortion else 100
  Go.describe startingLoad (Go.onFirst (startMeasure net (c.thAgents ++ c.ltAgents) c.samples latSamplingRate))
  let duration := intOfFloat (Binary64.ceil (Float.ofInt c.samples / (Float.ofInt latencyRate * (latSamplingRate / 100.0))))
  screen (printf "Will run for %v sec\n" [.int duration])
  sleep net duration
  let throughput ← Go.describe throughputReplies (Go.onFirst (reportThroughput net c.thAgents))
  let latency ← Go.describe latencyReplies (Go.onFirst (reportLatency net c.ltAgents))
  screen do
    let aggThroughput ← computeStatsThroughput (throughput.result ++ latency.result.map (·.thData))
    printThroughputStats aggThroughput
    printf "Check inter-arrival: %v\n" [.ints throughput.iaComp]
    let _ ← computeStatsLatency latency.result

def stepIteration (c : Coordinator) (endLoad step latencyRate loadRate : Int) : Go (σ × Screen) (Int ⊕ Unit) :=
  if loadRate < endLoad then do
    testAsymPattern net c loadRate latencyRate
    screen (println "")
    return .inl (wrap (loadRate + step))
  else return .inr ()

def stepPattern (passes : Nat) (c : Coordinator) (startLoad endLoad step latencyRate : Int) : Go (σ × Screen) Unit :=
  Go.loop (stepIteration net c endLoad step latencyRate) passes startLoad

def corrTest (c : Coordinator) (loadRate : Int) (r : Float) : Go (σ × Screen) Unit := do
  screen (printf "Sampling Rate = %v/100\n" [.float r])
  Go.ignoreError (testSymPattern net {c with samplingRate := r} loadRate)

def smallRates : List Float := [0.01,0.05,0.1,0.5,1]

def corrPattern (c : Coordinator) (loadRate : Int) : Go (σ × Screen) Unit := do
  let _ ← Go.forEach (corrTest net c loadRate) smallRates
  return ()

end Programs

/-- `strings.Split` with a one-character separator. -/
def split (separator : Char) : List Char → List (List Char)
  | [] => [[]]
  | char :: text =>
    if char = separator then [] :: split separator text
    else match split separator text with
      | [] => [[char]]
      | part :: parts => (char :: part) :: parts

def digits : List Char → Option Nat
  | [] => none
  | text => text.foldl (fun value char => match value with
    | some value => if '0' ≤ char ∧ char ≤ '9' then some (value * 10 + (char.toNat - '0'.toNat)) else none
    | none => none) (some 0)

/-- `strconv.Atoi` -/
def atoi (text : List Char) : Option Int :=
  let value := match text with
    | '-' :: rest => (digits rest).map (fun value => -(value : Int))
    | '+' :: rest => (digits rest).map (fun value => (value : Int))
    | rest => (digits rest).map (fun value => (value : Int))
  value.filter (fun value => -2^63 ≤ value ∧ value < 2^63)

section Experiment
variable {σ : Type}

/-- `strconv.Atoi(patternAgs[index])` with its error text; a missing part is out of range. -/
def parsePart (patternAgs : List (List Char)) (index : Nat) (reason : String) : Go σ Int :=
  match patternAgs[index]? with
  | none => Go.crash
  | some part => match atoi part with
    | none => Go.fail reason
    | some value => return value

def parsingLoad : String := "Error parsing load\n"
def parsingSamples : String := "Error parsing samples\n"

def runExp (net : Net σ) (passes : Nat) (agents : Coordinator) (pattern : List Char) (latencyRate ciSize : Int) :
    Go (σ × Screen) Unit :=
  let patternAgs := split ':' pattern
  let c := {agents with samples := initialSamples, samplingRate := initialSamplingRate}
  let name := patternAgs.headD []
  if name = ['f','i','x','e','d'] then
    if c.symAgents.length = 0 then Go.fail "Fixed only supported for symmetric experiments\n"
    else do
      let loadRate ← parsePart patternAgs 1 parsingLoad
      fixedSymPattern net passes c loadRate ciSize
  else if name = ['s','t','e','p'] then do
    let startLoad ← parsePart patternAgs 1 parsingLoad
    let step ← parsePart patternAgs 2 parsingLoad
    let endLoad ← parsePart patternAgs 3 parsingLoad
    stepPattern net passes c startLoad endLoad step latencyRate
  else if name = ['t','e','s','t'] then do
    let loadRate ← parsePart patternAgs 1 parsingLoad
    let samples ← parsePart patternAgs 2 parsingSamples
    if 0 < c.symAgents.length then testSymPattern net {c with samples := samples} loadRate
    else testAsymPattern net {c with samples := samples} loadRate latencyRate
  else if name = ['c','o','r','r'] then do
    let loadRate ← parsePart patternAgs 1 parsingLoad
    let samples ← parsePart patternAgs 2 parsingSamples
    corrPattern net {c with samples := samples} loadRate
  else Go.fail "Unknown load pattern"

end Experiment

/-- One iteration as the log of a run keeps it. -/
structure Iteration where
  before : Loop
  after : Loop
  lines : Screen

inductive Event where
  | throughput (results : ThroughputResults)
  | latency (results : LatencyResults)

def ran (loop : Loop) (pass : Go Screen Loop) : Outcome (Loop × Iteration) :=
  match pass [] with
  | (.value loop',lines) => .next (loop',⟨loop,loop',lines⟩)
  | (.panic,_) => .fault
  | (_,_) => .halt

/-- The loop of `fixedSymPattern`, driven by the results that its calls return. -/
def fixedSymRun (plan : Plan) : Machine Loop Event Iteration where
  step loop event :=
    if loop.tryCount < maxTries then
      match loop.state, event with
      | .waitForThroughput, .throughput results => ran loop (throughputPass plan loop results)
      | .waitForLatency, .latency results => ran loop (latencyPass plan loop results)
      | _, _ => .halt
    else .halt

section Steps
variable (plan : Plan) {loop : Loop}

theorem step_throughput (tries : loop.tryCount < maxTries) (state : loop.state = .waitForThroughput) (results : ThroughputResults) :
    (fixedSymRun plan).step loop (.throughput results) = ran loop (throughputPass plan loop results) := by
  rw [fixedSymRun]
  dsimp only
  rw [if_pos tries,state]

theorem step_latency (tries : loop.tryCount < maxTries) (state : loop.state = .waitForLatency) (results : LatencyResults) :
    (fixedSymRun plan).step loop (.latency results) = ran loop (latencyPass plan loop results) := by
  rw [fixedSymRun]
  dsimp only
  rw [if_pos tries,state]

end Steps
end Lancet.Patterns
