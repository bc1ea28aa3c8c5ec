import Lancet.FixedLoop
import Lancet.Stats
import Lancet.Foundation.ExactDouble
import Lancet.Foundation.Exactness

/-! How long the fixed pattern waits for its samples (coordinator.go, stats.c), next to how
many of them an agent can be expected to accept in that time. -/
namespace Lancet.WaitingTime
open Foundation CoordProto Proto Patterns FixedPattern FixedLoop Stats MeasureTheory

section Arithmetic
variable {F : Type} [CDouble F]

def sps (perAgentLoad : Int) (perAgentSamplingRate : F) : F := CDouble.ofInt perAgentLoad * perAgentSamplingRate / 100.0

/-- The waiting time without its extra second. -/
def wholeSeconds (samples perAgentLoad : Int) (perAgentSamplingRate : F) : Int :=
  CDouble.ceil (CDouble.ofInt samples / sps perAgentLoad perAgentSamplingRate)

/-- The rate that `set_per_thread_samples` keeps. -/
def keptRate (sr : F) : F := sr / CDouble.ofInt 100

/-- The test by which `add_latency_sample` drops a sample. -/
def drops (samplingRate draw : F) : Bool := CDouble.lt samplingRate draw

end Arithmetic

/-- What the latency state prints and sleeps. -/
def seconds (plan : Plan) (loop : Loop) : Int :=
  wrap (intOfFloat (wholeSeconds loop.samples plan.perAgentLoad loop.perAgentSamplingRate) + 1)

theorem iteration_waits {σ : Type} (net : Net σ) {plan : Plan} {loop : Loop} (tries : loop.tryCount < maxTries)
    (waiting : loop.state = .waitForLatency) :
    ∃ rest : Unit → Go (σ × Screen) (Loop ⊕ Unit), iteration net plan loop = (do
      Go.describe startingLoad (Go.onFirst (startMeasure net plan.agents loop.samples
        (Float.ofInt plan.agents.length * loop.samplingRate)))
      screen (printf "Will run for %v sec\n" [.int (seconds plan loop)])
      screen (printf "Sampling rate = %v\n" [.float loop.samplingRate])
      screen (printf "Number of samples = %v\n" [.int loop.samples])
      sleep net (seconds plan loop) >>= rest) := by
  rw [iteration,if_pos tries,waiting]
  exact ⟨_,rfl⟩

theorem setPerThreadSamples_rate {samples : Int} {sr : Float} {chosen : Sampling}
    (set : setPerThreadSamples samples sr = .next chosen) : chosen.samplingRate = keptRate sr := by
  rw [setPerThreadSamples] at set
  obtain ⟨-,-,set⟩ := Outcome.bind_next set
  obtain ⟨-,-,set⟩ := Outcome.bind_next set
  cases set
  rfl

theorem addLatencySample_drops {sampling : Sampling} {draw : Float} (dropped : drops sampling.samplingRate draw = true)
    (measure : Bool) (stats : LatencyStats) (diff : Int) (tx : Option Timestamping.Timespec) :
    addLatencySample measure sampling draw stats diff tx = .next stats := by
  have less : decide (sampling.samplingRate < draw) = true := dropped
  rw [addLatencySample,less,Bool.or_true,if_pos rfl]

section Exact

/-- The probability that `drand48()` keeps a sample. -/
noncomputable def acceptance (sr : ℝ) : ℝ := volume.real {draw ∈ Set.Ico (0 : ℝ) 1 | drops (keptRate sr) draw = false}

theorem acceptance_eq {sr : ℝ} (nonneg : 0 ≤ sr) : acceptance sr = min 1 (sr / 100) := by
  have kept : {draw ∈ Set.Ico (0 : ℝ) 1 | drops (keptRate sr) draw = false} = {draw ∈ Set.Ico (0 : ℝ) 1 | draw ≤ sr / 100} := by
    ext draw
    simp [drops,keptRate]
  rw [acceptance,kept]
  rcases le_or_gt 1 (sr / 100) with always | sometimes
  · have all : {draw ∈ Set.Ico (0 : ℝ) 1 | draw ≤ sr / 100} = Set.Ico 0 1 :=
      Set.sep_eq_self_iff_mem_true.mpr (fun draw member => member.2.le.trans always)
    rw [all,min_eq_left always]
    simp
  · have accepts : {draw ∈ Set.Ico (0 : ℝ) 1 | draw ≤ sr / 100} = Set.Icc 0 (sr / 100) := by
      ext draw
      exact ⟨fun member => ⟨member.1.1,member.2⟩,fun member => ⟨⟨member.1,member.2.trans_lt sometimes⟩,member.2⟩⟩
    have fraction : 0 ≤ sr / 100 := div_nonneg nonneg (by norm_num)
    rw [accepts,min_eq_right sometimes.le]
    simp [fraction]

/-- How many samples an agent accepts on average when it completes its load. -/
noncomputable def expectedSamples (perAgentLoad seconds : Int) (sr : ℝ) : ℝ := perAgentLoad * seconds * acceptance sr

variable (agents : Nat) (loadRate samples : Int) (samplingRate : ℝ)

/-- While the coordinator waits, an agent can be expected to accept the samples asked for. -/
def LongEnough : Prop := samples ≤ expectedSamples (loadRate.tdiv agents)
  (wholeSeconds samples (loadRate.tdiv agents) (agents * samplingRate) + 1) (agents * samplingRate)

/-- The agents' rates do not saturate, or so few seconds are needed that the extra one makes up for it. -/
def Unsaturated : Prop := agents * samplingRate ≤ (100 : Int) ∨
  agents * samplingRate * (loadRate.tdiv agents * (⌈(samples : ℝ) / (loadRate.tdiv agents : Int)⌉ - 2) : Int) < (100 * samples : Int)

variable {agents loadRate samples samplingRate}

theorem perAgentLoad_pos (positive : 0 < agents) (loaded : agents ≤ loadRate) : 0 < loadRate.tdiv agents := by
  rw [Int.tdiv_eq_ediv_of_nonneg (by omega)]
  exact Int.le_ediv_of_mul_le (by omega) (by omega)

/-- One second more than the ceiling is enough unless two seconds are missing. -/
theorem ceil_enough {load needed scaled : ℝ} (positive : 0 < load) : needed ≤ load * (⌈scaled⌉ + 1) ↔ ⌈needed / load⌉ - 2 < scaled := by
  have whole : needed ≤ load * (⌈scaled⌉ + 1) ↔ ⌈needed / load⌉ ≤ ⌈scaled⌉ + 1 := by
    rw [Int.ceil_le,div_le_iff₀' positive]
    push_cast
    rfl
  have below : ((⌈needed / load⌉ - 2 : ℤ) : ℝ) < scaled ↔ ⌈needed / load⌉ - 2 < ⌈scaled⌉ := Int.lt_ceil.symm
  push_cast at below
  rw [whole,below]
  omega

theorem wholeSeconds_eq (perAgentLoad : Int) (rate : ℝ) : wholeSeconds samples perAgentLoad rate = ⌈samples / (perAgentLoad * rate / 100)⌉ := by
  simp only [wholeSeconds,sps,ExactDouble.ofInt_eq,ExactDouble.ceil_eq]
  norm_num

theorem long_enough_iff (least : 0 < agents) (loaded : agents ≤ loadRate) (positive : 0 < samplingRate) :
    LongEnough agents loadRate samples samplingRate ↔ Unsaturated agents loadRate samples samplingRate := by
  have sends : (0 : ℝ) < (loadRate.tdiv agents : Int) := Int.cast_pos.mpr (perAgentLoad_pos least loaded)
  have accepts : 0 < agents * samplingRate := mul_pos (Nat.cast_pos.mpr least) positive
  rw [LongEnough,Unsaturated,expectedSamples,acceptance_eq accepts.le,wholeSeconds_eq]
  push_cast
  generalize ((loadRate.tdiv agents : Int) : ℝ) = load at *
  generalize (agents : ℝ) * samplingRate = rate at *
  have accepted : 0 < load * rate / 100 := by positivity
  rcases le_or_gt rate 100 with fraction | saturated
  · have waited := (div_le_iff₀' accepted).mp (Int.le_ceil (samples / (load * rate / 100) : ℝ))
    rw [min_eq_right (by linarith)]
    refine iff_of_true ?_ (.inl fraction)
    linarith
  · rw [min_eq_left (by linarith),mul_one,ceil_enough sends,lt_div_iff₀ accepted,or_iff_right (not_le.mpr saturated)]
    constructor
    · intro few
      linarith
    · intro few
      linarith

end Exact

/-- The sampling rate that a run has reached. -/
def reachedRate (plan : Plan) (log : List (Event × Iteration)) : ℚ := 20 / 2 ^ tally plan .halved log

theorem rate_checked : ∀ halvings ≤ maxTries,
    Binary64.standsBetween (initialSamplingRate / Float.ofInt (2 ^ halvings : Nat)) 20 20 (2 ^ halvings) = true := by
  decide +kernel

theorem rate_denotes {halvings : Nat} (few : halvings ≤ maxTries) :
    Binary64.Denotes (initialSamplingRate / Float.ofInt (2 ^ halvings : Nat)) (20 / 2 ^ halvings) := by
  obtain ⟨value,denotes,low,high⟩ := Binary64.denotes_of_check (Nat.two_pow_pos halvings) (rate_checked halvings few)
  have same : value = 20 / 2 ^ halvings := by
    push_cast at low high
    exact le_antisymm high low
  exact same ▸ denotes

theorem reachedRate_pos (plan : Plan) (log : List (Event × Iteration)) : 0 < (reachedRate plan log : ℝ) := by
  have positive : 0 < reachedRate plan log := div_pos (by norm_num) (by positivity)
  exact_mod_cast positive

/-- The rate that a run has reached is what its variable stands for, and with it the wait is long enough just when the
agents do not saturate. -/
theorem waiting_time_iff (agents : Coordinator) (loadRate ciSize : Int) (positive : 1 ≤ agents.symAgents.length)
    (loaded : agents.symAgents.length ≤ loadRate) {log : List (Event × Iteration)} {loop : Loop}
    (run : (fixedSymRun (fixedPlan (started agents) loadRate ciSize)).Run AnyReplies (fixedLoop (started agents)) log loop) :
    Binary64.Denotes loop.samplingRate (reachedRate (fixedPlan (started agents) loadRate ciSize) log) ∧
      loop.perAgentSamplingRate = Float.ofInt agents.symAgents.length * loop.samplingRate ∧
      (LongEnough agents.symAgents.length loadRate loop.samples (reachedRate (fixedPlan (started agents) loadRate ciSize) log) ↔
        Unsaturated agents.symAgents.length loadRate loop.samples
          (reachedRate (fixedPlan (started agents) loadRate ciSize) log)) := by
  have book := book_run run
  have tries := book.tries
  have bounded := book.bounded
  refine ⟨?_,book.perAgent,long_enough_iff positive loaded (reachedRate_pos _ log)⟩
  rw [book.samplingRate]
  exact rate_denotes (by omega)

def symmetricAgents (count : Nat) : Coordinator := ⟨[],[],List.range count,0,0,List.nodup_range⟩

/-- Every agent reports 1000 requests a second. -/
def exampleReplies (count : Nat) : Event :=
  .throughput ⟨List.replicate count ⟨64000,64000,1000,1000000⟩,List.replicate count 1⟩

def examplePlan (count : Nat) : Plan := fixedPlan (started (symmetricAgents count)) (1000 * count) 1000

def firstWait (count : Nat) (ended : List (Event × Iteration) × Loop) : Bool :=
  ended.2.state = .waitForLatency ∧ ended.2.samples = 10000 ∧ tally (examplePlan count) .halved ended.1 = 0

theorem first_wait {count : Nat} (reached : ((fixedSymRun (examplePlan count)).follow (fun _ _ _ => true) []
    (fixedLoop (started (symmetricAgents count))) [exampleReplies count]).any (firstWait count) = true) :
    ∃ log loop, (fixedSymRun (examplePlan count)).Run AnyReplies (fixedLoop (started (symmetricAgents count))) log loop ∧
      loop.state = .waitForLatency ∧ loop.samples = 10000 ∧ reachedRate (examplePlan count) log = 20 := by
  obtain ⟨log,loop,run,first⟩ := @Machine.run_of_follow _ _ _ (fixedSymRun (examplePlan count)) AnyReplies
    (fixedLoop (started (symmetricAgents count))) (fun _ _ _ => true) (fun _ _ _ _ => trivial) [exampleReplies count]
    (firstWait count) reached
  obtain ⟨waiting,samples,unhalved⟩ := of_decide_eq_true first
  refine ⟨log,loop,run,waiting,samples,?_⟩
  rw [reachedRate,unhalved,pow_zero,div_one]

/-- Five agents sample every request, and no more than that. -/
theorem waiting_time_five : ∃ log loop,
    (fixedSymRun (examplePlan 5)).Run AnyReplies (fixedLoop (started (symmetricAgents 5))) log loop ∧
      loop.state = .waitForLatency ∧ LongEnough 5 5000 loop.samples (reachedRate (examplePlan 5) log) := by
  obtain ⟨log,loop,run,waiting,-,rate⟩ := @first_wait 5 (by decide +kernel)
  have characterized := (waiting_time_iff (symmetricAgents 5) 5000 1000 (by decide) (by decide) run).2.2
  refine ⟨log,loop,run,waiting,characterized.mpr (.inl ?_)⟩
  have reached : reachedRate (fixedPlan (started (symmetricAgents 5)) 5000 1000) log = 20 := rate
  have five : (symmetricAgents 5).symAgents.length = 5 := rfl
  rw [reached,five]
  norm_num

/-- Ten agents at 1000 requests a second each wait 6 seconds for 10000 samples. -/
theorem ten_agents_fail : ∃ log loop,
    (fixedSymRun (examplePlan 10)).Run AnyReplies (fixedLoop (started (symmetricAgents 10))) log loop ∧
      loop.state = .waitForLatency ∧ ¬LongEnough 10 10000 loop.samples (reachedRate (examplePlan 10) log) := by
  obtain ⟨log,loop,run,waiting,samples,rate⟩ := @first_wait 10 (by decide +kernel)
  refine ⟨log,loop,run,waiting,?_⟩
  have positive := reachedRate_pos (examplePlan 10) log
  have load : (10000 : Int).tdiv (10 : Nat) = 1000 := rfl
  rw [long_enough_iff (by decide) (by decide) positive,Unsaturated,samples,rate,load]
  norm_num

end Lancet.WaitingTime
