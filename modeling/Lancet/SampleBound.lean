import Lancet.FixedTermination

/-! The sample counts of the fixed pattern at an agent. The coordinator raises its count after
some failures and knows neither the agent's threads nor its buffers. -/
namespace Lancet.SampleBound
open Foundation Agent Stats CoordProto Proto Patterns FixedPattern FixedLoop FixedTermination
open Manager (perThreadSamples)

/-- The `int payload1` an agent reads of a START_MEASURE. -/
def payload (samples : Int) : Int := toInt (UInt32.ofInt samples).toNat

/-- The samples each thread of the agent is to take. -/
def capacity (samples : Int) (threads : Nat) : Int := perThreadSamples (payload samples) threads

def InRange (samples : Int) (threads : Nat) : Prop :=
  0 < capacity samples threads ∧ capacity samples threads ≤ maxPerThreadSamples

instance (samples : Int) (threads : Nat) : Decidable (InRange samples threads) := inferInstanceAs (Decidable (_ ∧ _))

/-- The scaled counts by the number of raises: one thread alone can get too many. -/
theorem inRange_iff : ∀ raises < maxTries, ∀ threads < maxThreads,
    InRange (initialSamples + 10000 * raises) (threads + 1) ↔ threads + 1 ≠ 1 ∨ raises ≤ 11 := by
  decide +kernel

theorem book_raises {plan : Plan} {log : List (Event × Iteration)} {loop : Loop} (book : Book plan log loop)
    (tries : loop.tryCount < maxTries) : tally plan .raised log < maxTries := by
  have counted := book.tries
  omega

/-- A measurement of a run is within an agent's buffers unless one thread gets the thirteenth count. -/
theorem samples_in_range_iff {σ : Type} (net : Net σ) (agents : Coordinator) (loadRate ciSize : Int)
    (log : List (Event × Iteration)) (loop : Loop)
    (run : (fixedSymRun (fixedPlan (started agents) loadRate ciSize)).Run AnyReplies (fixedLoop (started agents)) log loop)
    (tries : loop.tryCount < maxTries) (going : loop.state ≠ .exit) (threads : Nat) (positive : 1 ≤ threads)
    (most : threads ≤ maxThreads) :
    Measures net (fixedPlan (started agents) loadRate ciSize) loop loop.samples loop.perAgentSamplingRate ∧
      (InRange loop.samples threads ↔
        threads ≠ 1 ∨ tally (fixedPlan (started agents) loadRate ciSize) .raised log ≤ 11) ∧
      ∀ samplingRate, setPerThreadSamples (capacity loop.samples threads) samplingRate ≠ .fault ↔
        threads ≠ 1 ∨ tally (fixedPlan (started agents) loadRate ciSize) .raised log ≤ 11 := by
  have book := book_run run
  have bounded : InRange loop.samples threads ↔
      threads ≠ 1 ∨ tally (fixedPlan (started agents) loadRate ciSize) .raised log ≤ 11 := by
    obtain ⟨others,rfl⟩ := Nat.exists_eq_add_of_le' positive
    rw [book.samples]
    exact inRange_iff _ (book_raises book tries) others most
  refine ⟨?_,bounded,fun samplingRate => (setPerThreadSamples_iff _ _).trans bounded⟩
  rw [book.perAgent]
  exact measures_rate tries going

def examplePlan : Plan := fixedPlan (started exampleAgents) 1000 1000

/-- The throughput is right, and then every measurement asks for more samples. -/
def raisingReplies (raises : Nat) : List Event :=
  .throughput ⟨[⟨64000,64000,1000,1000000⟩],[1]⟩ :: List.replicate raises
    (.latency ⟨[⟨⟨64000,64000,1000,1000000⟩,21000,20000,21000,22000,30000,31000,32000,35000,36000,37000,40000,41000,42000⟩],
      [1],[1],[0]⟩)

theorem raising_run : ∃ log loop, (fixedSymRun examplePlan).Run AnyReplies (fixedLoop (started exampleAgents)) log loop ∧
    (tally examplePlan .raised log = 12 ∧ loop.samples = 130000 ∧ loop.tryCount < maxTries ∧ loop.state ≠ .exit) := by
  obtain ⟨log,loop,run,found⟩ := @Machine.run_of_follow _ _ _ (fixedSymRun examplePlan) AnyReplies
    (fixedLoop (started exampleAgents)) (fun _ _ _ => true) (fun _ _ _ _ => trivial) (raisingReplies 12)
    (fun ended => decide (tally examplePlan .raised ended.1 = 12 ∧ ended.2.samples = 130000 ∧ ended.2.tryCount < maxTries ∧
      ended.2.state ≠ .exit)) (by decide +kernel)
  exact ⟨log,loop,run,of_decide_eq_true found⟩

/-- After twelve raises the measurement stops an agent with one thread. -/
theorem raised_out_of_range : ∃ log loop,
    (fixedSymRun examplePlan).Run AnyReplies (fixedLoop (started exampleAgents)) log loop ∧ loop.tryCount < maxTries ∧
      loop.state ≠ .exit ∧ ¬InRange loop.samples 1 ∧
      ∀ samplingRate, setPerThreadSamples (capacity loop.samples 1) samplingRate = .fault := by
  obtain ⟨log,loop,run,-,samples,tries,going⟩ := raising_run
  have outside : ¬InRange 130000 1 := by decide +kernel
  refine ⟨log,loop,run,tries,going,samples ▸ outside,fun samplingRate => ?_⟩
  rw [samples]
  by_contra accepted
  exact outside ((setPerThreadSamples_iff _ _).mp accepted)

theorem samples_in_range_two_threads : ∃ log loop,
    (fixedSymRun examplePlan).Run AnyReplies (fixedLoop (started exampleAgents)) log loop ∧
      tally examplePlan .raised log = 12 ∧ InRange loop.samples 2 := by
  obtain ⟨log,loop,run,raises,-,tries,going⟩ := raising_run
  have inRange := (samples_in_range_iff (ReliableNet.reportingNet exampleReports) exampleAgents 1000 1000 log loop run tries going
    2 (by decide) (by decide)).2.1
  exact ⟨log,loop,run,raises,inRange.mpr (.inl (by decide))⟩

end Lancet.SampleBound
