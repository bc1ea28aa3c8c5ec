import Lancet.FixedTermination
import Lancet.Foundation.Strides

/-! Which experiments come to an end. When no call to an agent fails, it is left to the pattern
and to the configured agents whether the experiment returns. -/
namespace Lancet.PatternReturns
open Foundation CoordProto Proto Patterns ReliableNet

section Statistics

theorem computeStatsThroughput_value {replies : List ThroughputReply} (nonempty : replies ≠ []) :
    Total (computeStatsThroughput replies) (fun _ => True) := by
  cases replies with
  | nil => exact absurd rfl nonempty
  | cons first replies => exact total_pure trivial

theorem printThroughputStats_value (stats : ThroughputReply) : Total (printThroughputStats stats) (fun _ => True) :=
  (println_value _).bind fun _ _ => printf_value _ _

theorem printLatencyStats_value (stats : LatencyReply) : Total (printLatencyStats stats) (fun _ => True) :=
  (println_value _).bind fun _ _ => printf_value _ _

theorem computeStatsLatency_value {replies : List LatencyReply} (nonzero : UInt64.ofNat replies.length ≠ 0) :
    Total (computeStatsLatency replies) (fun _ => True) := by
  refine (total_forEach printLatencyStats_value replies).bind fun _ _ => ?_
  rw [if_neg nonzero]
  exact total_pure trivial

theorem computeStatsLatency_panics {replies : List LatencyReply} (empty : replies = []) :
    Yields (computeStatsLatency replies) (· = .panic) := by
  refine (total_forEach printLatencyStats_value replies).bind_yields fun _ _ => ?_
  rw [empty]
  exact yields_crash

end Statistics

section Network
variable {σ : Type} {net : Net σ}

theorem testSymPattern_value (reliable : Reliable net) {c : Coordinator} (slice : Slice c.symAgents) (loadRate : Int) :
    Total (testSymPattern net c loadRate) (fun _ => True) := by
  rw [testSymPattern,if_neg (fun empty => slice.nonempty (List.length_eq_zero_iff.mp empty))]
  refine ((reliable.startLoad _ _).describe _).bind fun _ _ => ?_
  refine (sleep_value _).bind fun _ _ => ?_
  refine (printf_value _ _).onSecond.bind fun _ _ => ?_
  refine (printf_value _ _).onSecond.bind fun _ _ => ?_
  refine (println_value _).onSecond.bind fun _ _ => ?_
  refine ((reliable.startMeasure _ _ _).describe _).bind fun _ _ => ?_
  refine (printf_value _ _).onSecond.bind fun _ _ => ?_
  refine (sleep_value _).bind fun _ _ => ?_
  refine ((reliable.reportLatency _).describe _).bind fun results each => ?_
  refine (sleep_value _).bind fun _ _ => Total.onSecond ?_
  have replies := slice.replies each
  refine (computeStatsThroughput_value (mt List.map_eq_nil_iff.mp replies.1)).bind fun _ _ => ?_
  refine (printThroughputStats_value _).bind fun _ _ => ?_
  refine (computeStatsLatency_value replies.2).bind fun _ _ => ?_
  refine (println_value _).bind fun _ _ => ?_
  refine (printLatencyStats_value _).bind fun _ _ => ?_
  refine (printf_value _ _).bind fun _ _ => ?_
  refine (printf_value _ _).bind fun _ _ => ?_
  exact printf_value _ _

theorem testSymPattern_panics {c : Coordinator} (empty : c.symAgents = []) (loadRate : Int) :
    Yields (testSymPattern net c loadRate) (· = .panic) := by
  rw [testSymPattern,if_pos (List.length_eq_zero_iff.mpr empty)]
  exact yields_crash

theorem loadThAgents_value (reliable : Reliable net) (c : Coordinator) (loadRate : Int) :
    Total (loadThAgents net c loadRate) (fun _ => True) := by
  rw [loadThAgents]
  split
  · exact (reliable.startLoad _ _).describe _
  · exact total_pure trivial

/-- Up to its statistics the asymmetric test cannot fail. -/
theorem testAsymPattern_yields (reliable : Reliable net) {c : Coordinator} (loadRate latencyRate : Int)
    {ended : Returned Unit → Prop}
    (rest : ∀ (throughput : ThroughputResults) (latency : LatencyResults), latency.result.length = c.ltAgents.length →
      Yields (do
        let aggThroughput ← computeStatsThroughput (throughput.result ++ latency.result.map (·.thData))
        printThroughputStats aggThroughput
        printf "Check inter-arrival: %v\n" [.ints throughput.iaComp]
        let _ ← computeStatsLatency latency.result : Go Screen Unit) ended) :
    Yields (testAsymPattern net c loadRate latencyRate) ended := by
  refine (loadThAgents_value reliable c loadRate).bind_yields fun _ _ => ?_
  refine ((reliable.startLoad _ _).describe _).bind_yields fun _ _ => ?_
  refine (sleep_value _).bind_yields fun _ _ => ?_
  refine ((reliable.startMeasure _ _ _).describe _).bind_yields fun _ _ => ?_
  refine (printf_value _ _).onSecond.bind_yields fun _ _ => ?_
  refine (sleep_value _).bind_yields fun _ _ => ?_
  refine ((reliable.reportThroughput _).describe _).bind_yields fun throughput _ => ?_
  refine ((reliable.reportLatency _).describe _).bind_yields fun latency each => ?_
  exact (rest throughput latency each).onSecond

theorem testAsymPattern_value (reliable : Reliable net) {c : Coordinator} (slice : Slice c.ltAgents) (loadRate latencyRate : Int) :
    Total (testAsymPattern net c loadRate latencyRate) (fun _ => True) := by
  refine (testAsymPattern_yields reliable loadRate latencyRate fun throughput latency each => ?_).total
  have replies := slice.replies each
  have nonempty : throughput.result ++ latency.result.map (·.thData) ≠ [] :=
    fun empty => replies.1 (List.map_eq_nil_iff.mp (List.append_eq_nil_iff.mp empty).2)
  refine Total.yields ?_
  refine (computeStatsThroughput_value nonempty).bind fun _ _ => ?_
  refine (printThroughputStats_value _).bind fun _ _ => ?_
  refine (printf_value _ _).bind fun _ _ => ?_
  exact (computeStatsLatency_value replies.2).bind fun _ _ => total_pure trivial

/-- Without latency agents the test divides by their number, if it gets there. -/
theorem testAsymPattern_panics (reliable : Reliable net) {c : Coordinator} (missing : c.ltAgents = []) (loadRate latencyRate : Int) :
    Yields (testAsymPattern net c loadRate latencyRate) (· = .panic) := by
  refine testAsymPattern_yields reliable loadRate latencyRate fun throughput latency each => ?_
  have empty : latency.result = [] := List.length_eq_zero_iff.mp (each.trans (List.length_eq_zero_iff.mpr missing))
  rw [empty,List.map_nil,List.append_nil]
  cases throughput.result with
  | nil => exact Yields.bind_panic yields_crash
  | cons first replies =>
    refine (computeStatsThroughput_value (List.cons_ne_nil first replies)).bind_yields fun _ _ => ?_
    refine (printThroughputStats_value _).bind_yields fun _ _ => ?_
    refine (printf_value _ _).bind_yields fun _ _ => ?_
    exact (computeStatsLatency_panics rfl).bind_panic

theorem wrap_range (value : Int) : -2^63 ≤ wrap value ∧ wrap value < 2^63 :=
  Strides.bmod_range (rfl : 2 * 2^63 = 2^64) (by decide) value

theorem wrap_start {value : Int} (low : -2^63 ≤ value) (high : value < 2^63) (stride : Int) :
    wrap (value + (0 : Nat) * stride) = value := by
  rw [Int.natCast_zero,Int.zero_mul,Int.add_zero]
  exact Strides.bmod_of_range rfl low high

theorem wrap_next (value stride : Int) (count : Nat) :
    wrap (wrap (value + stride) + count * stride) = wrap (value + (count + 1 : Nat) * stride) := by
  rw [wrap,wrap,Int.bmod_add_bmod,wrap]
  congr 1
  push_cast
  ring

/-- How a loop over rising loads ends within its passes. -/
def Climbs (start step endLoad : Int) (passes : Nat) (result : Returned Unit) : Prop :=
  (result = .value () ∧ ∃ count < passes, endLoad ≤ wrap (start + count * step)) ∨
    (result = .running ∧ ∀ count < passes, wrap (start + count * step) < endLoad)

theorem stepPattern_climbs (reliable : Reliable net) {c : Coordinator} (slice : Slice c.ltAgents) (endLoad step latencyRate : Int)
    (passes : Nat) {loadRate : Int} (low : -2^63 ≤ loadRate) (high : loadRate < 2^63) :
    Yields (Go.loop (stepIteration net c endLoad step latencyRate) passes loadRate) (Climbs loadRate step endLoad passes) := by
  induction passes generalizing loadRate with
  | zero => exact fun world => .inr ⟨rfl,fun count under => absurd under (Nat.not_lt_zero count)⟩
  | succ passes ih =>
    rw [Go.loop]
    by_cases below : loadRate < endLoad
    · have pass : Total (stepIteration net c endLoad step latencyRate loadRate) (· = .inl (wrap (loadRate + step))) := by
        rw [stepIteration,if_pos below]
        refine (testAsymPattern_value reliable slice loadRate latencyRate).bind fun _ _ => ?_
        exact (println_value _).onSecond.bind fun _ _ => total_pure rfl
      refine pass.bind_yields fun state same => ?_
      rw [same]
      obtain ⟨low',high'⟩ := wrap_range (loadRate + step)
      refine (ih low' high').weaken fun result climbs => ?_
      rcases climbs with ⟨value,count,few,reached⟩ | ⟨running,short⟩
      · rw [wrap_next] at reached
        exact .inl ⟨value,count + 1,Nat.succ_lt_succ few,reached⟩
      · refine .inr ⟨running,fun count few => ?_⟩
        cases count with
        | zero => exact (wrap_start low high step).symm ▸ below
        | succ count => exact wrap_next loadRate step count ▸ short count (Nat.lt_of_succ_lt_succ few)
    · have pass : Total (stepIteration net c endLoad step latencyRate loadRate) (· = .inr ()) := by
        rw [stepIteration,if_neg below]
        exact total_pure rfl
      refine pass.bind_yields fun state same => ?_
      rw [same]
      exact fun world => .inl ⟨rfl,0,Nat.succ_pos passes,(wrap_start low high step).symm ▸ Int.not_lt.mp below⟩

end Network

/-- An experiment has returned nil or an error. -/
def Answered (result : Returned Unit) : Prop := result = .value () ∨ ∃ text, result = .error text

/-- The part is there, and the rest is asked of it if it is a number. -/
def Parses (patternAgs : List (List Char)) (index : Nat) (rest : Int → Prop) : Prop :=
  match patternAgs[index]? with
  | none => False
  | some part => match atoi part with
    | none => True
    | some value => rest value

instance (patternAgs : List (List Char)) (index : Nat) (rest : Int → Prop) [DecidablePred rest] :
    Decidable (Parses patternAgs index rest) :=
  match found : patternAgs[index]? with
  | none => .isFalse (by simp [Parses,found])
  | some part => match parsed : atoi part with
    | none => .isTrue (by simp [Parses,found,parsed])
    | some value => decidable_of_iff (rest value) (by simp [Parses,found,parsed])

/-- The loads get to the end if there are any, and each load can be tested. -/
def Climbable (agents : Coordinator) (startLoad step endLoad : Int) : Prop :=
  startLoad < endLoad → agents.ltAgents ≠ [] ∧ endLoad ≤ Strides.top (2^64) (2^63) startLoad step

instance (agents : Coordinator) (startLoad step endLoad : Int) : Decidable (Climbable agents startLoad step endLoad) :=
  inferInstanceAs (Decidable (_ → _))

/-- What a pattern asks of its parts and of the configured agents. -/
def Answerable (agents : Coordinator) (patternAgs : List (List Char)) : Prop :=
  if patternAgs.headD [] = ['f','i','x','e','d'] then agents.symAgents = [] ∨ Parses patternAgs 1 (fun _ => True)
  else if patternAgs.headD [] = ['s','t','e','p'] then
    Parses patternAgs 1 fun startLoad => Parses patternAgs 2 fun step => Parses patternAgs 3 fun endLoad =>
      Climbable agents startLoad step endLoad
  else if patternAgs.headD [] = ['t','e','s','t'] then
    Parses patternAgs 1 fun _ => Parses patternAgs 2 fun _ => agents.symAgents ≠ [] ∨ agents.ltAgents ≠ []
  else if patternAgs.headD [] = ['c','o','r','r'] then
    Parses patternAgs 1 fun _ => Parses patternAgs 2 fun _ => agents.symAgents ≠ []
  else True

instance (agents : Coordinator) (patternAgs : List (List Char)) : Decidable (Answerable agents patternAgs) :=
  inferInstanceAs (Decidable (ite _ _ _))

theorem not_answered_panic : ¬Answered .panic := by
  rintro (value | ⟨text,error⟩)
  · cases value
  · cases error

theorem not_answered_running : ¬Answered .running := by
  rintro (value | ⟨text,error⟩)
  · cases value
  · cases error

theorem atoi_range {text : List Char} {value : Int} (parsed : atoi text = some value) : -2^63 ≤ value ∧ value < 2^63 := by
  unfold atoi at parsed
  exact of_decide_eq_true (Option.filter_eq_some_iff.mp parsed).2

/-- A program that is answered with enough passes, from this world. -/
def Answers {σ : Type} (program : Nat → Go σ Unit) (world : σ) : Prop := ∃ passes, Answered (program passes world).1

section Programs
variable {σ : Type} {world : σ}

theorem answers_parsePart {program : Int → Nat → Go σ Unit} {rest : Int → Prop} (patternAgs : List (List Char)) (index : Nat)
    (reason : String) (each : ∀ value, -2^63 ≤ value → value < 2^63 → (Answers (program value) world ↔ rest value)) :
    Answers (fun passes => parsePart patternAgs index reason >>= fun value => program value passes) world ↔
      Parses patternAgs index rest := by
  rw [Parses]
  cases part : patternAgs[index]? with
  | none =>
    refine iff_of_false ?_ id
    rintro ⟨passes,answered⟩
    rw [parsePart,part] at answered
    exact not_answered_panic answered
  | some text =>
    dsimp only
    cases parsed : atoi text with
    | none =>
      refine iff_of_true ⟨0,.inr ⟨reason,?_⟩⟩ trivial
      rw [parsePart,part]
      dsimp only
      rw [parsed]
      rfl
    | some value =>
      obtain ⟨low,high⟩ := atoi_range parsed
      dsimp only
      rw [← each value low high]
      have same : (parsePart patternAgs index reason : Go σ Int) = pure value := by
        rw [parsePart,part]
        dsimp only
        rw [parsed]
      rw [same]
      exact Iff.rfl

theorem answers_of_value {program : Nat → Go σ Unit} {after : Unit → Prop} (total : Total (program 0) after) :
    Answers program world := by
  obtain ⟨_,returned,-⟩ := total.yields world
  exact ⟨0,.inl returned⟩

theorem not_answers_of_panic {program : Nat → Go σ Unit} (panics : ∀ passes, Yields (program passes) (· = .panic)) :
    ¬Answers program world := by
  rintro ⟨passes,answered⟩
  rw [panics passes world] at answered
  exact not_answered_panic answered

end Programs

section Patterns
variable {σ : Type} {net : Net σ} {world : σ × Screen}

theorem fixed_answers (reliable : Reliable net) {agents : Coordinator} (slice : Slice agents.symAgents) (loadRate ciSize : Int) :
    Answers (fun passes => fixedSymPattern net passes (FixedLoop.started agents) loadRate ciSize) world := by
  obtain ⟨log,final,run,-,returns⟩ := @FixedTermination.fixedSymPattern_finishes σ net agents loadRate ciSize
    reliable slice (maxTries + 2) (Nat.le_refl _) world
  rcases returns with ⟨value,-⟩ | ⟨error,-⟩
  · exact ⟨_,.inl value⟩
  · exact ⟨_,.inr ⟨_,error⟩⟩

theorem step_answers (reliable : Reliable net) {c : Coordinator} (bounded : c.ltAgents.length < 2^63) {startLoad : Int}
    (low : -2^63 ≤ startLoad) (high : startLoad < 2^63) (endLoad step latencyRate : Int) :
    Answers (fun passes => stepPattern net passes c startLoad endLoad step latencyRate) world ↔
      Climbable c startLoad step endLoad := by
  have limit := Strides.reached_iff (rfl : 2 * 2^63 = 2^64) (by decide) low high step endLoad
  by_cases below : startLoad < endLoad
  · by_cases missing : c.ltAgents = []
    · refine iff_of_false ?_ (fun climbable => (climbable below).1 missing)
      rintro ⟨passes,answered⟩
      cases passes with
      | zero => exact not_answered_running answered
      | succ passes =>
        have panics : Yields (stepPattern net (passes + 1) c startLoad endLoad step latencyRate) (· = .panic) := by
          rw [stepPattern,Go.loop,stepIteration,if_pos below]
          exact (testAsymPattern_panics reliable missing startLoad latencyRate).bind_panic.bind_panic
        rw [panics world] at answered
        exact not_answered_panic answered
    · have climbs := fun passes => stepPattern_climbs reliable ⟨missing,bounded⟩ endLoad step latencyRate passes low high world
      constructor
      · rintro ⟨passes,answered⟩ -
        refine ⟨missing,limit.mp ?_⟩
        rcases climbs passes with ⟨-,count,-,reached⟩ | ⟨running,-⟩
        · exact ⟨count,reached⟩
        · dsimp only at answered
          rw [stepPattern,running] at answered
          exact absurd answered not_answered_running
      · intro climbable
        obtain ⟨count,reached⟩ := limit.mpr (climbable below).2
        rcases climbs (count + 1) with ⟨value,-⟩ | ⟨-,short⟩
        · exact ⟨count + 1,.inl value⟩
        · exact absurd reached (Int.not_le.mpr (short count (Nat.lt_succ_self count)))
  · refine iff_of_true ⟨1,.inl ?_⟩ (fun above => absurd above below)
    dsimp only
    rw [stepPattern,Go.loop,stepIteration,if_neg below]
    rfl

theorem test_answers (reliable : Reliable net) {c : Coordinator} (sym : c.symAgents.length < 2^63)
    (lt : c.ltAgents.length < 2^63) (loadRate latencyRate : Int) :
    Answers (fun _ => if 0 < c.symAgents.length then testSymPattern net c loadRate else testAsymPattern net c loadRate latencyRate)
      world ↔ c.symAgents ≠ [] ∨ c.ltAgents ≠ [] := by
  by_cases symmetric : c.symAgents = []
  · rw [if_neg (fun positive => List.length_pos_iff.mp positive symmetric)]
    by_cases missing : c.ltAgents = []
    · exact iff_of_false (not_answers_of_panic fun _ => testAsymPattern_panics reliable missing loadRate latencyRate)
        (fun answers => answers.elim (· symmetric) (· missing))
    · exact iff_of_true (answers_of_value (testAsymPattern_value reliable ⟨missing,lt⟩ loadRate latencyRate)) (.inr missing)
  · rw [if_pos (List.length_pos_iff.mpr symmetric)]
    exact iff_of_true (answers_of_value (testSymPattern_value reliable ⟨symmetric,sym⟩ loadRate)) (.inl symmetric)

theorem total_ignoreError {τ : Type} {program : Go τ Unit} {after : Unit → Prop} (total : Total program after) :
    Total (Go.ignoreError program) (fun _ => True) := by
  refine Yields.total fun world => ?_
  obtain ⟨value,returned,-⟩ := total.yields world
  rw [Go.ignoreError]
  rcases ran : program world with ⟨result,after⟩
  rw [ran] at returned
  cases returned
  exact ⟨(),rfl,trivial⟩

theorem panics_ignoreError {τ : Type} {program : Go τ Unit} (panics : Yields program (· = .panic)) :
    Yields (Go.ignoreError program) (· = .panic) := by
  intro world
  have returned := panics world
  rw [Go.ignoreError]
  rcases ran : program world with ⟨result,after⟩
  rw [ran] at returned
  cases returned
  rfl

theorem corrTest_value (reliable : Reliable net) {c : Coordinator} (slice : Slice c.symAgents) (loadRate : Int) (r : Float) :
    Total (corrTest net c loadRate r) (fun _ => True) := by
  have tested := @testSymPattern_value σ net reliable {c with samplingRate := r} slice loadRate
  rw [corrTest]
  exact (printf_value _ _).onSecond.bind fun _ _ => total_ignoreError tested

theorem corrTest_panics {c : Coordinator} (empty : c.symAgents = []) (loadRate : Int) (r : Float) :
    Yields (corrTest net c loadRate r) (· = .panic) := by
  have tested := @testSymPattern_panics σ net {c with samplingRate := r} empty loadRate
  rw [corrTest]
  exact (printf_value _ _).onSecond.bind_yields fun _ _ => panics_ignoreError tested

theorem corr_answers (reliable : Reliable net) {c : Coordinator} (bounded : c.symAgents.length < 2^63) (loadRate : Int) :
    Answers (fun _ => corrPattern net c loadRate) world ↔ c.symAgents ≠ [] := by
  by_cases empty : c.symAgents = []
  · refine iff_of_false (not_answers_of_panic fun _ => ?_) (fun filled => filled empty)
    rw [corrPattern,smallRates,Go.forEach]
    exact (corrTest_panics empty loadRate _).bind_panic.bind_panic
  · have each := total_forEach (corrTest_value reliable ⟨empty,bounded⟩ loadRate) smallRates
    have total : Total (corrPattern net c loadRate) (fun _ => True) := each.bind fun _ _ => total_pure trivial
    exact iff_of_true (answers_of_value total) empty

end Patterns

/-- When no call fails, an experiment returns exactly when its pattern has the parts that are
read and the agents that are divided by, and its loads come to an end. -/
theorem experiment_returns_iff {σ : Type} (net : Net σ) (reliable : Reliable net) (agents : Coordinator)
    (sym : agents.symAgents.length < 2^63) (lt : agents.ltAgents.length < 2^63) (pattern : List Char)
    (latencyRate ciSize : Int) (world : σ × Screen) :
    (∃ passes, Answered (runExp net passes agents pattern latencyRate ciSize world).1) ↔
      Answerable agents (split ':' pattern) := by
  have error : ∀ text, Answers (fun _ => (Go.fail text : Go (σ × Screen) Unit)) world := fun text => ⟨0,.inr ⟨text,rfl⟩⟩
  unfold runExp Answerable
  dsimp only
  generalize split ':' pattern = patternAgs
  by_cases fixed : patternAgs.headD [] = ['f','i','x','e','d']
  · simp only [if_pos fixed]
    by_cases empty : agents.symAgents = []
    · simp only [if_pos (List.length_eq_zero_iff.mpr empty)]
      exact iff_of_true (error _) (.inl empty)
    · simp only [if_neg (mt List.length_eq_zero_iff.mp empty)]
      rw [or_iff_right empty]
      refine answers_parsePart patternAgs 1 parsingLoad fun loadRate _ _ => ?_
      exact iff_of_true (fixed_answers reliable ⟨empty,sym⟩ loadRate ciSize) trivial
  · simp only [if_neg fixed]
    by_cases step : patternAgs.headD [] = ['s','t','e','p']
    · simp only [if_pos step]
      refine answers_parsePart patternAgs 1 parsingLoad fun startLoad low high => ?_
      refine answers_parsePart patternAgs 2 parsingLoad fun step _ _ => ?_
      refine answers_parsePart patternAgs 3 parsingLoad fun endLoad _ _ => ?_
      exact @step_answers σ net world reliable (FixedLoop.started agents) lt startLoad low high endLoad step latencyRate
    · simp only [if_neg step]
      by_cases test : patternAgs.headD [] = ['t','e','s','t']
      · simp only [if_pos test]
        refine answers_parsePart patternAgs 1 parsingLoad fun loadRate _ _ => ?_
        refine answers_parsePart patternAgs 2 parsingSamples fun samples _ _ => ?_
        exact @test_answers σ net world reliable
          {agents with samples := samples, samplingRate := initialSamplingRate} sym lt loadRate latencyRate
      · simp only [if_neg test]
        by_cases corr : patternAgs.headD [] = ['c','o','r','r']
        · simp only [if_pos corr]
          refine answers_parsePart patternAgs 1 parsingLoad fun loadRate _ _ => ?_
          refine answers_parsePart patternAgs 2 parsingSamples fun samples _ _ => ?_
          exact @corr_answers σ net world reliable
            {agents with samples := samples, samplingRate := initialSamplingRate} sym loadRate
        · simp only [if_neg corr]
          exact iff_of_true (error _) trivial

theorem two_agents_separate : ([0] ++ [1] ++ [] : List Conn).Nodup := by decide

def exampleAgents : Coordinator := ⟨[0],[1],[],0,0,two_agents_separate⟩

/-- A step pattern that gets over its end. -/
theorem experiment_returns_step : ∃ passes, Answered
    (runExp (reportingNet FixedTermination.exampleReports) passes exampleAgents "step:1000:500:3001".toList 100 0 ((),[])).1 :=
  (experiment_returns_iff (reportingNet FixedTermination.exampleReports) (reportingNet_reliable FixedTermination.exampleReports)
    exampleAgents (by decide) (by decide) "step:1000:500:3001".toList 100 0 ((),[])).mpr (by decide)

/-- A fixed pattern without a load is read past its end. -/
theorem missing_load_panics : ¬∃ passes, Answered
    (runExp (reportingNet FixedTermination.exampleReports) passes FixedTermination.exampleAgents "fixed".toList 0 1000 ((),[])).1 := by
  rintro ⟨passes,answered⟩
  have panics : (runExp (reportingNet FixedTermination.exampleReports) passes FixedTermination.exampleAgents "fixed".toList 0 1000
    ((),[])).1 = .panic := rfl
  rw [panics] at answered
  exact not_answered_panic answered

end Lancet.PatternReturns
