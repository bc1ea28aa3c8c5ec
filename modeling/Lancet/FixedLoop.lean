import Lancet.FixedRefinement

/-! The bookkeeping of the fixed pattern. Every reply is judged in one of five ways, and the
variables of the loop only count the judgements. -/
namespace Lancet.FixedLoop
open Foundation CoordProto Proto Patterns FixedPattern FixedRefinement

inductive Verdict where
  -- the throughput is not the expected one
  | rejected
  | reached
  -- the correlations ask for a smaller sampling rate
  | halved
  -- more samples are needed
  | raised
  | printed
  deriving DecidableEq, Repr

def sumThroughput (replies : List ThroughputReply) : ThroughputReply :=
  {replies.foldl addThroughput ⟨0,0,0,0⟩ with duration := (replies.headD ⟨0,0,0,0⟩).duration}

def throughputWrong (plan : Plan) (results : ThroughputResults) : Prop :=
  plan.expectedRPS * 1.1 < getRPS (sumThroughput results.result) ∨ getRPS (sumThroughput results.result) < plan.expectedRPS * 0.90

instance (plan : Plan) (results : ThroughputResults) : Decidable (throughputWrong plan results) :=
  inferInstanceAs (Decidable (_ ∨ _))

def latencyVerdict (plan : Plan) (results : LatencyResults) : Verdict :=
  if results.correlations.any correlated then .halved
  else if results.correlations.any uncorrelated || intervalExceeds (averageLatency results.result) plan.ciSize then .raised
  else .printed

def verdict (plan : Plan) : Event → Verdict
  | .throughput results => if throughputWrong plan results then .rejected else .reached
  | .latency results => latencyVerdict plan results

def judged (plan : Plan) (loop : Loop) : Verdict → Loop
  | .rejected => {loop with tryCount := loop.tryCount + 1}
  | .reached => {loop with state := .waitForLatency}
  | .halved => {loop with
      samplingRate := loop.samplingRate / 2
      perAgentSamplingRate := Float.ofInt plan.agents.length * (loop.samplingRate / 2)
      tryCount := loop.tryCount + 1}
  | .raised => {loop with samples := wrap (loop.samples + 10000), tryCount := loop.tryCount + 1}
  | .printed => {loop with state := .exit}

/-- How often the line above the aggregate latency is on the screen. -/
def Counts (times : Nat) (screen : Screen) : Prop := screen.count aggregateLatencyLine = times

/-- The average and the percentiles with their bounds, in microseconds. -/
def latencyLines (stats : LatencyReply) : Screen :=
  [⟨"#Avg Lat\t50th\t90th\t95th\t99th\n",[]⟩,
    ⟨"%v\t%v(%v, %v)\t%v(%v, %v)\t%v(%v, %v)\t%v(%v, %v)\n",[
      .float (float64 stats.avgLat / 1e3),
      .float (float64 stats.p50 / 1e3),.float (float64 stats.p50I / 1e3),.float (float64 stats.p50K / 1e3),
      .float (float64 stats.p90 / 1e3),.float (float64 stats.p90I / 1e3),.float (float64 stats.p90K / 1e3),
      .float (float64 stats.p95 / 1e3),.float (float64 stats.p95I / 1e3),.float (float64 stats.p95K / 1e3),
      .float (float64 stats.p99 / 1e3),.float (float64 stats.p99I / 1e3),.float (float64 stats.p99K / 1e3)]⟩]

/-- The screen ends with these lines, and the line has been on it so many times before. -/
def Ends (times : Nat) (lines screen : Screen) : Prop := ∃ earlier, screen = earlier ++ lines ∧ Counts times earlier

/-- The aggregate latency of these replies is the last that was printed. -/
def Concludes (times : Nat) (replies : List LatencyReply) (screen : Screen) : Prop :=
  Ends times (aggregateLatencyLine :: latencyLines (averageLatency replies)) screen

/-- What a verdict leaves on the screen. -/
def Announces (times : Nat) (screen : Screen) : Verdict → Event → Prop
  | .printed, .latency results => Concludes times results.result screen
  | _, _ => Counts times screen

section Counting
variable {times : Nat} {stopped : Screen → Prop}

theorem printf_counts {format : String} (args : List Value) (other : format ≠ aggregateLatencyLine.format) :
    Go.Triple (Counts times) (printf format args) (fun _ => Counts times) stopped := by
  refine Go.triple_change (fun screen counts => ?_)
  have absent : aggregateLatencyLine ∉ [(⟨format,args⟩ : Printed)] :=
    fun member => other (congrArg Printed.format (List.mem_singleton.mp member)).symm
  rw [Counts,List.count_append,List.count_eq_zero_of_not_mem absent]
  exact counts

theorem println_counts {text : String} (other : text ++ "\n" ≠ aggregateLatencyLine.format) :
    Go.Triple (Counts times) (println text) (fun _ => Counts times) stopped :=
  printf_counts [] other

theorem aggregateLine_ends : Go.Triple (Counts times) (println "Aggregate latency") (fun _ => Ends times [aggregateLatencyLine]) stopped :=
  Go.triple_change fun screen counts => ⟨screen,rfl,counts⟩

theorem printf_ends {lines : Screen} (format : String) (args : List Value) :
    Go.Triple (Ends times lines) (printf format args) (fun _ => Ends times (lines ++ [⟨format,args⟩])) stopped := by
  refine Go.triple_change fun screen written => ?_
  obtain ⟨earlier,rfl,counts⟩ := written
  exact ⟨earlier,List.append_assoc _ _ _,counts⟩

theorem printLatencyStats_ends {lines : Screen} (stats : LatencyReply) :
    Go.Triple (Ends times lines) (printLatencyStats stats) (fun _ => Ends times (lines ++ latencyLines stats)) stopped := by
  have title : Go.Triple (Ends times lines) (println "#Avg Lat\t50th\t90th\t95th\t99th")
      (fun _ => Ends times (lines ++ [⟨"#Avg Lat\t50th\t90th\t95th\t99th\n",[]⟩])) stopped := printf_ends _ _
  refine Go.triple_bind title fun _ => (printf_ends _ _).consequence (fun _ => id) (fun _ screen written => ?_) (fun _ => id)
  rw [List.append_assoc] at written
  exact written

theorem latencyLines_quiet (stats : LatencyReply) : (latencyLines stats).count aggregateLatencyLine = 0 := by
  refine List.count_eq_zero_of_not_mem fun member => ?_
  rcases List.mem_cons.mp member with title | numbers
  · exact absurd (congrArg Printed.format title) (by decide)
  · have other : aggregateLatencyLine.format ≠ "%v\t%v(%v, %v)\t%v(%v, %v)\t%v(%v, %v)\t%v(%v, %v)\n" := by decide
    exact other (congrArg Printed.format (List.mem_singleton.mp numbers))

theorem Concludes.counts {replies : List LatencyReply} {screen : Screen} (concludes : Concludes times replies screen) :
    Counts (times + 1) screen := by
  obtain ⟨earlier,rfl,counts⟩ := concludes
  rw [Counts,List.count_append,List.count_cons_self,latencyLines_quiet,counts]

theorem printThroughputStats_counts (stats : ThroughputReply) :
    Go.Triple (Counts times) (printThroughputStats stats) (fun _ => Counts times) stopped :=
  Go.triple_bind (println_counts (by decide)) (fun _ => printf_counts _ (by decide))

theorem printLatencyStats_counts (stats : LatencyReply) :
    Go.Triple (Counts times) (printLatencyStats stats) (fun _ => Counts times) stopped :=
  Go.triple_bind (println_counts (by decide)) (fun _ => printf_counts _ (by decide))

theorem computeStatsThroughput_counts {replies : List ThroughputReply} (lost : replies = [] → ∀ screen, stopped screen) :
    Go.Triple (Counts times) (computeStatsThroughput replies)
      (fun agg screen => agg = sumThroughput replies ∧ Counts times screen) stopped := by
  rw [computeStatsThroughput]
  cases replies with
  | nil => exact Go.triple_crash (fun screen _ => lost rfl screen)
  | cons first replies => exact Go.triple_pure _ (fun _ counts => ⟨rfl,counts⟩)

theorem computeStatsLatency_counts {replies : List LatencyReply}
    (lost : UInt64.ofNat replies.length = 0 → ∀ screen, stopped screen) :
    Go.Triple (Counts times) (computeStatsLatency replies)
      (fun agg screen => agg = averageLatency replies ∧ Counts times screen) stopped := by
  refine Go.triple_bind (Go.triple_forEach (fun _ => Counts times) (fun reply _ => printLatencyStats_counts reply) replies)
    (fun _ => ?_)
  split
  next empty => exact Go.triple_crash (fun screen _ => lost empty screen)
  next => exact Go.triple_pure _ (fun _ counts => ⟨rfl,counts⟩)

theorem throughputPass_judged (plan : Plan) (loop : Loop) (results : ThroughputResults)
    (lost : results.result = [] → ∀ screen, stopped screen) :
    Go.Triple (Counts times) (throughputPass plan loop results)
      (fun loop' screen => loop' = judged plan loop (verdict plan (.throughput results)) ∧
        Announces times screen (verdict plan (.throughput results)) (.throughput results)) stopped := by
  refine Go.triple_bind (computeStatsThroughput_counts lost) (fun agg => Go.triple_given fun total => ?_)
  subst total
  refine Go.triple_bind (printf_counts _ (by decide)) (fun _ => ?_)
  refine Go.triple_bind (printf_counts _ (by decide)) (fun _ => ?_)
  rw [verdict]
  split
  next wrong =>
    have rejected : (if throughputWrong plan results then Verdict.rejected else .reached) = .rejected := if_pos wrong
    rw [rejected]
    refine Go.triple_bind (println_counts (by decide)) (fun _ => ?_)
    exact Go.triple_pure _ (fun _ counts => ⟨rfl,counts⟩)
  next right =>
    have reached : (if throughputWrong plan results then Verdict.rejected else .reached) = .reached := if_neg right
    rw [reached]
    refine Go.triple_bind (printf_counts _ (by decide)) (fun _ => ?_)
    exact Go.triple_pure _ (fun _ counts => ⟨rfl,counts⟩)

theorem latencyPass_judged (plan : Plan) (loop : Loop) (results : LatencyResults)
    (lost : UInt64.ofNat results.result.length = 0 → ∀ screen, stopped screen) :
    Go.Triple (Counts times) (latencyPass plan loop results)
      (fun loop' screen => loop' = judged plan loop (latencyVerdict plan results) ∧
        Announces times screen (latencyVerdict plan results) (.latency results)) stopped := by
  refine Go.triple_bind (printf_counts _ (by decide)) (fun _ => ?_)
  refine Go.triple_bind (printf_counts _ (by decide)) (fun _ => ?_)
  rw [latencyVerdict]
  split
  next => exact Go.triple_pure _ (fun _ counts => ⟨rfl,counts⟩)
  next =>
    refine Go.triple_bind (printf_counts _ (by decide)) (fun _ => ?_)
    split
    next zero =>
      rw [zero,Bool.true_or,if_pos rfl]
      exact Go.triple_pure _ (fun _ counts => ⟨rfl,counts⟩)
    next nonzero =>
      have unfilled : results.result.map (·.thData) = [] → ∀ screen, stopped screen := by
        intro empty
        refine lost ?_
        rw [List.map_eq_nil_iff.mp empty]
        rfl
      rw [Bool.eq_false_of_not_eq_true nonzero,Bool.false_or]
      refine Go.triple_bind (computeStatsThroughput_counts unfilled) (fun _ => Go.triple_given fun _ => ?_)
      refine Go.triple_bind (printThroughputStats_counts _) (fun _ => ?_)
      refine Go.triple_bind (computeStatsLatency_counts lost) (fun aggLat => Go.triple_given fun average => ?_)
      subst average
      refine Go.triple_bind (printf_counts _ (by decide)) (fun _ => ?_)
      split
      next => exact Go.triple_pure _ (fun _ counts => ⟨rfl,counts⟩)
      next =>
        refine Go.triple_bind aggregateLine_ends (fun _ => ?_)
        refine Go.triple_bind (printLatencyStats_ends _) (fun _ => ?_)
        exact Go.triple_pure _ (fun _ concludes => ⟨rfl,concludes⟩)

end Counting

/-- The loop tests its tries and waits for replies of the event's kind. -/
def Awaits (loop : Loop) (event : Event) : Prop := loop.tryCount < maxTries ∧
  match event with
  | .throughput _ => loop.state = .waitForThroughput
  | .latency _ => loop.state = .waitForLatency

theorem ran_judged {loop loop' : Loop} {pass : Go Screen Loop} {iteration : Iteration} {after : Loop → Screen → Prop}
    (triple : Go.Triple (Counts 0) pass after (fun _ => True)) (stepped : ran loop pass = .next (loop',iteration)) :
    iteration.before = loop ∧ iteration.after = loop' ∧ after loop' iteration.lines := by
  have ended := triple.ends [] rfl
  rw [ran] at stepped
  split at stepped
  next loop'' lines value =>
    rw [value] at ended
    cases stepped
    exact ⟨rfl,rfl,ended⟩
  all_goals cases stepped

/-- What one step of the loop does. -/
structure Judges (plan : Plan) (loop loop' : Loop) (event : Event) (iteration : Iteration) : Prop where
  awaits : Awaits loop event
  judged : loop' = judged plan loop (verdict plan event)
  before : iteration.before = loop
  after : iteration.after = loop'
  lines : Announces 0 iteration.lines (verdict plan event) event

theorem judges_step {plan : Plan} {loop loop' : Loop} {event : Event} {iteration : Iteration}
    (stepped : (fixedSymRun plan).step loop event = .next (loop',iteration)) : Judges plan loop loop' event iteration := by
  rw [fixedSymRun] at stepped
  dsimp only at stepped
  split at stepped
  next tries =>
    split at stepped
    next results state =>
      obtain ⟨before,after,same,lines⟩ := ran_judged (throughputPass_judged plan loop results fun _ _ => trivial) stepped
      exact ⟨⟨tries,state⟩,same,before,after,lines⟩
    next results state =>
      obtain ⟨before,after,same,lines⟩ := ran_judged (latencyPass_judged plan loop results fun _ _ => trivial) stepped
      exact ⟨⟨tries,state⟩,same,before,after,lines⟩
    next => cases stepped
  next => cases stepped

def tally (plan : Plan) (judgement : Verdict) (log : List (Event × Iteration)) : Nat :=
  log.countP (fun entry => verdict plan entry.1 = judgement)

theorem tally_snoc (plan : Plan) (judgement : Verdict) (log : List (Event × Iteration)) (entry : Event × Iteration) :
    tally plan judgement (log ++ [entry]) = tally plan judgement log + if verdict plan entry.1 = judgement then 1 else 0 := by
  rw [tally,List.countP_append,List.countP_singleton,tally]
  simp only [decide_eq_true_eq]

def reachedIn : CoordState → Nat
  | .waitForThroughput => 0
  | .waitForLatency | .exit => 1

def printedIn : CoordState → Nat
  | .waitForThroughput | .waitForLatency => 0
  | .exit => 1

/-- The variables of the loop, counted. -/
structure Book (plan : Plan) (log : List (Event × Iteration)) (loop : Loop) : Prop where
  tries : loop.tryCount = tally plan .rejected log + tally plan .halved log + tally plan .raised log
  samplingRate : loop.samplingRate = initialSamplingRate / Float.ofInt (2 ^ tally plan .halved log : Nat)
  perAgent : loop.perAgentSamplingRate = Float.ofInt plan.agents.length * loop.samplingRate
  samples : loop.samples = initialSamples + 10000 * tally plan .raised log
  reached : tally plan .reached log = reachedIn loop.state
  printed : tally plan .printed log = printedIn loop.state
  length : log.length = loop.tryCount + tally plan .reached log + tally plan .printed log
  bounded : loop.tryCount ≤ maxTries
  left : loop.state = .exit → loop.tryCount < maxTries

theorem halve_again : ∀ halvings : Nat, halvings < maxTries →
    initialSamplingRate / Float.ofInt (2 ^ halvings : Nat) / 2 = initialSamplingRate / Float.ofInt (2 ^ (halvings + 1) : Nat) := by
  decide +kernel

theorem raise_again {raises : Nat} (few : raises < maxTries) :
    wrap (initialSamples + 10000 * raises + 10000) = initialSamples + 10000 * (raises + 1 : Nat) := by
  rw [maxTries] at few
  rw [wrap,initialSamples,Int.bmod_eq_of_le (by omega) (by omega)]
  omega

/-- The state in which a verdict is given. -/
def givenIn : Verdict → CoordState
  | .rejected | .reached => .waitForThroughput
  | .halved | .raised | .printed => .waitForLatency

theorem Awaits.state (plan : Plan) {loop : Loop} {event : Event} (awaits : Awaits loop event) :
    loop.state = givenIn (verdict plan event) := by
  cases event with
  | throughput results =>
    rw [awaits.2,verdict]
    split <;> rfl
  | latency results =>
    rw [awaits.2,verdict,latencyVerdict]
    split
    · rfl
    · split <;> rfl

theorem Book.next {plan : Plan} {log : List (Event × Iteration)} {loop loop' : Loop} {event : Event} {iteration : Iteration}
    (book : Book plan log loop) (judges : Judges plan loop loop' event iteration) :
    Book plan (log ++ [(event,iteration)]) loop' := by
  obtain ⟨tries,samplingRate,perAgent,samples,reached,printed,length,bounded,left⟩ := book
  have state := judges.awaits.state plan
  have few := judges.awaits.1
  have grown : (log ++ [(event,iteration)]).length = log.length + 1 := List.length_append
  have counted : ∀ judgement, tally plan judgement (log ++ [(event,iteration)]) =
      tally plan judgement log + if verdict plan event = judgement then 1 else 0 :=
    fun judgement => tally_snoc plan judgement log (event,iteration)
  have same := judges.judged
  subst same
  generalize verdict plan event = judgement at state counted ⊢
  rw [state] at reached printed
  cases judgement with
  | rejected =>
    refine ⟨?_,?_,perAgent,?_,?_,?_,?_,few,fun exited => absurd (state.symm.trans exited) CoordState.noConfusion⟩
    all_goals simp only [counted,grown,judged,reduceCtorEq,if_false,if_true,Nat.add_zero]
    · omega
    · exact samplingRate
    · exact samples
    · exact reached.trans (congrArg reachedIn state.symm)
    · exact printed.trans (congrArg printedIn state.symm)
    · omega
  | reached =>
    refine ⟨?_,?_,perAgent,?_,?_,?_,?_,bounded,CoordState.noConfusion⟩
    all_goals simp only [counted,grown,judged,reduceCtorEq,if_false,if_true,Nat.add_zero]
    · exact tries
    · exact samplingRate
    · exact samples
    · rw [reached]
      rfl
    · exact printed
    · omega
  | halved =>
    refine ⟨?_,?_,rfl,?_,?_,?_,?_,few,fun exited => absurd (state.symm.trans exited) CoordState.noConfusion⟩
    all_goals simp only [counted,grown,judged,reduceCtorEq,if_false,if_true,Nat.add_zero]
    · omega
    · rw [samplingRate,halve_again _ (by omega)]
    · exact samples
    · exact reached.trans (congrArg reachedIn state.symm)
    · exact printed.trans (congrArg printedIn state.symm)
    · omega
  | raised =>
    refine ⟨?_,?_,perAgent,?_,?_,?_,?_,few,fun exited => absurd (state.symm.trans exited) CoordState.noConfusion⟩
    all_goals simp only [counted,grown,judged,reduceCtorEq,if_false,if_true,Nat.add_zero]
    · omega
    · exact samplingRate
    · rw [samples,raise_again (by omega)]
    · exact reached.trans (congrArg reachedIn state.symm)
    · exact printed.trans (congrArg printedIn state.symm)
    · omega
  | printed =>
    refine ⟨?_,?_,perAgent,?_,?_,?_,?_,bounded,fun _ => few⟩
    all_goals simp only [counted,grown,judged,reduceCtorEq,if_false,if_true,Nat.add_zero]
    · exact tries
    · exact samplingRate
    · exact samples
    · exact reached
    · rw [printed]
      rfl
    · omega

/-- The loop as `runExp` starts it. -/
def started (agents : Coordinator) : Coordinator := {agents with samples := initialSamples, samplingRate := initialSamplingRate}

theorem book_initially (agents : Coordinator) (loadRate ciSize : Int) :
    Book (fixedPlan (started agents) loadRate ciSize) [] (fixedLoop (started agents)) where
  tries := rfl
  samplingRate := (by decide +kernel : initialSamplingRate = initialSamplingRate / Float.ofInt (2 ^ 0 : Nat))
  perAgent := rfl
  samples := rfl
  reached := rfl
  printed := rfl
  length := rfl
  bounded := Nat.zero_le _
  left := CoordState.noConfusion

theorem book_run {agents : Coordinator} {loadRate ciSize : Int} {log : List (Event × Iteration)} {loop : Loop}
    {environment : Machine.Environment Loop Event Iteration}
    (run : (fixedSymRun (fixedPlan (started agents) loadRate ciSize)).Run environment (fixedLoop (started agents)) log loop) :
    Book (fixedPlan (started agents) loadRate ciSize) log loop := by
  induction run with
  | nil => exact book_initially agents loadRate ciSize
  | snoc past allowed stepped ih => exact ih.next (judges_step stepped)

def rank : CoordState → Nat
  | .waitForThroughput => 0
  | .waitForLatency => 1
  | .exit => 2

theorem judged_forward (plan : Plan) {loop : Loop} {judgement : Verdict} (state : loop.state = givenIn judgement) :
    rank loop.state ≤ rank (judged plan loop judgement).state := by
  cases judgement with
  | rejected => exact le_rfl
  | reached =>
    rw [state]
    exact Nat.zero_le _
  | halved => exact le_rfl
  | raised => exact le_rfl
  | printed =>
    rw [state]
    exact Nat.le_succ 1

theorem forward_run {plan : Plan} {start loop : Loop} {log : List (Event × Iteration)}
    {environment : Machine.Environment Loop Event Iteration} (run : (fixedSymRun plan).Run environment start log loop) :
    ∀ entry ∈ log, rank entry.2.before.state ≤ rank entry.2.after.state := by
  induction run with
  | nil => exact fun _ member => nomatch member
  | snoc past allowed stepped ih =>
    intro entry member
    rcases List.mem_append.mp member with earlier | last
    · exact ih entry earlier
    · have judges := judges_step stepped
      rw [List.mem_singleton.mp last]
      dsimp only
      rw [judges.before,judges.after,judges.judged]
      exact judged_forward plan (judges.awaits.state plan)

end Lancet.FixedLoop
