import Lancet.Patterns

/-! When the fixed pattern prints its results. The convergence flags of the agents are not
among what decides it. -/
namespace Lancet.FixedPattern
open Foundation CoordProto Proto Patterns

def Quiet (screen : Screen) : Prop := aggregateLatencyLine ∉ screen

theorem printf_quiet {format : String} (args : List Value) (other : format ≠ aggregateLatencyLine.format) :
    Go.Triple Quiet (printf format args) (fun _ => Quiet) Quiet := by
  refine Go.triple_change (fun screen quiet printed => ?_)
  rcases List.mem_append.mp printed with earlier | now
  · exact quiet earlier
  · exact other (congrArg Printed.format (List.mem_singleton.mp now)).symm

theorem println_quiet {text : String} (other : text ++ "\n" ≠ aggregateLatencyLine.format) :
    Go.Triple Quiet (println text) (fun _ => Quiet) Quiet :=
  printf_quiet [] other

theorem printThroughputStats_quiet (stats : ThroughputReply) :
    Go.Triple Quiet (printThroughputStats stats) (fun _ => Quiet) Quiet :=
  Go.triple_bind (println_quiet (by decide)) (fun _ => printf_quiet _ (by decide))

theorem printLatencyStats_quiet (stats : LatencyReply) :
    Go.Triple Quiet (printLatencyStats stats) (fun _ => Quiet) Quiet :=
  Go.triple_bind (println_quiet (by decide)) (fun _ => printf_quiet _ (by decide))

def Shown (screen : Screen) : Prop := aggregateLatencyLine ∈ screen

theorem println_shown {text : String} {before : Screen → Prop} {stopped : Screen → Prop}
    (same : text ++ "\n" = aggregateLatencyLine.format) : Go.Triple before (println text) (fun _ => Shown) stopped := by
  refine Go.triple_change (fun screen _ => List.mem_append_right _ ?_)
  rw [same]
  exact List.mem_singleton_self _

theorem printf_shown {stopped : Screen → Prop} (format : String) (args : List Value) :
    Go.Triple Shown (printf format args) (fun _ => Shown) stopped :=
  Go.triple_change (fun _ shown => List.mem_append_left _ shown)

theorem printLatencyStats_shown {stopped : Screen → Prop} (stats : LatencyReply) :
    Go.Triple Shown (printLatencyStats stats) (fun _ => Shown) stopped :=
  Go.triple_bind (printf_shown _ _) (fun _ => printf_shown _ _)

theorem computeStatsThroughput_quiet (replies : List ThroughputReply) :
    Go.Triple Quiet (computeStatsThroughput replies) (fun _ => Quiet) Quiet := by
  rw [computeStatsThroughput]
  cases replies.head? with
  | none => exact Go.triple_crash (fun _ quiet => quiet)
  | some first => exact Go.triple_pure _ (fun _ quiet => quiet)

theorem computeStatsLatency_quiet (replies : List LatencyReply) :
    Go.Triple Quiet (computeStatsLatency replies) (fun agg screen => agg = averageLatency replies ∧ Quiet screen) Quiet := by
  refine Go.triple_bind (Go.triple_forEach (fun _ => Quiet) (fun reply _ => printLatencyStats_quiet reply) replies) (fun _ => ?_)
  split
  · exact Go.triple_crash (fun _ quiet => quiet)
  · exact Go.triple_pure _ (fun _ quiet => ⟨rfl,quiet⟩)

/-- What the loop itself tests before it prints the results of a latency iteration. -/
def turnedDown (plan : Plan) (results : LatencyResults) : Prop :=
  (∃ val ∈ results.correlations, correlated val = true) ∨ (∃ val ∈ results.correlations, uncorrelated val = true) ∨
    intervalExceeds (averageLatency results.result) plan.ciSize = true

/-- An iteration that does not leave its state, or the one that ends the experiment. -/
def Decided (down : Prop) (loop loop' : Loop) (screen : Screen) : Prop :=
  (down ∧ Quiet screen ∧ loop'.state = loop.state ∧ loop'.tryCount = loop.tryCount + 1) ∨
    (¬down ∧ Shown screen ∧ loop' = {loop with state := .exit})

/-- The interval test, once the correlations have passed. -/
theorem intervalTest_decided (plan : Plan) (loop : Loop) (aggLat : LatencyReply) :
    Go.Triple Quiet (do
      printf "ciSize = %v\n" [.int plan.ciSize]
      if intervalExceeds aggLat plan.ciSize then
        return {loop with samples := wrap (loop.samples + 10000), tryCount := loop.tryCount + 1}
      else
        println "Aggregate latency"
        printLatencyStats aggLat
        return {loop with state := .exit})
      (Decided (intervalExceeds aggLat plan.ciSize = true) loop) Quiet := by
  refine Go.triple_bind (printf_quiet _ (by decide)) (fun _ => ?_)
  split
  next wide => exact Go.triple_pure _ (fun _ quiet => .inl ⟨wide,quiet,rfl,rfl⟩)
  next narrow =>
    refine Go.triple_bind (println_shown rfl) (fun _ => ?_)
    refine Go.triple_bind (printLatencyStats_shown _) (fun _ => ?_)
    exact Go.triple_pure _ (fun _ shown => .inr ⟨narrow,shown,rfl⟩)

theorem latencyPass_decided (plan : Plan) (loop : Loop) (results : LatencyResults) :
    Go.Triple Quiet (latencyPass plan loop results) (Decided (turnedDown plan results) loop) Quiet := by
  refine Go.triple_bind (printf_quiet _ (by decide)) (fun _ => ?_)
  refine Go.triple_bind (printf_quiet _ (by decide)) (fun _ => ?_)
  split
  next high => exact Go.triple_pure _ (fun _ quiet => .inl ⟨.inl (List.any_eq_true.mp high),quiet,rfl,rfl⟩)
  next low =>
    refine Go.triple_bind (printf_quiet _ (by decide)) (fun _ => ?_)
    split
    next zero => exact Go.triple_pure _ (fun _ quiet => .inl ⟨.inr (.inl (List.any_eq_true.mp zero)),quiet,rfl,rfl⟩)
    next nonzero =>
      have only : turnedDown plan results ↔ intervalExceeds (averageLatency results.result) plan.ciSize = true := by
        rw [turnedDown,← List.any_eq_true,← List.any_eq_true,or_iff_right low,or_iff_right nonzero]
      refine Go.triple_bind (computeStatsThroughput_quiet _) (fun _ => ?_)
      refine Go.triple_bind (printThroughputStats_quiet _) (fun _ => ?_)
      refine Go.triple_bind (computeStatsLatency_quiet _) (fun aggLat => Go.triple_given fun average => ?_)
      rw [only,← average]
      exact intervalTest_decided plan loop aggLat

theorem throughputPass_quiet (plan : Plan) (loop : Loop) (results : ThroughputResults) (running : loop.state ≠ .exit) :
    Go.Triple Quiet (throughputPass plan loop results) (fun loop' screen => loop'.state ≠ .exit ∧ Quiet screen) Quiet := by
  refine Go.triple_bind (computeStatsThroughput_quiet _) (fun aggThroughput => ?_)
  refine Go.triple_bind (printf_quiet _ (by decide)) (fun _ => ?_)
  refine Go.triple_bind (printf_quiet _ (by decide)) (fun _ => ?_)
  split
  · refine Go.triple_bind (println_quiet (by decide)) (fun _ => ?_)
    exact Go.triple_pure _ (fun _ quiet => ⟨running,quiet⟩)
  · refine Go.triple_bind (printf_quiet _ (by decide)) (fun _ => ?_)
    exact Go.triple_pure _ (fun _ quiet => ⟨CoordState.noConfusion,quiet⟩)

/-- What a step of the loop does, by the kind of the results it got. -/
def StepOf (plan : Plan) (event : Event) (iteration : Iteration) : Prop :=
  match event with
  | .throughput _ => iteration.after.state ≠ .exit ∧ Quiet iteration.lines
  | .latency results => iteration.before.state = .waitForLatency ∧
    Decided (turnedDown plan results) iteration.before iteration.after iteration.lines

theorem ran_next {loop loop' : Loop} {pass : Go Screen Loop} {iteration : Iteration} {after : Loop → Screen → Prop}
    (triple : Go.Triple Quiet pass after Quiet) (stepped : ran loop pass = .next (loop',iteration)) :
    iteration.before = loop ∧ iteration.after = loop' ∧ after loop' iteration.lines := by
  have ended := triple.ends [] List.not_mem_nil
  rw [ran] at stepped
  split at stepped
  next loop'' lines value =>
    rw [value] at ended
    cases stepped
    exact ⟨rfl,rfl,ended⟩
  all_goals cases stepped

theorem step_of_next {plan : Plan} {loop loop' : Loop} {event : Event} {iteration : Iteration}
    (stepped : (fixedSymRun plan).step loop event = .next (loop',iteration)) :
    iteration.before = loop ∧ iteration.after = loop' ∧ StepOf plan event iteration := by
  rw [fixedSymRun] at stepped
  dsimp only at stepped
  split at stepped
  next =>
    split at stepped
    next results state =>
      have running : loop.state ≠ .exit := by
        rw [state]
        exact CoordState.noConfusion
      obtain ⟨before,after,spec⟩ := ran_next (throughputPass_quiet plan loop results running) stepped
      refine ⟨before,after,?_⟩
      rw [StepOf,after]
      exact spec
    next results state =>
      obtain ⟨before,after,spec⟩ := ran_next (latencyPass_decided plan loop results) stepped
      refine ⟨before,after,before ▸ state,?_⟩
      rw [before,after]
      exact spec
    next => cases stepped
  next => cases stepped

def Withheld (iteration : Iteration) : Prop :=
  iteration.after.state ≠ .exit ∧ Quiet iteration.lines ∧ iteration.after.tryCount = iteration.before.tryCount + 1

/-- Results are printed only when every agent has converged, and otherwise the try has failed. -/
def Gated (entry : Event × Iteration) : Prop :=
  (entry.2.after.state = .exit ∨ Shown entry.2.lines → ∃ results, entry.1 = .latency results ∧ 0 ∉ results.convergence) ∧
    ∀ results, entry.1 = .latency results → 0 ∈ results.convergence → Withheld entry.2

/-- An agent that has not converged comes with replies that the loop turns down for another reason. -/
def OtherReason (plan : Plan) (entry : Event × Iteration) : Prop :=
  ∀ results, entry.1 = .latency results → 0 ∈ results.convergence → turnedDown plan results

theorem gated_iff {plan : Plan} {entry : Event × Iteration} (step : StepOf plan entry.1 entry.2) :
    Gated entry ↔ OtherReason plan entry := by
  obtain ⟨event,iteration⟩ := entry
  cases event with
  | throughput results =>
    obtain ⟨stays,quiet⟩ := step
    refine iff_of_true ⟨?_,fun _ other => nomatch other⟩ (fun _ other => nomatch other)
    rintro (exited | shown)
    · exact absurd exited stays
    · exact absurd shown quiet
  | latency results =>
    obtain ⟨state,down | through⟩ := step
    · obtain ⟨reason,quiet,same,counted⟩ := down
      have stays : iteration.after.state ≠ .exit := by
        rw [same,state]
        exact CoordState.noConfusion
      refine iff_of_true ⟨?_,fun _ _ _ => ⟨stays,quiet,counted⟩⟩ ?_
      · rintro (exited | shown)
        · exact absurd exited stays
        · exact absurd shown quiet
      · intro results' same _
        cases same
        exact reason
    · obtain ⟨accepted,shown,exited⟩ := through
      constructor
      · intro gated results' same unconverged
        exact absurd shown (gated.2 results' same unconverged).2.1
      · intro other
        have converged : 0 ∉ results.convergence := fun unconverged => accepted (other results rfl unconverged)
        refine ⟨fun _ => ⟨results,rfl,converged⟩,fun results' same unconverged => ?_⟩
        cases same
        exact absurd unconverged converged

abbrev AnyReplies : Machine.Environment Loop Event Iteration := fun _ _ _ => True

theorem steps_of_run {plan : Plan} {start final : Loop} {log : List (Event × Iteration)}
    (run : (fixedSymRun plan).Run AnyReplies start log final) : ∀ entry ∈ log, StepOf plan entry.1 entry.2 := by
  induction run with
  | nil => exact fun _ member => nomatch member
  | snoc past allowed stepped ih =>
    intro entry member
    rcases List.mem_append.mp member with earlier | last
    · exact ih entry earlier
    · rw [List.mem_singleton.mp last]
      exact (step_of_next stepped).2.2

theorem results_gated_iff (plan : Plan) (start final : Loop) (log : List (Event × Iteration))
    (run : (fixedSymRun plan).Run AnyReplies start log final) :
    (∀ entry ∈ log, Gated entry) ↔ ∀ entry ∈ log, OtherReason plan entry :=
  forall₂_congr (fun entry member => gated_iff (steps_of_run run entry member))

def examplePlan : Plan := ⟨[0],1000,1000,1000⟩

def exampleStart : Loop := ⟨.waitForThroughput,10000,20,20,0⟩

/-- A throughput reply of 1000 requests a second, and a latency reply with some checks. -/
def exampleReplies (convergence : UInt32) (correlation : UInt64) : List Event :=
  [.throughput ⟨[⟨64000,64000,1000,1000000⟩],[1]⟩,
    .latency ⟨[⟨⟨64000,64000,1000,1000000⟩,21000,20000,21000,22000,30000,31000,32000,35000,36000,37000,40000,41000,42000⟩],
      [1],[convergence],[correlation]⟩]

def overlooked (entry : Event × Iteration) : Bool :=
  match entry.1 with
  | .throughput _ => false
  | .latency results => results.convergence.contains 0 && entry.2.after.state == .exit

/-- One agent that has not converged, with correlation 0.1: its results are printed. -/
theorem unconverged_printed : ∃ log final, (fixedSymRun examplePlan).Run AnyReplies exampleStart log final ∧
    ∃ entry ∈ log, ∃ results, entry.1 = .latency results ∧ 0 ∈ results.convergence ∧ entry.2.after.state = .exit ∧
      ¬Gated entry := by
  obtain ⟨log,final,run,found⟩ := @Machine.run_of_follow _ _ _ (fixedSymRun examplePlan) AnyReplies exampleStart
    (fun _ _ _ => true) (fun _ _ _ _ => trivial) (exampleReplies 0 0x3fb999999999999a) (fun ended => ended.1.any overlooked)
    (by decide +kernel)
  obtain ⟨⟨event,iteration⟩,member,seen⟩ := List.any_eq_true.mp found
  cases event with
  | throughput results => cases seen
  | latency results =>
    obtain ⟨contained,exited⟩ := Bool.and_eq_true_iff.mp seen
    have unconverged : 0 ∈ results.convergence := List.contains_iff_mem.mp contained
    have exited := eq_of_beq exited
    exact ⟨log,final,run,_,member,results,rfl,unconverged,exited,fun gated => (gated.2 results rfl unconverged).1 exited⟩

/-- The same agent with correlation 0.5 is held back. -/
theorem results_gated_correlated : ∃ log final, (fixedSymRun examplePlan).Run AnyReplies exampleStart log final ∧
    log.length = 2 ∧ ∀ entry ∈ log, Gated entry := by
  obtain ⟨log,final,run,found⟩ := @Machine.run_of_follow _ _ _ (fixedSymRun examplePlan) AnyReplies exampleStart
    (fun _ _ _ => true) (fun _ _ _ _ => trivial) (exampleReplies 0 0x3fe0000000000000)
    (fun ended => ended.1.length == 2 && ended.1.all (fun entry => match entry.1 with
      | .throughput _ => true
      | .latency results => results.correlations.any correlated)) (by decide +kernel)
  obtain ⟨two,reasons⟩ := Bool.and_eq_true_iff.mp found
  refine ⟨log,final,run,eq_of_beq two,(results_gated_iff examplePlan exampleStart final log run).mpr ?_⟩
  intro entry member results latency _
  have reason := List.all_eq_true.mp reasons entry member
  rw [latency] at reason
  exact .inl (List.any_eq_true.mp reason)

end Lancet.FixedPattern
