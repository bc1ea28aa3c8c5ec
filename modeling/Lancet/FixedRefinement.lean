import Lancet.FixedPattern

/-! The program `fixedSymPattern` over any network follows the machine of its loop: what it
prints and how it returns come from a run whose events are replies its calls returned. -/
namespace Lancet.FixedRefinement
open Foundation CoordProto Proto Patterns FixedPattern

theorem println_appends (text : String) : Go.Appends (println text) := Go.appends_change _

theorem printf_appends (format : String) (args : List Value) : Go.Appends (printf format args) := Go.appends_change _

theorem computeStatsThroughput_appends (replies : List ThroughputReply) : Go.Appends (computeStatsThroughput replies) := by
  rw [computeStatsThroughput]
  cases replies.head? with
  | none => exact Go.appends_crash
  | some first => exact Go.appends_pure _

theorem printThroughputStats_appends (stats : ThroughputReply) : Go.Appends (printThroughputStats stats) :=
  (println_appends _).bind fun _ => printf_appends _ _

theorem printLatencyStats_appends (stats : LatencyReply) : Go.Appends (printLatencyStats stats) :=
  (println_appends _).bind fun _ => printf_appends _ _

theorem computeStatsLatency_appends (replies : List LatencyReply) : Go.Appends (computeStatsLatency replies) := by
  refine (Go.appends_forEach printLatencyStats_appends replies).bind fun _ => ?_
  split
  · exact Go.appends_crash
  · exact Go.appends_pure _

theorem throughputPass_appends (plan : Plan) (loop : Loop) (results : ThroughputResults) :
    Go.Appends (throughputPass plan loop results) := by
  refine (computeStatsThroughput_appends _).bind fun aggThroughput => ?_
  refine (printf_appends _ _).bind fun _ => (printf_appends _ _).bind fun _ => ?_
  split
  · exact (println_appends _).bind fun _ => Go.appends_pure _
  · exact (printf_appends _ _).bind fun _ => Go.appends_pure _

theorem latencyPass_appends (plan : Plan) (loop : Loop) (results : LatencyResults) :
    Go.Appends (latencyPass plan loop results) := by
  refine (printf_appends _ _).bind fun _ => (printf_appends _ _).bind fun _ => ?_
  split
  · exact Go.appends_pure _
  · refine (printf_appends _ _).bind fun _ => ?_
    split
    · exact Go.appends_pure _
    · refine (computeStatsThroughput_appends _).bind fun _ => (printThroughputStats_appends _).bind fun _ => ?_
      refine (computeStatsLatency_appends _).bind fun _ => (printf_appends _ _).bind fun _ => ?_
      split
      · exact Go.appends_pure _
      · exact (println_appends _).bind fun _ => (printLatencyStats_appends _).bind fun _ => Go.appends_pure _

section Network
variable {σ : Type} (net : Net σ) (plan : Plan) (start : Loop)

/-- The events are results that the calls to the agents return in some world. -/
def Reported : Machine.Environment Loop Event Iteration := fun _ _ event =>
  match event with
  | .throughput results => ∃ world after, reportThroughput net plan.agents world = (.value results,after)
  | .latency results => ∃ world after, reportLatency net plan.agents world = (.value results,after)

/-- The loop has got where a run of the machine ends, and the screen shows the aggregate only if
an iteration of that run printed it. -/
def Traced (loop : Loop) (screen : Screen) : Prop :=
  ∃ log, (fixedSymRun plan).Run (Reported net plan) start log loop ∧ (Shown screen → ∃ entry ∈ log, Shown entry.2.lines)

def Somewhere (screen : Screen) : Prop := ∃ loop, Traced net plan start loop screen

variable {net plan start}

theorem traced_quiet {loop : Loop} {shown lines : Screen} (traced : Traced net plan start loop shown) (quiet : Quiet lines) :
    Traced net plan start loop (shown ++ lines) := by
  obtain ⟨log,run,printed⟩ := traced
  refine ⟨log,run,fun seen => ?_⟩
  rcases List.mem_append.mp seen with earlier | now
  · exact printed earlier
  · exact absurd now quiet

theorem call_traced {α : Type} {loop : Loop} (text : String → String) (program : Go σ α) :
    Go.Triple (fun world => Traced net plan start loop world.2) (Go.describe text (Go.onFirst program))
      (fun value world => (∃ before after, program before = (.value value,after)) ∧ Traced net plan start loop world.2)
      (fun world => Somewhere net plan start world.2) := by
  have kept := Go.triple_describe text (@Go.triple_onFirst_other σ α Screen (Traced net plan start loop) program)
  refine kept.returned.consequence (fun _ given => given) (fun value world given => ⟨?_,given.2⟩) (fun _ given => ⟨loop,given⟩)
  obtain ⟨⟨before,ran⟩,-⟩ := given
  rw [Go.describe,Go.onFirst] at ran
  rcases called : program before.1 with ⟨result | _ | _ | _,after⟩
  all_goals
    rw [called] at ran
    cases ran
  exact ⟨before.1,after,called⟩

theorem sleep_traced {loop : Loop} (seconds : Int) :
    Go.Triple (fun world => Traced net plan start loop world.2) (sleep net seconds)
      (fun _ world => Traced net plan start loop world.2) (fun world => Somewhere net plan start world.2) :=
  (Go.triple_onFirst_other _).consequence (fun _ given => given) (fun _ _ given => given) (fun _ given => ⟨loop,given⟩)

theorem printf_traced {loop : Loop} {format : String} (args : List Value) (other : format ≠ aggregateLatencyLine.format) :
    Go.Triple (fun world => Traced net plan start loop world.2) (screen (printf format args) : Go (σ × Screen) Unit)
      (fun _ world => Traced net plan start loop world.2) (fun world => Somewhere net plan start world.2) :=
  ⟨fun _ given => traced_quiet given ((printf_quiet args other).ends [] List.not_mem_nil)⟩

/-- A pass over results moves the machine by one step. -/
theorem pass_traced {loop : Loop} {event : Event} {pass : Go Screen Loop} {after : Loop → Screen → Prop}
    (reported : Reported net plan [] loop event) (appends : Go.Appends pass) (quiet : Go.Triple Quiet pass after Quiet)
    (stepped : (fixedSymRun plan).step loop event = ran loop pass) :
    Go.Triple (fun world => Traced net plan start loop world.2) (screen pass : Go (σ × Screen) Loop)
      (fun loop' world => Traced net plan start loop' world.2) (fun world => Somewhere net plan start world.2) := by
  constructor
  intro world traced
  have ended := quiet.ends [] List.not_mem_nil
  rw [screen,Go.onSecond,appends.ran]
  rw [ran] at stepped
  generalize pass [] = result at stepped ended
  rcases result with ⟨loop' | _ | _ | _,lines⟩
  · obtain ⟨log,run,printed⟩ := traced
    refine ⟨_,.snoc run reported stepped,fun seen => ?_⟩
    rcases List.mem_append.mp seen with earlier | now
    · obtain ⟨entry,member,shown⟩ := printed earlier
      exact ⟨entry,List.mem_append_left _ member,shown⟩
    · exact ⟨_,List.mem_append_right _ (List.mem_singleton_self _),now⟩
  all_goals exact ⟨loop,traced_quiet traced ended⟩

theorem iteration_traced (loop : Loop) :
    Go.Triple (fun world => Traced net plan start loop world.2) (iteration net plan loop)
      (Go.Continues (fun loop' world => Traced net plan start loop' world.2)
        (fun _ world => ∃ final : Loop, final.state = .exit ∧ Traced net plan start final world.2))
      (fun world => Somewhere net plan start world.2) := by
  rw [iteration]
  split
  next tries =>
    split
    next state =>
      refine Go.triple_bind (call_traced _ _) (fun _ => Go.triple_given fun _ => ?_)
      refine Go.triple_bind (printf_traced _ (by decide)) (fun _ => ?_)
      refine Go.triple_bind (sleep_traced _) (fun _ => ?_)
      refine Go.triple_bind (call_traced _ _) (fun results => Go.triple_given fun returned => ?_)
      have stepped := step_throughput plan tries state results
      have reported : Reported net plan [] loop (.throughput results) := returned
      have running : loop.state ≠ .exit := by
        rw [state]
        exact CoordState.noConfusion
      refine Go.triple_bind (pass_traced reported (throughputPass_appends plan loop results)
        (throughputPass_quiet plan loop results running) stepped) (fun loop' => ?_)
      exact Go.triple_pure _ (fun _ traced => traced)
    next state =>
      refine Go.triple_bind (call_traced _ _) (fun _ => Go.triple_given fun _ => ?_)
      refine Go.triple_bind (printf_traced _ (by decide)) (fun _ => ?_)
      refine Go.triple_bind (printf_traced _ (by decide)) (fun _ => ?_)
      refine Go.triple_bind (printf_traced _ (by decide)) (fun _ => ?_)
      refine Go.triple_bind (sleep_traced _) (fun _ => ?_)
      refine Go.triple_bind (call_traced _ _) (fun results => Go.triple_given fun returned => ?_)
      have stepped := step_latency plan tries state results
      have reported : Reported net plan [] loop (.latency results) := returned
      refine Go.triple_bind (pass_traced reported (latencyPass_appends plan loop results)
        (latencyPass_decided plan loop results) stepped) (fun loop' => ?_)
      exact Go.triple_pure _ (fun _ traced => traced)
    next state => exact Go.triple_pure _ (fun _ traced => ⟨loop,state,traced⟩)
  next => exact Go.triple_fail _ (fun _ traced => ⟨loop,traced⟩)

end Network

/-- From a screen without the aggregate, `fixedSymPattern` ends where a run of the machine is; it
returns without an error only when that run has reached the exit state. -/
theorem fixedSymPattern_traced {σ : Type} (net : Net σ) (passes : Nat) (c : Coordinator) (loadRate ciSize : Int) :
    Go.Triple (fun world => Quiet world.2) (fixedSymPattern net passes c loadRate ciSize)
      (fun _ world => ∃ final : Loop, final.state = .exit ∧
        Traced net (fixedPlan c loadRate ciSize) (fixedLoop c) final world.2)
      (fun world => Somewhere net (fixedPlan c loadRate ciSize) (fixedLoop c) world.2) := by
  have initially : ∀ world : σ × Screen, Quiet world.2 →
      Traced net (fixedPlan c loadRate ciSize) (fixedLoop c) (fixedLoop c) world.2 :=
    fun world quiet => ⟨[],.nil,fun shown => absurd shown quiet⟩
  rw [fixedSymPattern]
  split
  · exact Go.triple_crash (fun world quiet => ⟨_,initially world quiet⟩)
  · refine Go.triple_bind ((call_traced _ _).consequence initially (fun _ _ given => given.2) (fun _ given => given))
      (fun _ => ?_)
    refine Go.triple_bind (sleep_traced _) (fun _ => ?_)
    refine Go.triple_loop (fun loop (world : σ × Screen) => Traced net (fixedPlan c loadRate ciSize) (fixedLoop c) loop world.2)
      iteration_traced ?_ passes (fixedLoop c)
    exact fun loop _ traced => ⟨loop,traced⟩

end Lancet.FixedRefinement
