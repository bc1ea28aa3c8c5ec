import Lancet.FixedLoop
import Lancet.ReliableNet

/-! The fixed pattern comes to an end when no call to an agent fails. Its variables grow with
every pass, so the passes are counted against the tries and the states left. -/
namespace Lancet.FixedTermination
open Foundation CoordProto Proto Patterns FixedPattern FixedRefinement FixedLoop ReliableNet

section Network
variable {σ : Type} {net : Net σ} {plan : Plan} {start : Loop} {times made : Nat}

/-- The rate that the loop sends with a measurement. -/
def measureRate (plan : Plan) (loop : Loop) : Float := Float.ofInt plan.agents.length * loop.samplingRate

/-- A pass from here sends one START_MEASURE, before anything else, with these values. -/
def Measures (net : Net σ) (plan : Plan) (loop : Loop) (samples : Int) (rate : Float) : Prop :=
  ∃ rest : Unit → Go (σ × Screen) (Loop ⊕ Unit), iteration net plan loop =
    Go.describe startingLoad (Go.onFirst (startMeasure net plan.agents samples rate)) >>= rest

theorem measures_rate {loop : Loop} (tries : loop.tryCount < maxTries) (going : loop.state ≠ .exit) :
    Measures net plan loop loop.samples (measureRate plan loop) := by
  rw [Measures,iteration,if_pos tries]
  split
  · exact ⟨_,rfl⟩
  · exact ⟨_,rfl⟩
  next exited => exact absurd exited going

/-- In the exit state the run has just printed the aggregate latency of the replies of its last pass. -/
def Leaves (times : Nat) (log : List (Event × Iteration)) (loop : Loop) (screen : Screen) : Prop :=
  if loop.state = .exit then
    ∃ results iteration, log.getLast? = some (.latency results,iteration) ∧ Concludes times results.result screen
  else Counts times screen

/-- So many passes have been made, by a run of the machine that accounts for what is printed. -/
def At (net : Net σ) (plan : Plan) (start : Loop) (times made : Nat) (loop : Loop) (screen : Screen) : Prop :=
  ∃ log, log.length = made ∧ (fixedSymRun plan).Run (Reported net plan) start log loop ∧ Leaves times log loop screen

theorem printf_at {loop : Loop} {format : String} (args : List Value) (other : format ≠ aggregateLatencyLine.format)
    (going : loop.state ≠ .exit) :
    Go.Triple (fun world => At net plan start times made loop world.2) (screen (printf format args) : Go (σ × Screen) Unit)
      (fun _ world => At net plan start times made loop world.2) (fun _ => False) := by
  constructor
  rintro world ⟨log,length,run,leaves⟩
  rw [Leaves,if_neg going] at leaves
  have same : Go.Triple (Counts times) (printf format args) (fun _ => Counts times) (fun _ => False) := printf_counts args other
  refine ⟨log,length,run,?_⟩
  rw [Leaves,if_neg going]
  exact same.ends world.2 leaves

/-- Only the verdict that prints ends in the exit state. -/
theorem judged_exit {loop : Loop} (going : loop.state ≠ .exit) (judgement : Verdict) :
    (judged plan loop judgement).state = .exit ↔ judgement = .printed := by
  cases judgement with
  | printed => exact iff_of_true rfl rfl
  | reached => exact iff_of_false CoordState.noConfusion Verdict.noConfusion
  | rejected | halved | raised => exact iff_of_false going Verdict.noConfusion

theorem append_ends {shown lines ending : Screen} (counts : Counts times shown) (ends : Ends 0 ending lines) :
    Ends times ending (shown ++ lines) := by
  obtain ⟨earlier,rfl,uncounted⟩ := ends
  refine ⟨shown ++ earlier,(List.append_assoc _ _ _).symm,?_⟩
  rw [Counts,List.count_append,counts,uncounted,Nat.add_zero]

/-- What a pass puts behind a screen without the aggregate. -/
theorem announced {log : List (Event × Iteration)} {loop : Loop} {event : Event} {iteration : Iteration} {shown lines : Screen}
    (going : loop.state ≠ .exit) (counts : Counts times shown) (announces : Announces 0 lines (verdict plan event) event) :
    Leaves times (log ++ [(event,iteration)]) (judged plan loop (verdict plan event)) (shown ++ lines) := by
  rw [Leaves]
  simp only [judged_exit going]
  split
  next printed =>
    rw [printed] at announces
    cases event with
    | throughput results =>
      rw [verdict] at printed
      split at printed <;> cases printed
    | latency results => exact ⟨results,iteration,List.getLast?_concat,append_ends counts announces⟩
  next other =>
    have uncounted : Counts 0 lines := by
      generalize verdict plan event = judgement at announces other
      cases judgement with
      | printed => exact absurd rfl other
      | rejected | reached | halved | raised => exact announces
    rw [Counts,List.count_append,counts,uncounted,Nat.add_zero]

/-- A pass over results moves the machine by one step. -/
theorem pass_at {loop : Loop} {event : Event} {pass : Go Screen Loop} (going : loop.state ≠ .exit)
    (reported : Reported net plan [] loop event) (appends : Go.Appends pass) (judges : Go.Triple (Counts 0) pass
      (fun loop' screen => loop' = judged plan loop (verdict plan event) ∧ Announces 0 screen (verdict plan event) event)
      (fun _ => False))
    (stepped : (fixedSymRun plan).step loop event = ran loop pass) :
    Go.Triple (fun world => At net plan start times made loop world.2) (screen pass : Go (σ × Screen) Loop)
      (fun loop' world => At net plan start times (made + 1) loop' world.2) (fun _ => False) := by
  constructor
  rintro world ⟨log,length,run,leaves⟩
  rw [Leaves,if_neg going] at leaves
  have ended := judges.ends [] rfl
  rw [screen,Go.onSecond,appends.ran]
  rw [ran] at stepped
  generalize pass [] = result at stepped ended
  rcases result with ⟨loop' | _ | _ | _,lines⟩
  · obtain ⟨rfl,announces⟩ := ended
    refine ⟨log ++ [(event,⟨loop,_,lines⟩)],?_,.snoc run reported stepped,announced going leaves announces⟩
    rw [List.length_append,length]
    rfl
  all_goals exact ended

theorem iteration_at (reliable : Reliable net) (slice : Slice plan.agents) {loop : Loop} (tries : loop.tryCount < maxTries) :
    Go.Triple (fun world => At net plan start times made loop world.2) (iteration net plan loop)
      (Go.Continues (fun loop' world => At net plan start times (made + 1) loop' world.2)
        (fun _ world => loop.state = .exit ∧ At net plan start times made loop world.2)) (fun _ => False) := by
  rw [iteration,if_pos tries]
  split
  next state =>
    have going : loop.state ≠ .exit := fun exited => CoordState.noConfusion (state.symm.trans exited)
    refine Go.triple_bind ((reliable.startMeasure _ _ _).call _ _) (fun _ => Go.triple_given fun _ => Go.triple_given fun _ => ?_)
    refine Go.triple_bind (printf_at _ (by decide) going) (fun _ => ?_)
    refine Go.triple_bind (sleep_total _ _) (fun _ => ?_)
    refine Go.triple_bind ((reliable.reportThroughput _).call _ _) (fun results => Go.triple_given fun returned =>
      Go.triple_given fun each => ?_)
    have stepped := step_throughput plan tries state results
    have reported : Reported net plan [] loop (.throughput results) := returned
    refine Go.triple_bind (pass_at going reported (throughputPass_appends plan loop results) (throughputPass_judged plan loop results
      fun empty => absurd empty (slice.replies each).1) stepped) (fun loop' => ?_)
    exact Go.triple_pure _ (fun _ reached => reached)
  next state =>
    have going : loop.state ≠ .exit := fun exited => CoordState.noConfusion (state.symm.trans exited)
    refine Go.triple_bind ((reliable.startMeasure _ _ _).call _ _) (fun _ => Go.triple_given fun _ => Go.triple_given fun _ => ?_)
    refine Go.triple_bind (printf_at _ (by decide) going) (fun _ => ?_)
    refine Go.triple_bind (printf_at _ (by decide) going) (fun _ => ?_)
    refine Go.triple_bind (printf_at _ (by decide) going) (fun _ => ?_)
    refine Go.triple_bind (sleep_total _ _) (fun _ => ?_)
    refine Go.triple_bind ((reliable.reportLatency _).call _ _) (fun results => Go.triple_given fun returned =>
      Go.triple_given fun each => ?_)
    have stepped := step_latency plan tries state results
    have reported : Reported net plan [] loop (.latency results) := returned
    refine Go.triple_bind (pass_at going reported (latencyPass_appends plan loop results) (latencyPass_judged plan loop results
      fun zero => absurd zero (slice.replies each).2) stepped) (fun loop' => ?_)
    exact Go.triple_pure _ (fun _ reached => reached)
  next state => exact Go.triple_pure _ (fun _ reached => ⟨state,reached⟩)

/-- How the loop returns: after printing once, the aggregate of the last replies, or out of tries and without printing. -/
def Returns (times : Nat) (log : List (Event × Iteration)) (final : Loop) (result : Returned Unit) (screen : Screen) : Prop :=
  (result = .value () ∧ final.state = .exit ∧ Counts (times + 1) screen ∧
      ∃ results iteration, log.getLast? = some (.latency results,iteration) ∧ Concludes times results.result screen) ∨
    (result = .error "Exp Failure: Max tries reached\n" ∧ final.state ≠ .exit ∧ final.tryCount = maxTries ∧ Counts times screen)

/-- The loop returns at the end of a run with at most one pass more than there are tries. -/
def Finishes (net : Net σ) (plan : Plan) (start : Loop) (times : Nat) (result : Returned Unit) (screen : Screen) : Prop :=
  ∃ log final, (fixedSymRun plan).Run (Reported net plan) start log final ∧ log.length ≤ maxTries + 1 ∧
    Returns times log final result screen

end Network

theorem book_short {plan : Plan} {log : List (Event × Iteration)} {loop : Loop} (book : Book plan log loop) :
    log.length ≤ maxTries + 1 := by
  have length := book.length
  have bounded := book.bounded
  have left := book.left
  rw [book.reached,book.printed] at length
  cases state : loop.state with
  | waitForThroughput =>
    rw [state,reachedIn,printedIn] at length
    omega
  | waitForLatency =>
    rw [state,reachedIn,printedIn] at length
    omega
  | exit =>
    rw [state,reachedIn,printedIn] at length
    have few := left state
    omega

section Started
variable {σ : Type} {net : Net σ} {agents : Coordinator} {loadRate ciSize : Int}

theorem loop_finishes (reliable : Reliable net) (slice : Slice agents.symAgents) {times : Nat} (passes made : Nat) (loop : Loop)
    (world : σ × Screen)
    (stands : At net (fixedPlan (started agents) loadRate ciSize) (fixedLoop (started agents)) times made loop world.2)
    (enough : maxTries + 2 ≤ passes + made) :
    Finishes net (fixedPlan (started agents) loadRate ciSize) (fixedLoop (started agents)) times
      (Go.loop (iteration net (fixedPlan (started agents) loadRate ciSize)) passes loop world).1
      (Go.loop (iteration net (fixedPlan (started agents) loadRate ciSize)) passes loop world).2.2 := by
  induction passes generalizing made loop world with
  | zero =>
    obtain ⟨log,length,run,-⟩ := stands
    have short := book_short (book_run run)
    omega
  | succ passes ih =>
    rw [Go.loop]
    by_cases tries : loop.tryCount < maxTries
    · have ended := (iteration_at reliable slice tries).ends world stands
      rcases ran : iteration net (fixedPlan (started agents) loadRate ciSize) loop world with ⟨(loop' | result) | _ | _ | _,after⟩
      · rw [ran] at ended
        rw [Go.bind_value _ ran]
        exact ih (made + 1) loop' after ended (by omega)
      · rw [ran] at ended
        rw [Go.bind_value _ ran]
        obtain ⟨exited,log,length,run,leaves⟩ := ended
        rw [Leaves,if_pos exited] at leaves
        obtain ⟨results,iteration,last,concludes⟩ := leaves
        exact ⟨log,loop,run,book_short (book_run run),.inl ⟨rfl,exited,concludes.counts,results,iteration,last,concludes⟩⟩
      all_goals
        rw [ran] at ended
        exact ended.elim
    · obtain ⟨log,length,run,leaves⟩ := stands
      have book := book_run run
      have failed : iteration net (fixedPlan (started agents) loadRate ciSize) loop world =
          (.error "Exp Failure: Max tries reached\n",world) := by
        rw [iteration,if_neg tries]
        rfl
      have going : loop.state ≠ .exit := fun exited => tries (book.left exited)
      rw [Leaves,if_neg going] at leaves
      rw [Go.bind_error _ failed]
      exact ⟨log,loop,run,book_short book,.inr ⟨rfl,going,Nat.le_antisymm book.bounded (Nat.le_of_not_lt tries),leaves⟩⟩

theorem fixedSymPattern_finishes (reliable : Reliable net) (slice : Slice agents.symAgents) (passes : Nat)
    (enough : maxTries + 2 ≤ passes) (world : σ × Screen) :
    Finishes net (fixedPlan (started agents) loadRate ciSize) (fixedLoop (started agents)) (world.2.count aggregateLatencyLine)
      (fixedSymPattern net passes (started agents) loadRate ciSize world).1
      (fixedSymPattern net passes (started agents) loadRate ciSize world).2.2 := by
  have positive : (started agents).symAgents.length ≠ 0 := fun empty => slice.nonempty (List.length_eq_zero_iff.mp empty)
  rw [fixedSymPattern,if_neg positive]
  have called := ((reliable.startLoad (fixedPlan (started agents) loadRate ciSize).agents
    (fixedPlan (started agents) loadRate ciSize).perAgentLoad).call settingLoad (fun screen => screen = world.2)).ends world rfl
  rcases ran : Go.describe settingLoad (Go.onFirst (startLoad net (fixedPlan (started agents) loadRate ciSize).agents
    (fixedPlan (started agents) loadRate ciSize).perAgentLoad)) world with ⟨result | _ | _ | _,after⟩
  · rw [ran] at called
    obtain ⟨-,-,same⟩ := called
    have slept : sleep net 2 after = (.value (),net.sleep 2 after.1,after.2) := rfl
    have counts : Counts (world.2.count aggregateLatencyLine) after.2 := congrArg (List.count aggregateLatencyLine) same
    rw [Go.bind_value _ ran,Go.bind_value _ slept]
    exact loop_finishes reliable slice passes 0 _ _ ⟨[],rfl,.nil,counts⟩ enough
  all_goals
    rw [ran] at called
    exact called.elim

/-- What holds throughout a run of the loop. -/
structure Throughout (net : Net σ) (plan : Plan) (log : List (Event × Iteration)) (loop : Loop) : Prop where
  book : Book plan log loop
  forward : ∀ entry ∈ log, rank entry.2.before.state ≤ rank entry.2.after.state
  measured : ∀ entry ∈ log, Measures net plan entry.2.before entry.2.before.samples entry.2.before.perAgentSamplingRate

theorem measured_run {environment : Machine.Environment Loop Event Iteration} {log : List (Event × Iteration)} {loop : Loop}
    (run : (fixedSymRun (fixedPlan (started agents) loadRate ciSize)).Run environment (fixedLoop (started agents)) log loop) :
    ∀ entry ∈ log, Measures net (fixedPlan (started agents) loadRate ciSize) entry.2.before entry.2.before.samples
      entry.2.before.perAgentSamplingRate := by
  induction run with
  | nil => exact fun _ member => nomatch member
  | snoc past allowed stepped ih =>
    intro entry member
    rcases List.mem_append.mp member with earlier | last
    · exact ih entry earlier
    · have judges := judges_step stepped
      have state := judges.awaits.state (fixedPlan (started agents) loadRate ciSize)
      rw [List.mem_singleton.mp last]
      dsimp only
      rw [judges.before,(book_run past).perAgent]
      refine measures_rate judges.awaits.1 ?_
      rw [state]
      generalize verdict (fixedPlan (started agents) loadRate ciSize) _ = judgement
      cases judgement <;> exact CoordState.noConfusion

theorem throughout_run {environment : Machine.Environment Loop Event Iteration} {log : List (Event × Iteration)} {loop : Loop}
    (run : (fixedSymRun (fixedPlan (started agents) loadRate ciSize)).Run environment (fixedLoop (started agents)) log loop) :
    Throughout net (fixedPlan (started agents) loadRate ciSize) log loop :=
  ⟨book_run run,forward_run run,measured_run run⟩

end Started

theorem runExp_fixed {σ : Type} {net : Net σ} {agents : Coordinator} {pattern part : List Char} {loadRate : Int} (passes : Nat)
    (latencyRate ciSize : Int) (nonempty : agents.symAgents ≠ []) (name : (split ':' pattern).headD [] = ['f','i','x','e','d'])
    (given : (split ':' pattern)[1]? = some part) (parsed : atoi part = some loadRate) :
    runExp net passes agents pattern latencyRate ciSize = fixedSymPattern net passes (started agents) loadRate ciSize := by
  have positive : agents.symAgents.length ≠ 0 := fun empty => nonempty (List.length_eq_zero_iff.mp empty)
  have load : (parsePart (split ':' pattern) 1 parsingLoad : Go (σ × Screen) Int) = pure loadRate := by
    rw [parsePart,given]
    dsimp only
    rw [parsed]
  rw [runExp,if_pos name,if_neg positive,load]
  rfl

def exampleReports : Reports Unit where
  throughput _ _ := (⟨64000,64000,1000,1000000⟩,some 1)
  latency _ _ := (⟨⟨64000,64000,1000,1000000⟩,21000,20000,21000,22000,30000,31000,32000,35000,36000,37000,40000,41000,42000⟩,
    some ⟨1,0x3fb999999999999a,1⟩)
  after _ := ()

theorem one_agent_separate : ([] ++ [] ++ [0] : List Conn).Nodup := by decide

def exampleAgents : Coordinator := ⟨[],[],[0],0,0,one_agent_separate⟩

end Lancet.FixedTermination
