import Lancet.Foundation.Sums
import Lancet.Manager

/-! What a report says about the measurement. The history of a run keeps, from its events
alone, how long the measure flag has been on since the last START_MEASURE, for how long a
report kept it off, and how many responses came while it was on. -/
namespace Lancet.MeasureWindow
open Foundation Agent Timestamping Stats CoordProto Manager

structure History where
  -- no START_LOAD since the last START_MEASURE
  armed : Bool
  on : Bool
  -- when the flag was last turned on or off
  since : Int
  total : Int
  paused : Int
  responses : Nat
  deriving DecidableEq, Repr

namespace History

def untouched : History := ⟨false,false,0,0,0,0⟩

def onUntil (history : History) (now : Int) : Int :=
  if history.on then history.total + (now - history.since) else history.total

def observe (history : History) : Event → History
  | .message (.startLoad _) now _ =>
    {history with armed := false, on := false, since := now, total := history.onUntil now}
  | .message (.startMeasure _ _) now _ => ⟨true,true,now,0,0,0⟩
  | .message (.reportReq _) now _ => {history with on := false, since := now, total := history.onUntil now}
  | .resume now => {history with on := true, since := now, paused := history.paused + (now - history.since)}
  | .worker _ (.throughputRx rxP) _ =>
    if history.on then {history with responses := history.responses + rxP.reqs.toNat} else history
  | .worker _ _ _ => history

end History

abbrev Log := List (Event × Option Reply)

def history (log : Log) : History := log.foldl (fun history entry => history.observe entry.1) History.untouched

@[simp] theorem history_nil : history [] = History.untouched := rfl

@[simp] theorem history_snoc (log : Log) (entry : Event × Option Reply) :
    history (log ++ [entry]) = (history log).observe entry.1 := List.foldl_concat ..

/-- Messages come one at a time: the next is read after the flag is on again. -/
def Admissible (manager : ManagerState) : Event → Prop
  | .message _ _ _ => manager.reporting = false
  | .resume _ => manager.reporting = true
  | .worker thread _ _ => thread < manager.threads.length

/-- A report is asked for a measurement that was neither ended by a START_LOAD nor interrupted. -/
def Uninterrupted (log : Log) : Event → Prop
  | .message (.reportReq _) _ _ => (history log).armed = true ∧ (history log).paused = 0
  | _ => True

def totalReqs (threads : List ThreadStats) : UInt64 := (threads.map (·.stats.thS.rx.reqs)).sum

def replyData : Reply → Option ThroughputReply
  | .ack => none
  | .throughput data _ => some data
  | .latency data _ => some data.thData

theorem aggregateThroughput_reqs (atype : AgentType) (agg : LatencyStats) (allStats : List LatencyStats) :
    (aggregateThroughputStats atype agg allStats).thS.rx.reqs = (allStats.map (·.thS.rx.reqs)).sum := by
  have fold : ∀ (stats : List LatencyStats) (agg : LatencyStats), (stats.foldl (fun agg stats =>
      {agg with thS := ⟨agg.thS.rx.add stats.thS.rx,agg.thS.tx.add stats.thS.tx⟩}) agg).thS.rx.reqs =
        agg.thS.rx.reqs + (stats.map (·.thS.rx.reqs)).sum := by
    intro stats
    induction stats with
    | nil => exact fun agg => (UInt64.add_zero _).symm
    | cons first stats ih =>
      intro agg
      rw [List.foldl_cons,ih,List.map_cons,List.sum_cons,← UInt64.add_assoc]
      rfl
  rw [aggregateThroughputStats,fold]
  have cleared : (clearStats atype agg).thS.rx.reqs = 0 := by cases atype <;> rfl
  rw [cleared,UInt64.zero_add]

theorem aggregateFrom_reqs {allStats : List LatencyStats} {agg agg' : LatencyStats} {count : Nat}
    (aggregated : aggregateFrom agg count allStats = .next agg') :
    agg'.thS.rx.reqs = agg.thS.rx.reqs + (allStats.map (·.thS.rx.reqs)).sum := by
  induction allStats generalizing agg count with
  | nil =>
    cases aggregated
    exact (UInt64.add_zero _).symm
  | cons stats allStats ih =>
    rw [aggregateFrom] at aggregated
    obtain ⟨middle,appended,rest⟩ := Outcome.bind_next aggregated
    rw [appendSamples] at appended
    split at appended
    · cases appended
      rw [ih rest,List.map_cons,List.sum_cons,← UInt64.add_assoc]
      rfl
    · cases appended

theorem collect_reqs {config : AgentConfig} {qsort : Qsort} {manager : ManagerState} {agg : LatencyStats}
    (collected : collectLatencyStats config qsort manager = .next agg) : agg.thS.rx.reqs = totalReqs manager.threads := by
  obtain ⟨sums,aggregated,computed⟩ := Outcome.bind_next collected
  have cleared : (clearStats config.atype manager.aggStats).thS.rx.reqs = 0 := by cases config.atype <;> rfl
  have reqs := aggregateFrom_reqs aggregated
  dsimp only at reqs
  rw [cleared,UInt64.zero_add] at reqs
  have kept : agg.thS = sums.thS := by
    rw [computeLatencyPercentilesCi] at computed
    obtain ⟨_,-,computed⟩ := Outcome.bind_next computed
    obtain ⟨_,-,computed⟩ := Outcome.bind_next computed
    obtain ⟨_,-,computed⟩ := Outcome.bind_next computed
    obtain ⟨_,-,computed⟩ := Outcome.bind_next computed
    obtain ⟨_,-,computed⟩ := Outcome.bind_next computed
    cases computed
    rfl
  rw [kept,reqs,totalReqs,allStats,List.map_map]
  rfl

/-- Everything a report does to the state that the measurement depends on. -/
structure ReportStep (manager after : ManagerState) (now : Int) (reply : Reply) : Prop where
  data : ∃ data, replyData reply = some data ∧ data.reqCount = totalReqs manager.threads ∧
    data.duration = UInt64.ofInt ((stopMeasure manager now).stopMeasureTime - manager.startMeasureTime)
  flag : after.shouldMeasure = false
  threads : after.threads = manager.threads
  start : after.startMeasureTime = manager.startMeasureTime
  reporting : after.reporting = true

theorem stopMeasure_kept (manager : ManagerState) (now : Int) : (stopMeasure manager now).shouldMeasure = false ∧
    (stopMeasure manager now).threads = manager.threads ∧
    (stopMeasure manager now).startMeasureTime = manager.startMeasureTime := by
  rw [stopMeasure]
  split
  next => exact ⟨rfl,rfl,rfl⟩
  next off => exact ⟨Bool.eq_false_of_not_eq_true off,rfl,rfl⟩

theorem report_step {config : AgentConfig} {qsort : Qsort} {manager after : ManagerState} {now : Int} {reference : List UInt64}
    {type : UInt32} {reply : Reply} (handled : handle config qsort manager now reference (.reportReq type) = .next (after,reply)) :
    ReportStep manager after now reply := by
  obtain ⟨flag,threads,start⟩ := stopMeasure_kept manager now
  rw [handle] at handled
  dsimp only at handled
  split at handled
  · have reqs := aggregateThroughput_reqs config.atype (stopMeasure manager now).aggStats (allStats (stopMeasure manager now))
    have total : ((allStats (stopMeasure manager now)).map (·.thS.rx.reqs)).sum = totalReqs manager.threads := by
      rw [allStats,threads,List.map_map]
      rfl
    rw [total] at reqs
    obtain ⟨agg,iaComp,rfl,rfl,rfl⟩ := replyThroughputStats_next handled
    exact ⟨⟨_,rfl,reqs,by rw [← start]; rfl⟩,flag,threads,start,rfl⟩
  · split at handled
    · obtain ⟨agg,kept,checks,collected,rfl,rfl⟩ := replyLatencyStats_next handled
      have reqs := collect_reqs collected
      dsimp only at reqs
      rw [threads] at reqs
      exact ⟨⟨_,rfl,reqs,by rw [← start]; rfl⟩,flag,threads,start,rfl⟩
    · cases handled

/-- What the worker's call adds to the request counter of its thread. -/
def counted (measure : Bool) : StatsCall → UInt64
  | .throughputRx rxP => if measure then rxP.reqs else 0
  | _ => 0

theorem apply_reqs {measure : Bool} {sampling : Sampling} {draw : Float} {thread after : ThreadStats} {call : StatsCall}
    (applied : thread.apply measure sampling draw call = .next after) :
    after.stats.thS.rx.reqs = thread.stats.thS.rx.reqs + counted measure call := by
  cases call with
  | throughputTx txP =>
    cases applied
    have nothing : counted measure (.throughputTx txP) = 0 := rfl
    rw [nothing,UInt64.add_zero]
    dsimp only [addThroughputTxSample]
    split <;> rfl
  | throughputRx rxP =>
    cases applied
    dsimp only [addThroughputRxSample,counted]
    split
    · rfl
    · exact (UInt64.add_zero _).symm
  | txTimestamp txTs =>
    cases applied
    exact (UInt64.add_zero _).symm
  | latency diff tx =>
    obtain ⟨stats,added,returned⟩ := Outcome.bind_next applied
    cases returned
    have nothing : counted measure (.latency diff tx) = 0 := rfl
    rw [nothing,UInt64.add_zero]
    exact congrArg (fun throughput => throughput.rx.reqs) (addLatencySample_throughput added)

theorem work_step {manager after : ManagerState} {thread : Nat} {call : StatsCall} {draw : Float}
    (inside : thread < manager.threads.length) (worked : work manager thread call draw = .next after) :
    totalReqs after.threads = totalReqs manager.threads + counted manager.shouldMeasure call ∧
      after = {manager with threads := after.threads} := by
  rw [work,List.getElem?_eq_getElem inside] at worked
  obtain ⟨stats,applied,returned⟩ := Outcome.bind_next worked
  cases returned
  refine ⟨?_,rfl⟩
  have held : (manager.threads.map (·.stats.thS.rx.reqs))[thread]? = some manager.threads[thread].stats.thS.rx.reqs := by
    rw [List.getElem?_map,List.getElem?_eq_getElem inside]
    rfl
  rw [totalReqs,List.map_set,apply_reqs applied,sum_set_add held]
  rfl

theorem work_idle {manager : ManagerState} (idle : manager.shouldMeasure = false) (thread : Nat) (call : StatsCall) (draw : Float) :
    work manager thread call draw = .next manager := by
  rw [work]
  cases held : manager.threads[thread]? with
  | none => rfl
  | some stats =>
    have same : stats.apply manager.shouldMeasure manager.sampling draw call = .next stats := by
      rw [idle]
      cases call <;> rfl
    obtain ⟨inside,here⟩ := List.getElem?_eq_some_iff.mp held
    dsimp only
    rw [same,Outcome.next_bind,← here,List.set_getElem_self]
    rfl

/-- How the state stands to the history of its run. -/
structure Agrees (manager : ManagerState) (history : History) : Prop where
  flag : manager.shouldMeasure = history.on
  idle : history.armed = false → history.on = false
  reporting : manager.reporting = true → history.armed = true ∧ history.on = false
  measuring : history.armed = true → manager.reporting = false → history.on = true
  counted : history.armed = true → totalReqs manager.threads = UInt64.ofNat history.responses
  elapsed : history.armed = true → history.total + history.paused = history.since - manager.startMeasureTime

theorem agrees_initially (generators : Generators) (threads : List ThreadStats) (aggStats : LatencyStats) :
    Agrees (initially generators threads aggStats) History.untouched where
  flag := rfl
  idle _ := rfl
  reporting reporting := absurd reporting Bool.false_ne_true
  measuring armed := absurd armed Bool.false_ne_true
  counted armed := absurd armed Bool.false_ne_true
  elapsed armed := absurd armed Bool.false_ne_true

theorem clear_reqs (atype : AgentType) (threads : List ThreadStats) : totalReqs (threads.map (clearThread atype)) = 0 := by
  have each : ∀ thread, (clearThread atype thread).stats.thS.rx.reqs = 0 := by
    intro thread
    cases atype <;> rfl
  induction threads with
  | nil => rfl
  | cons thread threads ih =>
    rw [totalReqs,List.map_map] at ih
    rw [totalReqs,List.map_map,List.map_cons,List.sum_cons,ih,UInt64.add_zero]
    exact each thread

theorem Agrees.startLoad {config : AgentConfig} {qsort : Qsort} {manager after : ManagerState} {history : History} {now load : Int}
    {reference : List UInt64} {reply : Reply} (ready : manager.reporting = false)
    (handled : handle config qsort manager now reference (.startLoad load) = .next (after,reply)) :
    Agrees after (history.observe (.message (.startLoad load) now reference)) := by
  obtain ⟨generators,-,rfl,-⟩ := startLoad_next handled
  have still : manager.reporting = true → False := fun reporting => Bool.false_ne_true (ready.symm.trans reporting)
  exact ⟨rfl,fun _ => rfl,fun reporting => (still reporting).elim,fun armed => absurd armed Bool.false_ne_true,
    fun armed => absurd armed Bool.false_ne_true,fun armed => absurd armed Bool.false_ne_true⟩

theorem Agrees.startMeasure {config : AgentConfig} {qsort : Qsort} {manager after : ManagerState} {history : History}
    {now samples : Int} {sampling : Float} {reference : List UInt64} {reply : Reply} (ready : manager.reporting = false)
    (handled : handle config qsort manager now reference (.startMeasure samples sampling) = .next (after,reply)) :
    Agrees after (history.observe (.message (.startMeasure samples sampling) now reference)) := by
  obtain ⟨chosen,-,rfl,-⟩ := startMeasure_next handled
  have still : manager.reporting = true → False := fun reporting => Bool.false_ne_true (ready.symm.trans reporting)
  exact ⟨rfl,fun unarmed => absurd unarmed.symm Bool.false_ne_true,fun reporting => (still reporting).elim,fun _ _ => rfl,
    fun _ => clear_reqs _ _,fun _ => (Int.sub_self now).symm⟩

theorem Agrees.reportReq {config : AgentConfig} {qsort : Qsort} {manager after : ManagerState} {history : History} {now : Int}
    {reference : List UInt64} {type : UInt32} {reply : Reply} (agrees : Agrees manager history)
    (armed : history.armed = true) (ready : manager.reporting = false)
    (handled : handle config qsort manager now reference (.reportReq type) = .next (after,reply)) :
    Agrees after (history.observe (.message (.reportReq type) now reference)) := by
  obtain ⟨-,flag,threads,start,reporting⟩ := report_step handled
  have on := agrees.measuring armed ready
  refine ⟨flag,fun _ => rfl,fun _ => ⟨armed,rfl⟩,fun _ stopped => absurd (stopped.symm.trans reporting) Bool.false_ne_true,?_,?_⟩
  · intro _
    rw [threads]
    exact agrees.counted armed
  · intro _
    have before := agrees.elapsed armed
    rw [start]
    dsimp only [History.observe,History.onUntil]
    rw [if_pos on]
    omega

theorem Agrees.resume {manager : ManagerState} {history : History} {now : Int} (agrees : Agrees manager history)
    (reporting : manager.reporting = true) :
    Agrees {manager with shouldMeasure := true, reporting := false} (history.observe (.resume now)) := by
  obtain ⟨armed,off⟩ := agrees.reporting reporting
  refine ⟨rfl,fun unarmed => absurd (unarmed.symm.trans armed) Bool.false_ne_true,
    fun still => absurd still Bool.false_ne_true,fun _ _ => rfl,fun _ => agrees.counted armed,fun _ => ?_⟩
  have before := agrees.elapsed armed
  dsimp only [History.observe]
  omega

/-- A worker's call leaves everything but the responses. -/
theorem observe_worker (history : History) (thread : Nat) (call : StatsCall) (draw : Float) :
    ∃ responses, history.observe (.worker thread call draw) = {history with responses := responses} ∧
      UInt64.ofNat responses = UInt64.ofNat history.responses + counted history.on call := by
  cases call with
  | throughputRx rxP =>
    dsimp only [History.observe,counted]
    split
    · exact ⟨_,rfl,by rw [UInt64.ofNat_add,UInt64.ofNat_toNat]⟩
    · exact ⟨history.responses,rfl,(UInt64.add_zero _).symm⟩
  | throughputTx txP => exact ⟨history.responses,rfl,(UInt64.add_zero _).symm⟩
  | txTimestamp txTs => exact ⟨history.responses,rfl,(UInt64.add_zero _).symm⟩
  | latency diff tx => exact ⟨history.responses,rfl,(UInt64.add_zero _).symm⟩

theorem Agrees.worker {manager after : ManagerState} {history : History} {thread : Nat} {call : StatsCall} {draw : Float}
    (agrees : Agrees manager history) (inside : thread < manager.threads.length)
    (worked : work manager thread call draw = .next after) : Agrees after (history.observe (.worker thread call draw)) := by
  obtain ⟨total,frame⟩ := work_step inside worked
  obtain ⟨responses,observed,more⟩ := observe_worker history thread call draw
  rw [agrees.flag] at total
  rw [frame,observed]
  refine ⟨agrees.flag,agrees.idle,agrees.reporting,agrees.measuring,fun armed => ?_,agrees.elapsed⟩
  dsimp only
  rw [total,more,agrees.counted armed]

/-- The report the last entry of a log makes is about the time and the responses since START_MEASURE. -/
def Exact (history : History) (entry : Event × Option Reply) : Prop :=
  ∀ type now reference, entry.1 = .message (.reportReq type) now reference → ∃ reply data, entry.2 = some reply ∧
    replyData reply = some data ∧ data.duration = UInt64.ofInt (history.onUntil now) ∧
      data.reqCount = UInt64.ofNat history.responses

def Measured : Machine.Environment ManagerState Event (Option Reply) := fun log manager event =>
  Admissible manager event ∧ Uninterrupted log event

theorem agrees_step {config : AgentConfig} {qsort : Qsort} {log : Log} {manager after : ManagerState} {event : Event}
    {output : Option Reply} (agrees : Agrees manager (history log)) (measured : Measured log manager event)
    (stepped : (managerRun config qsort).step manager event = .next (after,output)) :
    Agrees after (history (log ++ [(event,output)])) ∧ Exact (history log) (event,output) := by
  obtain ⟨admissible,uninterrupted⟩ := measured
  rw [history_snoc]
  cases event with
  | worker thread call draw =>
    obtain ⟨manager',worked,returned⟩ := Outcome.bind_next stepped
    cases returned
    exact ⟨agrees.worker admissible worked,fun _ _ _ other => nomatch other⟩
  | resume now =>
    cases stepped
    exact ⟨agrees.resume admissible,fun _ _ _ other => nomatch other⟩
  | message message now reference =>
    obtain ⟨⟨manager',reply⟩,handled,returned⟩ := Outcome.bind_next stepped
    cases returned
    cases message with
    | startLoad load => exact ⟨.startLoad admissible handled,fun _ _ _ other => nomatch other⟩
    | startMeasure samples sampling => exact ⟨.startMeasure admissible handled,fun _ _ _ other => nomatch other⟩
    | reportReq type =>
      obtain ⟨armed,unpaused⟩ := uninterrupted
      refine ⟨agrees.reportReq armed admissible handled,fun type' now' reference' same => ?_⟩
      cases same
      obtain ⟨⟨data,sent,reqs,duration⟩,-,-,-,-⟩ := report_step handled
      have on := agrees.measuring armed admissible
      have elapsed := agrees.elapsed armed
      refine ⟨reply,data,rfl,sent,?_,reqs.trans (agrees.counted armed)⟩
      rw [duration,stopMeasure,if_pos (agrees.flag.trans on),History.onUntil,if_pos on]
      congr 1
      dsimp only
      omega

def Consistent (log : Log) (manager : ManagerState) : Prop :=
  (∀ past entry future, log = past ++ entry :: future → Exact (history past) entry) ∧ Agrees manager (history log)

theorem consistent_run {config : AgentConfig} {qsort : Qsort} {generators : Generators} {threads : List ThreadStats}
    {aggStats : LatencyStats} {log : Log} {manager : ManagerState}
    (run : (managerRun config qsort).Run Measured (initially generators threads aggStats) log manager) :
    Consistent log manager := by
  refine @Machine.Run.invariant _ _ _ _ _ _ Consistent ⟨?_,agrees_initially generators threads aggStats⟩ ?_ _ _ run
  · exact fun past entry future impossible => absurd impossible (by simp)
  · intro log manager event after output ⟨consistent,agrees⟩ measured stepped
    obtain ⟨agrees',last⟩ := agrees_step agrees measured stepped
    refine ⟨fun past entry future split => ?_,agrees'⟩
    rcases Machine.split_snoc split with ⟨rfl,rfl⟩ | ⟨future',earlier⟩
    · exact last
    · exact consistent past entry future' earlier

theorem reports_consistent (config : AgentConfig) (qsort : Qsort) (generators : Generators) (threads : List ThreadStats)
    (aggStats : LatencyStats) (log : Log) (manager : ManagerState)
    (run : (managerRun config qsort).Run Measured (initially generators threads aggStats) log manager) :
    (∀ past entry future, log = past ++ entry :: future → Exact (history past) entry) ∧
      manager.shouldMeasure = (history log).on ∧
      ((history log).armed = false → ∀ thread call draw, work manager thread call draw = .next manager) := by
  obtain ⟨consistent,agrees⟩ := consistent_run run
  refine ⟨consistent,agrees.flag,fun unarmed => work_idle ?_⟩
  rw [agrees.flag,agrees.idle unarmed]

instance (manager : ManagerState) (event : Event) : Decidable (Admissible manager event) :=
  match event with
  | .message _ _ _ => inferInstanceAs (Decidable (manager.reporting = false))
  | .resume _ => inferInstanceAs (Decidable (manager.reporting = true))
  | .worker thread _ _ => inferInstanceAs (Decidable (thread < manager.threads.length))

instance (log : Log) (event : Event) : Decidable (Uninterrupted log event) :=
  match event with
  | .message (.reportReq _) _ _ => inferInstanceAs (Decidable ((history log).armed = true ∧ (history log).paused = 0))
  | .message (.startLoad _) _ _ | .message (.startMeasure _ _) _ _ | .resume _ | .worker _ _ _ => .isTrue trivial

instance (log : Log) (manager : ManagerState) (event : Event) : Decidable (Measured log manager event) :=
  inferInstanceAs (Decidable (_ ∧ _))

def exampleConfig : AgentConfig := ⟨1,.symmetricAgent⟩

def exampleStart : ManagerState := initially .exponential [⟨.zero,⟨0,fun _ => Timespec.zero⟩⟩] .zero

/-- A millisecond of measuring in which three responses come, and a report. -/
def exampleEvents : List Event :=
  [.message (.startMeasure 100 20) 10 [],.worker 0 (.throughputRx ⟨192,3⟩) 0,.message (.reportReq reportThroughputType) 1010 []]

/-- The last entry is a report of some duration when the flag has been on for another. -/
def misreported (measured : Int) (duration : UInt64) (log : Log) : Bool :=
  match log.reverse with
  | (.message (.reportReq _) now _,some reply) :: past =>
    (replyData reply).any (fun data => data.duration == duration) && (history past.reverse).onUntil now == measured
  | _ => false

theorem reports_consistent_once : ∃ log manager,
    (managerRun exampleConfig Qsort.insertion).Run Measured exampleStart log manager ∧ log.length = 3 ∧
      ∀ past entry future, log = past ++ entry :: future → Exact (history past) entry := by
  obtain ⟨log,manager,run,three⟩ := @Machine.run_of_follow _ _ _ (managerRun exampleConfig Qsort.insertion) Measured exampleStart
    (fun log manager event => decide (Measured log manager event)) (fun _ _ _ => of_decide_eq_true) exampleEvents
    (fun ended => ended.1.length == 3) (by decide +kernel)
  exact ⟨log,manager,run,eq_of_beq three,(reports_consistent exampleConfig Qsort.insertion _ _ _ log manager run).1⟩

/-- A second report counts the pause of the first; a report after START_LOAD turns measuring on. -/
theorem report_counts_pause :
    (∃ log manager, (managerRun exampleConfig Qsort.insertion).Run (fun _ => Admissible) exampleStart log manager ∧
      misreported 1500 2000 log = true ∧ ¬∀ past entry future, log = past ++ entry :: future → Exact (history past) entry) ∧
    ∃ log manager, (managerRun exampleConfig Qsort.insertion).Run (fun _ => Admissible) exampleStart log manager ∧
      (history log).armed = false ∧ manager.shouldMeasure = true := by
  constructor
  · obtain ⟨log,manager,run,wrong⟩ := @Machine.run_of_follow _ _ _ (managerRun exampleConfig Qsort.insertion)
      (fun _ => Admissible) exampleStart (fun _ manager event => decide (Admissible manager event))
      (fun _ _ _ => of_decide_eq_true) (exampleEvents ++ [.resume 1510,.message (.reportReq reportThroughputType) 2010 []])
      (fun ended => misreported 1500 2000 ended.1) (by decide +kernel)
    refine ⟨log,manager,run,wrong,fun consistent => ?_⟩
    rw [misreported] at wrong
    split at wrong
    next type now reference reply past reversed =>
      have split : log = past.reverse ++ (.message (.reportReq type) now reference,some reply) :: [] := by
        rw [← List.reverse_reverse log,reversed,List.reverse_cons]
      obtain ⟨reply',data,same,sent,duration,-⟩ := consistent _ _ _ split type now reference rfl
      cases same
      rw [sent,Option.any_some,Bool.and_eq_true] at wrong
      rw [eq_of_beq wrong.1,eq_of_beq wrong.2] at duration
      exact absurd duration (by decide)
    next => cases wrong
  · obtain ⟨log,manager,run,wrong⟩ := @Machine.run_of_follow _ _ _ (managerRun exampleConfig Qsort.insertion)
      (fun _ => Admissible) exampleStart (fun _ manager event => decide (Admissible manager event))
      (fun _ _ _ => of_decide_eq_true) [.message (.startLoad 1000) 10 [],.message (.reportReq reportThroughputType) 20 [],.resume 30]
      (fun ended => !(history ended.1).armed && ended.2.shouldMeasure) (by decide +kernel)
    obtain ⟨unarmed,on⟩ := Bool.and_eq_true_iff.mp wrong
    exact ⟨log,manager,run,Bool.not_eq_true' .. |>.mp unarmed,on⟩

end Lancet.MeasureWindow
