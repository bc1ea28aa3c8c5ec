import Lancet.Deployment
import Lancet.ReplyStream

/-! Conversations of the coordinator with its agents. As long as no call has failed, each agent
answers one request at a time, and its answer is read before the next request is written. -/
namespace Lancet.Conversations
open Foundation Agent Timestamping Stats CoordProto Proto Manager MessageStream MeasureWindow ReplyStream Deployment

structure Exchange where
  request : Request
  reply : Reply
  reference : List UInt64
  asked : Int
  handled : Int
  collected : Int

/-- How far the request that is not collected yet has come. -/
inductive Stage where
  | idle
  | asked (request : Request) (time : Int)
  | answered (request : Request) (reply : Reply) (reference : List UInt64) (time handled : Int)

def handling (a : Conn) (request : Request) (reply : Reply) (reference : List UInt64) (time : Int) : Entry :=
  .agent a (.message request.received time reference) (some reply) time

def Exchange.entries (a : Conn) (exchange : Exchange) : List Entry :=
  [.wrote a exchange.request.bytes exchange.asked,
    handling a exchange.request exchange.reply exchange.reference exchange.handled,
    .received a exchange.reply.bytes exchange.collected]

namespace Stage

def entries (a : Conn) : Stage → List Entry
  | .idle => []
  | .asked request time => [.wrote a request.bytes time]
  | .answered request reply reference time handled =>
    [.wrote a request.bytes time,handling a request reply reference handled]

def inbox : Stage → MessageStream.Segments
  | .idle => []
  | .asked request _ => [request.bytes]
  | .answered _ _ _ _ _ => []

def outbox : Stage → List UInt8
  | .idle => []
  | .asked _ _ => []
  | .answered _ reply _ _ _ => reply.bytes

end Stage

/-- The reply is of the kind that the request asks for. -/
def Fits : Request → Reply → Prop
  | .startLoad _, reply => reply = .ack
  | .startMeasure _ _, reply => reply = .ack
  | .reportThroughput, reply => ∃ data iaComp, reply = .throughput data iaComp
  | .reportLatency, reply => ∃ data checks, reply = .latency data checks

/-- The conversation with an agent is a sequence of exchanges, the last one perhaps not complete. -/
def Conversed (a : Conn) (trace : List Entry) (stage : Stage) : Prop :=
  ∃ done : List Exchange, (∀ exchange ∈ done, Fits exchange.request exchange.reply) ∧
    conversation a trace = done.flatMap (Exchange.entries a) ++ stage.entries a

def isWorker : Event → Bool
  | .worker _ _ _ => true
  | .message _ _ _ | .resume _ => false

/-- The responses that the workers have recorded. -/
def responses (window : Log) : Nat := (window.map (fun entry => match entry.1 with
  | .worker _ (.throughputRx rxP) _ => rxP.reqs.toNat
  | _ => 0)).sum

/-- Since a START_MEASURE at this time there were calls of the workers only. -/
def Measuring (log : Log) (since : Int) (window : Log) : Prop :=
  (∃ past samples sampling reference,
    log = past ++ (.message (.startMeasure samples sampling) since reference,some .ack) :: window) ∧
    ∀ entry ∈ window, isWorker entry.1 = true

/-- A report is about the window that ends with it, which is at least so long. -/
def ReportsWindow (long : UInt32 → Int) (past : Log) (entry : Event × Option Reply) : Prop :=
  ∀ type now reference, entry.1 = .message (.reportReq type) now reference → ∃ since window reply data,
    Measuring past since window ∧ entry.2 = some reply ∧ replyData reply = some data ∧
      data.duration = UInt64.ofInt (now - since) ∧ data.reqCount = UInt64.ofNat (responses window) ∧ long type ≤ now - since

def Told (long : UInt32 → Int) (log : Log) : Prop :=
  ∀ past entry future, log = past ++ entry :: future → ReportsWindow long past entry

/-- The time that a report is about and the calls of the workers in it. -/
structure Window where
  since : Int
  now : Int
  calls : Log

/-- The report in an agent's log that is about this window. -/
def Reports (log : Log) (window : Window) (reply : Reply) : Prop :=
  ∃ past type reference future, log = past ++ (.message (.reportReq type) window.now reference,some reply) :: future ∧
    Measuring past window.since window.calls

/-- A report that was asked for tells of a window that has begun at the limit at the latest. -/
def Answers (long : UInt32 → Int) (request : Request) (limit : Option Int) (reply : Reply) (log : Log) : Prop :=
  ∀ type, request.received = .reportReq type → ∃ window data latest, Reports log window reply ∧ replyData reply = some data ∧
    data.duration = UInt64.ofInt (window.now - window.since) ∧ data.reqCount = UInt64.ofNat (responses window.calls) ∧
    latest ∈ limit ∧ window.since ≤ latest ∧ latest + long type ≤ window.now

/-- What a trace without a failed call shows. -/
structure Sound (long : UInt32 → Int) (trace : List Entry) : Prop where
  ordered : (times trace).Pairwise (· ≤ ·)
  conversed : ∀ a, ∃ stage, Conversed a trace stage
  told : ∀ a, Told long (agentLog a trace)

theorem responses_snoc (window : Log) (entry : Event × Option Reply) :
    responses (window ++ [entry]) = responses window + responses [entry] := by
  rw [responses,List.map_append,List.sum_append]
  rfl

theorem history_window {log window : Log} {since : Int} (measuring : Measuring log since window) :
    history log = ⟨true,true,since,0,0,responses window⟩ := by
  obtain ⟨⟨past,samples,sampling,reference,rfl⟩,workers⟩ := measuring
  induction window using List.reverseRecOn with
  | nil =>
    rw [history_snoc]
    rfl
  | append_singleton window entry ih =>
    have before := ih (fun entry member => workers entry (List.mem_append_left _ member))
    have worker := workers entry (List.mem_append_right _ (List.mem_singleton_self _))
    rw [← List.cons_append,← List.append_assoc,history_snoc,before]
    obtain ⟨event,output⟩ := entry
    cases event with
    | message message now reference => cases worker
    | resume now => cases worker
    | worker thread call draw =>
      rw [responses_snoc]
      cases call <;> rfl

theorem Measuring.snoc {log window : Log} {since : Int} {entry : Event × Option Reply} (measuring : Measuring log since window)
    (worker : isWorker entry.1 = true) : Measuring (log ++ [entry]) since (window ++ [entry]) := by
  obtain ⟨⟨past,samples,sampling,reference,rfl⟩,workers⟩ := measuring
  refine ⟨⟨past,samples,sampling,reference,by rw [List.append_assoc,List.cons_append]⟩,fun other member => ?_⟩
  rcases List.mem_append.mp member with earlier | last
  · exact workers other earlier
  · rw [List.mem_singleton.mp last]
    exact worker

theorem Told.snoc {long : UInt32 → Int} {log : Log} {entry : Event × Option Reply} (told : Told long log)
    (new : ReportsWindow long log entry) : Told long (log ++ [entry]) := by
  intro past other future split
  rcases Machine.split_snoc split with ⟨rfl,rfl⟩ | ⟨future',inside⟩
  · exact new
  · exact told past other future' inside

theorem bytes_nonempty (request : Request) : request.bytes ≠ [] := by
  intro empty
  have header := request.fields_nonempty request.header.bytes List.mem_cons_self
  rw [← request.fields_flatten,Request.fields,List.flatten_cons] at empty
  exact header (List.append_eq_nil_iff.mp empty).1

theorem readMessage_whole (request : Request) : readMessage [request.bytes] = .next (some (request.received,[])) := by
  have carries : Foundation.Segments.Carries [request.bytes] (request.fields ++ []) := by
    rw [List.append_nil]
    refine ⟨fun segment member => ?_,request.fields_nonempty,by rw [request.fields_flatten,List.flatten_singleton]⟩
    rw [List.mem_singleton.mp member]
    exact bytes_nonempty request
  have whole : Foundation.Segments.Whole (request.fields ++ []) [request.bytes] :=
    ⟨[request.fields],by rw [List.append_nil,List.flatten_singleton],by rw [← request.fields_flatten]; rfl⟩
  rcases readMessage_obtains request carries with ⟨rest,read,later,-⟩ | ⟨-,split⟩
  · rw [read,later.ended]
  · exact absurd whole split

theorem handle_fits {config : AgentConfig} {qsort : Qsort} {manager after : ManagerState} {now : Int} {reference : List UInt64}
    {request : Request} {reply : Reply} (handled : handle config qsort manager now reference request.received = .next (after,reply)) :
    Fits request reply := by
  cases request with
  | startLoad load =>
    obtain ⟨-,-,-,rfl⟩ := startLoad_next handled
    rfl
  | startMeasure sampleCount samplingRate =>
    obtain ⟨chosen,-,-,rfl⟩ := startMeasure_next handled
    rfl
  | reportThroughput =>
    obtain ⟨agg,iaComp,-,-,sent⟩ := replyThroughputStats_next handled
    exact ⟨_,_,sent⟩
  | reportLatency =>
    obtain ⟨agg,kept,checks,-,-,sent⟩ := replyLatencyStats_next handled
    exact ⟨_,_,sent⟩

/-- The measurement that a request leaves behind has begun until now. -/
def leaves (now : Int) : Request → Option Int
  | .startMeasure _ _ => some now
  | .startLoad _ | .reportThroughput | .reportLatency => none

/-- A report is asked for only when a measurement has been going on for long enough. -/
def Due (long : UInt32 → Int) (limit : Option Int) (now : Int) (request : Request) : Prop :=
  ∀ type, request.received = .reportReq type → ∃ latest ∈ limit, latest + long type ≤ now

/-- How it stands with one agent. With a limit it is measuring, and has begun until then. -/
structure Tuned (fleet : Fleet) (long : UInt32 → Int) (a : Conn) (site : Site) (stage : Stage) (limit : Option Int) : Prop where
  inbox : (site.remotes a).inbox = stage.inbox
  outbox : (site.remotes a).outbox = stage.outbox
  conversed : Conversed a site.trace stage
  run : (managerRun (fleet.config a) fleet.qsort).Run Measured (fleet.start a) (agentLog a site.trace) (site.remotes a).manager
  told : Told long (agentLog a site.trace)
  measuring : ∀ latest ∈ limit, (site.remotes a).manager.reporting = false ∧
    ∃ since window, Measuring (agentLog a site.trace) since window ∧ since ≤ latest

section Agents
variable {fleet : Fleet} {long : UInt32 → Int} {a : Conn} {site after : Site} {stage : Stage} {limit : Option Int}

theorem Tuned.frame (tuned : Tuned fleet long a site stage limit) (untouched : Untouched a site after) :
    Tuned fleet long a after stage limit := by
  obtain ⟨manager,inbox,outbox,log,conversed,-⟩ := untouched
  refine ⟨inbox.trans tuned.inbox,outbox.trans tuned.outbox,?_,?_,?_,?_⟩
  · rw [Conversed,conversed]
    exact tuned.conversed
  · rw [log,manager]
    exact tuned.run
  · rw [log]
    exact tuned.told
  · rw [log,manager]
    exact tuned.measuring

theorem Tuned.relax {limit' : Option Int} (tuned : Tuned fleet long a site stage limit)
    (weaker : ∀ latest' ∈ limit', ∃ latest ∈ limit, latest ≤ latest') : Tuned fleet long a site stage limit' := by
  refine ⟨tuned.inbox,tuned.outbox,tuned.conversed,tuned.run,tuned.told,fun latest' known' => ?_⟩
  obtain ⟨latest,known,before⟩ := weaker latest' known'
  obtain ⟨idle,since,window,measuring,begun⟩ := tuned.measuring latest known
  exact ⟨idle,since,window,measuring,Int.le_trans begun before⟩

theorem Tuned.leaves_later {request : Request} {now later : Int} (tuned : Tuned fleet long a site stage (leaves now request))
    (before : now ≤ later) : Tuned fleet long a site stage (leaves later request) := by
  refine tuned.relax fun latest known => ?_
  cases request with
  | startMeasure sampleCount samplingRate =>
    cases known
    exact ⟨now,rfl,before⟩
  | startLoad load => cases known
  | reportThroughput => cases known
  | reportLatency => cases known

theorem Due.later {request : Request} {now later : Int} (due : Due long limit now request) (before : now ≤ later) :
    Due long limit later request := by
  intro type report
  obtain ⟨latest,known,enough⟩ := due type report
  exact ⟨latest,known,Int.le_trans enough before⟩

/-- A worker or the end of a report: nothing that the conversation is about. -/
theorem Tuned.aside {event : Event} {output : Option Reply} {inbox : MessageStream.Segments}
    (tuned : Tuned fleet long a site stage limit) (stepped : Stepped fleet a site after event output inbox)
    (aside : ∀ message now reference, event ≠ .message message now reference) : Tuned fleet long a after stage limit := by
  obtain ⟨offers,step,sameInbox,outbox,trace,-⟩ := stepped
  have quiet : conversation a after.trace = conversation a site.trace := by
    rw [trace,conversation_snoc]
    cases event with
    | message message now reference => exact absurd rfl (aside message now reference)
    | resume now => exact List.append_nil _
    | worker thread call draw => exact List.append_nil _
  have log : agentLog a after.trace = agentLog a site.trace ++ [(event,output)] := by rw [trace,agentLog_own]
  have told : Told long (agentLog a after.trace) := by
    rw [log]
    exact tuned.told.snoc fun type now reference same => absurd same (aside _ now reference)
  have run : Measured (agentLog a site.trace) (site.remotes a).manager event →
      (managerRun (fleet.config a) fleet.qsort).Run Measured (fleet.start a) (agentLog a after.trace) (after.remotes a).manager := by
    intro measured
    rw [log]
    exact .snoc tuned.run measured step
  cases event with
  | message message now reference => exact absurd rfl (aside message now reference)
  | resume now =>
    obtain ⟨reporting,rfl⟩ := offers
    obtain ⟨-,rfl⟩ := Prod.mk.inj (Outcome.next.inj step)
    refine ⟨sameInbox.trans tuned.inbox,?_,?_,run ⟨reporting,trivial⟩,told,fun latest known => ?_⟩
    · rw [outbox,tuned.outbox]
      exact List.append_nil _
    · rw [Conversed,quiet]
      exact tuned.conversed
    · obtain ⟨idle,-⟩ := tuned.measuring latest known
      exact absurd (reporting.symm.trans idle) Bool.noConfusion
  | worker thread call draw =>
    obtain ⟨inside,rfl⟩ := offers
    obtain ⟨manager,worked,returned⟩ := Outcome.bind_next step
    obtain ⟨same,rfl⟩ := Prod.mk.inj (Outcome.next.inj returned)
    rw [same] at worked
    have kept := (work_step inside worked).2
    refine ⟨sameInbox.trans tuned.inbox,?_,?_,run ⟨inside,trivial⟩,told,fun latest known => ?_⟩
    · rw [outbox,tuned.outbox]
      exact List.append_nil _
    · rw [Conversed,quiet]
      exact tuned.conversed
    · obtain ⟨idle,since,window,measuring,begun⟩ := tuned.measuring latest known
      rw [log,kept]
      exact ⟨idle,since,_,measuring.snoc rfl,begun⟩

/-- No message is handled when none is there. -/
theorem Tuned.quiet (tuned : Tuned fleet long a site stage limit) (empty : stage.inbox = []) (effect : Effect fleet a site after) :
    Tuned fleet long a after stage limit := by
  rcases effect with untouched | ⟨event,output,inbox,stepped⟩
  · exact tuned.frame untouched
  · refine tuned.aside stepped ?_
    rintro message now reference rfl
    obtain ⟨-,-,received⟩ := stepped.offers
    rw [tuned.inbox,empty,readMessage_closed] at received
    cases received

theorem Tuned.measured {request : Request} {time : Int} (tuned : Tuned fleet long a site (.asked request time) limit)
    (due : Due long limit site.clock request) (idle : (site.remotes a).manager.reporting = false) (now : Int)
    (reference : List UInt64) :
    Measured (agentLog a site.trace) (site.remotes a).manager (.message request.received now reference) := by
  refine ⟨idle,?_⟩
  cases report : request.received with
  | startLoad load => trivial
  | startMeasure samples sampling => trivial
  | reportReq type =>
    obtain ⟨latest,known,-⟩ := due type report
    obtain ⟨-,since,window,measuring,-⟩ := tuned.measuring latest known
    rw [Uninterrupted,history_window measuring]
    exact ⟨rfl,rfl⟩

theorem Tuned.reports {request : Request} {time : Int} (tuned : Tuned fleet long a site (.asked request time) limit)
    (due : Due long limit site.clock request) {reference : List UInt64} {output : Option Reply} {manager : ManagerState}
    (run : (managerRun (fleet.config a) fleet.qsort).Run Measured (fleet.start a)
      (agentLog a site.trace ++ [(.message request.received site.clock reference,output)]) manager) {type : UInt32}
    (report : request.received = .reportReq type) :
    ∃ latest since window reply data, latest ∈ limit ∧ since ≤ latest ∧ latest + long type ≤ site.clock ∧
      Measuring (agentLog a site.trace) since window ∧ output = some reply ∧ replyData reply = some data ∧
      data.duration = UInt64.ofInt (site.clock - since) ∧ data.reqCount = UInt64.ofNat (responses window) := by
  obtain ⟨latest,known,enough⟩ := due type report
  obtain ⟨-,since,window,measuring,begun⟩ := tuned.measuring latest known
  obtain ⟨reply,data,sent,content,duration,reqs⟩ := (consistent_run run).1 _ _ [] rfl type site.clock reference (by rw [report])
  rw [history_window measuring] at duration reqs
  have whole : 0 + (site.clock - since) = site.clock - since := Int.zero_add _
  refine ⟨latest,since,window,reply,data,known,begun,enough,measuring,sent,content,?_,reqs⟩
  rw [← whole]
  exact duration

theorem Tuned.reportsWindow {request : Request} {time : Int} (tuned : Tuned fleet long a site (.asked request time) limit)
    (due : Due long limit site.clock request) {reference : List UInt64} {output : Option Reply} {manager : ManagerState}
    (run : (managerRun (fleet.config a) fleet.qsort).Run Measured (fleet.start a)
      (agentLog a site.trace ++ [(.message request.received site.clock reference,output)]) manager) :
    ReportsWindow long (agentLog a site.trace) (.message request.received site.clock reference,output) := by
  intro type now reference' same
  obtain ⟨report,rfl,rfl⟩ := Event.message.inj same
  obtain ⟨latest,since,window,reply,data,-,begun,enough,measuring,sent,content,duration,reqs⟩ := tuned.reports due run report
  exact ⟨since,window,reply,data,measuring,sent,content,duration,reqs,by omega⟩

theorem Tuned.answers {request : Request} {time : Int} (tuned : Tuned fleet long a site (.asked request time) limit)
    (due : Due long limit site.clock request) {reference : List UInt64} {reply : Reply} {manager : ManagerState}
    (run : (managerRun (fleet.config a) fleet.qsort).Run Measured (fleet.start a)
      (agentLog a site.trace ++ [(.message request.received site.clock reference,some reply)]) manager) :
    Answers long request limit reply (agentLog a site.trace ++ [(.message request.received site.clock reference,some reply)]) := by
  intro type report
  obtain ⟨latest,since,window,reply',data,known,begun,enough,measuring,sent,content,duration,reqs⟩ := tuned.reports due run report
  cases sent
  refine ⟨⟨since,site.clock,window⟩,data,latest,⟨_,type,reference,[],?_,measuring⟩,content,duration,reqs,known,begun,enough⟩
  rw [report]

theorem Reports.extend {log : Log} {window : Window} {reply : Reply} (reports : Reports log window reply) (more : Log) :
    Reports (log ++ more) window reply := by
  obtain ⟨past,type,reference,future,split,measuring⟩ := reports
  refine ⟨past,type,reference,future ++ more,?_,measuring⟩
  rw [split,List.append_assoc,List.cons_append]

theorem Answers.extend {request : Request} {reply : Reply} {log : Log} (answers : Answers long request limit reply log) (more : Log) :
    Answers long request limit reply (log ++ more) := by
  intro type report
  obtain ⟨window,data,latest,reports,rest⟩ := answers type report
  exact ⟨window,data,latest,reports.extend more,rest⟩

theorem measuring_left {config : AgentConfig} {qsort : Qsort} {manager after : ManagerState} {now : Int} {reference : List UInt64}
    {request : Request} {reply : Reply} (idle : manager.reporting = false)
    (handled : handle config qsort manager now reference request.received = .next (after,reply)) (log : Log) :
    ∀ latest ∈ leaves now request, after.reporting = false ∧ ∃ since window,
      Measuring (log ++ [(.message request.received now reference,some reply)]) since window ∧ since ≤ latest := by
  intro latest known
  cases request with
  | startMeasure sampleCount samplingRate =>
    obtain ⟨chosen,-,rfl,rfl⟩ := startMeasure_next handled
    cases known
    exact ⟨idle,now,[],⟨⟨log,_,_,reference,rfl⟩,fun _ member => nomatch member⟩,Int.le_refl now⟩
  | startLoad load => cases known
  | reportThroughput => cases known
  | reportLatency => cases known

/-- An asked agent goes on or answers. -/
theorem Tuned.asked {request : Request} {time : Int} (tuned : Tuned fleet long a site (.asked request time) limit)
    (due : Due long limit site.clock request) (effect : Effect fleet a site after) :
    Tuned fleet long a after (.asked request time) limit ∨ ∃ reply reference handled, Fits request reply ∧
      Answers long request limit reply (agentLog a after.trace) ∧
      Tuned fleet long a after (.answered request reply reference time handled) (leaves after.clock request) := by
  rcases effect with untouched | ⟨event,output,inbox,stepped⟩
  · exact .inl (tuned.frame untouched)
  · cases event with
    | resume now => exact .inl (tuned.aside stepped (fun _ _ _ other => nomatch other))
    | worker thread call draw => exact .inl (tuned.aside stepped (fun _ _ _ other => nomatch other))
    | message message now reference =>
      obtain ⟨⟨rfl,idle,received⟩,step,sameInbox,outbox,trace,clock⟩ := stepped
      have here : readMessage (site.remotes a).inbox = .next (some (request.received,[])) := by
        rw [tuned.inbox]
        exact readMessage_whole request
      rw [here] at received
      cases received
      have run := tuned.run.snoc (tuned.measured due idle site.clock reference) step
      have told := tuned.told.snoc (tuned.reportsWindow due run)
      obtain ⟨⟨manager,reply⟩,handled,returned⟩ := Outcome.bind_next step
      obtain ⟨same,rfl⟩ := Prod.mk.inj (Outcome.next.inj returned)
      subst same
      have log : agentLog a after.trace = agentLog a site.trace ++ [(.message request.received site.clock reference,some reply)] := by
        rw [trace,agentLog_own]
      obtain ⟨done,fitting,talk⟩ := tuned.conversed
      have answers := tuned.answers due run
      refine .inr ⟨reply,reference,site.clock,handle_fits handled,log ▸ answers,sameInbox,?_,⟨done,fitting,?_⟩,log ▸ run,log ▸ told,?_⟩
      · rw [outbox,tuned.outbox]
        rfl
      · rw [trace,conversation_snoc,talk,List.append_assoc]
        congr 1
        simp [conversation,Entry.concerns,Stage.entries,handling]
      · rw [log,clock]
        exact measuring_left idle handled _

end Agents

/-- How far a call has come with an agent. -/
inductive Status where
  | idle (limit : Option Int)
  | waiting (request : Request) (limit : Option Int)
  | served (request : Request)

def Holds (fleet : Fleet) (long : UInt32 → Int) (a : Conn) (site : Site) : Status → Prop
  | .idle limit => Tuned fleet long a site .idle limit
  | .waiting request limit =>
    (∃ time, Due long limit site.clock request ∧ Tuned fleet long a site (.asked request time) limit) ∨
      ∃ reply reference time handled, Fits request reply ∧ Answers long request limit reply (agentLog a site.trace) ∧
        Tuned fleet long a site (.answered request reply reference time handled) (leaves site.clock request)
  | .served request => Tuned fleet long a site .idle (leaves site.clock request)

/-- No call has failed, and the times of the trace are in order. -/
structure Timed (site : Site) : Prop where
  unfailed : ∀ entry ∈ site.trace, entry.isFailed = false
  ordered : (times site.trace).Pairwise (· ≤ ·)
  past : ∀ time ∈ times site.trace, time ≤ site.clock

structure Orderly (fleet : Fleet) (long : UInt32 → Int) (begun : Int) (site : Site) (status : Conn → Status) : Prop where
  timed : Timed site
  later : begun ≤ site.clock
  each : ∀ a, Holds fleet long a site (status a)

def Broken (long : UInt32 → Int) (site : Site) : Prop :=
  ∃ past a rest, site.trace = past ++ .failed a :: rest ∧ (∀ entry ∈ past, entry.isFailed = false) ∧ Sound long past

section Sites
variable {fleet : Fleet} {long : UInt32 → Int} {begun : Int} {site after : Site} {status : Conn → Status}

theorem Timed.later (timed : Timed site) (same : after.trace = site.trace) (later : site.clock ≤ after.clock) : Timed after := by
  refine ⟨?_,?_,?_⟩
  all_goals rw [same]
  · exact timed.unfailed
  · exact timed.ordered
  · exact fun time member => Int.le_trans (timed.past time member) later

theorem Timed.add {entry : Entry} (timed : Timed site) (added : after.trace = site.trace ++ [entry])
    (now : entry.time = some after.clock) (later : site.clock ≤ after.clock) : Timed after := by
  have stamped : times after.trace = times site.trace ++ [after.clock] := by
    rw [added,times_snoc,times,times,List.filterMap_cons_some now,List.filterMap_nil]
  refine ⟨?_,?_,?_⟩
  · rw [added]
    intro other member
    rcases List.mem_append.mp member with earlier | last
    · exact timed.unfailed other earlier
    · rw [List.mem_singleton.mp last]
      cases entry with
      | failed a => cases now
      | wrote a msg time => rfl
      | agent a event output time => rfl
      | received a chunk time => rfl
  · rw [stamped,List.pairwise_append]
    refine ⟨timed.ordered,List.pairwise_singleton _ _,fun time member new last => ?_⟩
    rw [List.mem_singleton.mp last]
    exact Int.le_trans (timed.past time member) later
  · rw [stamped]
    intro time member
    rcases List.mem_append.mp member with earlier | last
    · exact Int.le_trans (timed.past time earlier) later
    · exact Int.le_of_eq (List.mem_singleton.mp last)

theorem Holds.frame {a : Conn} {held : Status} (holds : Holds fleet long a site held) (untouched : Untouched a site after) :
    Holds fleet long a after held := by
  cases held with
  | idle limit => exact Tuned.frame holds untouched
  | waiting request limit =>
    rcases holds with ⟨time,due,tuned⟩ | ⟨reply,reference,time,handled,fits,answers,tuned⟩
    · exact .inl ⟨time,due.later untouched.clock,tuned.frame untouched⟩
    · refine .inr ⟨reply,reference,time,handled,fits,?_,(tuned.frame untouched).leaves_later untouched.clock⟩
      rw [untouched.log]
      exact answers
  | served request => exact (Tuned.frame holds untouched).leaves_later untouched.clock

theorem Holds.effect {a : Conn} {held : Status} (holds : Holds fleet long a site held) (effect : Effect fleet a site after) :
    Holds fleet long a after held := by
  cases held with
  | idle limit => exact Tuned.quiet holds rfl effect
  | waiting request limit =>
    rcases holds with ⟨time,due,tuned⟩ | ⟨reply,reference,time,handled,fits,answers,tuned⟩
    · rcases tuned.asked due effect with still | ⟨reply,reference,handled,fits,answers,answered⟩
      · exact .inl ⟨time,due.later effect.clock,still⟩
      · exact .inr ⟨reply,reference,time,handled,fits,answers,answered⟩
    · obtain ⟨more,log⟩ := effect.log
      refine .inr ⟨reply,reference,time,handled,fits,?_,(tuned.quiet rfl effect).leaves_later effect.clock⟩
      rw [log]
      exact answers.extend more
  | served request => exact (Tuned.quiet holds rfl effect).leaves_later effect.clock

theorem Orderly.happen (orderly : Orderly fleet long begun site status) (happening : Happening) :
    Orderly fleet long begun (fleet.happen site happening) status := by
  have clock := (@happen_grows fleet site happening).clock
  refine ⟨?_,Int.le_trans orderly.later clock,fun a => (orderly.each a).effect (happen_effect a happening)⟩
  rcases @happen_grows fleet site happening with ⟨same,later⟩ | ⟨a,event,output,added,now⟩
  · exact orderly.timed.later same later
  · exact orderly.timed.add added rfl (Int.le_of_eq now.symm)

theorem Orderly.elapse (orderly : Orderly fleet long begun site status) : Orderly fleet long begun (fleet.elapse site) status := by
  have happened : ∀ (happenings : List Happening) (site : Site), Orderly fleet long begun site status →
      Orderly fleet long begun (happenings.foldl fleet.happen site) status := by
    intro happenings
    induction happenings with
    | nil => exact fun site orderly => orderly
    | cons happening happenings ih => exact fun site orderly => ih _ (orderly.happen happening)
  have ended := happened (fleet.turn site).happenings site orderly
  exact ⟨ended.timed.later rfl (Int.le_refl _),ended.later,fun a => (ended.each a).frame ⟨rfl,rfl,rfl,rfl,rfl,Int.le_refl _⟩⟩

theorem Holds.sound {a : Conn} {held : Status} (holds : Holds fleet long a site held) :
    (∃ stage, Conversed a site.trace stage) ∧ Told long (agentLog a site.trace) := by
  cases held with
  | idle limit => exact ⟨⟨_,holds.conversed⟩,holds.told⟩
  | waiting request limit =>
    rcases holds with ⟨time,due,tuned⟩ | ⟨reply,reference,time,handled,fits,answers,tuned⟩
    · exact ⟨⟨_,tuned.conversed⟩,tuned.told⟩
    · exact ⟨⟨_,tuned.conversed⟩,tuned.told⟩
  | served request => exact ⟨⟨_,Tuned.conversed holds⟩,Tuned.told holds⟩

theorem Orderly.sound (orderly : Orderly fleet long begun site status) : Sound long site.trace :=
  ⟨orderly.timed.ordered,fun a => (orderly.each a).sound.1,fun a => (orderly.each a).sound.2⟩

theorem Orderly.fail (orderly : Orderly fleet long begun site status) (a : Conn) : Broken long (Fleet.fail site a) :=
  ⟨site.trace,a,[],rfl,orderly.timed.unfailed,orderly.sound⟩

theorem Broken.extend (broken : Broken long site) (more : ∃ entries, after.trace = site.trace ++ entries) : Broken long after := by
  obtain ⟨past,a,rest,split,unfailed,sound⟩ := broken
  obtain ⟨entries,added⟩ := more
  exact ⟨past,a,rest ++ entries,by rw [added,split,List.append_assoc,List.cons_append],unfailed,sound⟩

theorem elapse_extends (site : Site) : ∃ entries, (fleet.elapse site).trace = site.trace ++ entries := by
  have happened : ∀ (happenings : List Happening) (site : Site),
      ∃ entries, (happenings.foldl fleet.happen site).trace = site.trace ++ entries := by
    intro happenings
    induction happenings with
    | nil => exact fun site => ⟨[],(List.append_nil _).symm⟩
    | cons happening happenings ih =>
      intro site
      obtain ⟨entries,later⟩ := ih (fleet.happen site happening)
      rcases @happen_grows fleet site happening with ⟨same,-⟩ | ⟨a,event,output,added,-⟩
      · exact ⟨entries,by rw [List.foldl_cons,later,same]⟩
      · exact ⟨.agent a event output _ :: entries,by rw [List.foldl_cons,later,added,List.append_assoc]; rfl⟩
  exact happened (fleet.turn site).happenings site

end Sites

section Calls
variable {fleet : Fleet} {long : UInt32 → Int} {begun : Int} {site : Site} {status : Conn → Status} {a : Conn}

/-- The coordinator's entries are not in the log of any agent, and not in the conversation with another one. -/
theorem noted_untouched {b : Conn} (other : b ≠ a) (remote : Remote) {entry : Entry}
    (note : (∃ msg time, entry = .wrote a msg time) ∨ ∃ chunk time, entry = .received a chunk time) :
    Untouched b site {Fleet.update site a remote with trace := site.trace ++ [entry]} := by
  have apart : ¬a = b := fun same => other same.symm
  refine ⟨by simp [Fleet.update,other],by simp [Fleet.update,other],by simp [Fleet.update,other],?_,?_,Int.le_refl _⟩
  · rw [agentLog_append]
    rcases note with ⟨msg,time,rfl⟩ | ⟨chunk,time,rfl⟩ <;> exact List.append_nil _
  · rw [conversation_snoc]
    rcases note with ⟨msg,time,rfl⟩ | ⟨chunk,time,rfl⟩ <;> simp [conversation,Entry.concerns,apart]

theorem Tuned.written {request : Request} {limit : Option Int} (tuned : Tuned fleet long a site .idle limit) :
    Tuned fleet long a {Fleet.update site a {site.remotes a with inbox := (site.remotes a).inbox ++ [request.bytes]} with
      trace := site.trace ++ [.wrote a request.bytes site.clock]} (.asked request site.clock) limit := by
  obtain ⟨done,fitting,talk⟩ := tuned.conversed
  have log : agentLog a (site.trace ++ [.wrote a request.bytes site.clock]) = agentLog a site.trace := by
    rw [agentLog_append]
    exact List.append_nil _
  refine ⟨?_,?_,⟨done,fitting,?_⟩,?_,?_,?_⟩
  · simp [Fleet.update,tuned.inbox,Stage.inbox]
  · simp [Fleet.update,tuned.outbox,Stage.outbox]
  · rw [conversation_snoc,talk]
    simp [conversation,Entry.concerns,Stage.entries]
  · simpa [Fleet.update,log] using tuned.run
  · simpa [log] using tuned.told
  · simpa [Fleet.update,log] using tuned.measuring

theorem Tuned.collected {request : Request} {reply : Reply} {reference : List UInt64} {time handled : Int} {limit : Option Int}
    {capacity : Nat} (fits : Fits request reply) (whole : reply.bytes.length ≤ capacity)
    (tuned : Tuned fleet long a site (.answered request reply reference time handled) limit) :
    Tuned fleet long a {Fleet.update site a {site.remotes a with outbox := (site.remotes a).outbox.drop capacity} with
      trace := site.trace ++ [.received a ((site.remotes a).outbox.take capacity) site.clock]} .idle limit := by
  obtain ⟨done,fitting,talk⟩ := tuned.conversed
  have taken : (site.remotes a).outbox.take capacity = reply.bytes := by
    rw [tuned.outbox]
    exact List.take_of_length_le whole
  have log : agentLog a (site.trace ++ [.received a reply.bytes site.clock]) = agentLog a site.trace := by
    rw [agentLog_append]
    exact List.append_nil _
  rw [taken]
  refine ⟨?_,?_,⟨done ++ [⟨request,reply,reference,time,handled,site.clock⟩],?_,?_⟩,?_,?_,?_⟩
  · simp [Fleet.update,tuned.inbox,Stage.inbox]
  · simpa [Fleet.update,tuned.outbox,Stage.outbox] using whole
  · intro exchange member
    rcases List.mem_append.mp member with earlier | last
    · exact fitting exchange earlier
    · rw [List.mem_singleton.mp last]
      exact fits
  · rw [conversation_snoc,talk]
    simp [conversation,Entry.concerns,Stage.entries,Exchange.entries]
  · simpa [Fleet.update,log] using tuned.run
  · simpa [log] using tuned.told
  · simpa [Fleet.update,log] using tuned.measuring

theorem Orderly.write {request : Request} {limit : Option Int} {count : Nat} {after : Site}
    (orderly : Orderly fleet long begun site status) (idle : status a = .idle limit) (due : Due long limit begun request)
    (written : fleet.write a request.bytes site = (.ok count,after)) :
    count = request.bytes.length ∧ Orderly fleet long begun after (Function.update status a (.waiting request limit)) := by
  have later := orderly.elapse
  rw [Fleet.write] at written
  dsimp only at written
  split at written
  next => cases written
  next =>
    cases written
    refine ⟨rfl,later.timed.add rfl rfl (Int.le_refl _),later.later,fun b => ?_⟩
    by_cases same : b = a
    · subst same
      rw [Function.update_self]
      have tuned := later.each b
      rw [idle] at tuned
      exact .inl ⟨_,due.later later.later,Tuned.written tuned⟩
    · rw [Function.update_of_ne same]
      exact (later.each b).frame (noted_untouched same _ (.inl ⟨_,_,rfl⟩))

theorem Orderly.write_failed {msg : List UInt8} {text : String} {after : Site} (orderly : Orderly fleet long begun site status)
    (failed : fleet.write a msg site = (.error text,after)) : Broken long after := by
  rw [Fleet.write] at failed
  dsimp only at failed
  split at failed
  next =>
    cases failed
    exact orderly.elapse.fail a
  next => cases failed

theorem Orderly.read {request : Request} {limit : Option Int} {timeOut capacity : Nat} {chunk : List UInt8} {after : Site}
    (orderly : Orderly fleet long begun site status) (waiting : status a = .waiting request limit)
    (whole : ∀ reply, Fits request reply → reply.bytes.length ≤ capacity)
    (read : fleet.read a timeOut capacity site = (.ok chunk,after)) : ∃ reply, Fits request reply ∧ chunk = reply.bytes ∧
      Answers long request limit reply (agentLog a after.trace) ∧
      Orderly fleet long begun after (Function.update status a (.served request)) := by
  have later := orderly.elapse
  rw [Fleet.read] at read
  dsimp only at read
  split at read
  next => cases read
  next =>
    split at read
    next => cases read
    next guard =>
      cases read
      have held := later.each a
      rw [waiting] at held
      rcases held with ⟨time,due,tuned⟩ | ⟨reply,reference,time,handled,fits,answers,tuned⟩
      · exact absurd (.inl tuned.outbox) guard
      · refine ⟨reply,fits,?_,?_,later.timed.add rfl rfl (Int.le_refl _),later.later,fun b => ?_⟩
        · rw [tuned.outbox]
          exact List.take_of_length_le (whole reply fits)
        · rw [agentLog_append]
          exact answers.extend _
        · by_cases same : b = a
          · subst same
            rw [Function.update_self]
            exact Tuned.collected fits (whole reply fits) tuned
          · rw [Function.update_of_ne same]
            exact (later.each b).frame (noted_untouched same _ (.inr ⟨_,_,rfl⟩))

theorem Orderly.read_failed {timeOut capacity : Nat} {text : String} {after : Site} (orderly : Orderly fleet long begun site status)
    (failed : fleet.read a timeOut capacity site = (.error text,after)) : Broken long after := by
  rw [Fleet.read] at failed
  dsimp only at failed
  split at failed
  next =>
    cases failed
    exact orderly.elapse.fail a
  next =>
    split at failed
    next =>
      cases failed
      exact orderly.elapse.fail a
    next => cases failed

theorem write_extends (a : Conn) (msg : List UInt8) (site : Site) :
    ∃ entries, (fleet.write a msg site).2.trace = site.trace ++ entries := by
  obtain ⟨entries,elapsed⟩ := @elapse_extends fleet site
  rw [Fleet.write]
  dsimp only
  split
  next => exact ⟨entries ++ [_],by rw [← List.append_assoc,← elapsed]; rfl⟩
  next => exact ⟨entries ++ [_],by rw [← List.append_assoc,← elapsed]⟩

theorem read_extends (a : Conn) (timeOut capacity : Nat) (site : Site) :
    ∃ entries, (fleet.read a timeOut capacity site).2.trace = site.trace ++ entries := by
  obtain ⟨entries,elapsed⟩ := @elapse_extends fleet site
  rw [Fleet.read]
  dsimp only
  split
  next => exact ⟨entries ++ [_],by rw [← List.append_assoc,← elapsed]; rfl⟩
  next =>
    split
    next => exact ⟨entries ++ [_],by rw [← List.append_assoc,← elapsed]; rfl⟩
    next => exact ⟨entries ++ [_],by rw [← List.append_assoc,← elapsed]⟩

end Calls

end Lancet.Conversations
