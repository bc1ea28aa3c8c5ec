import Lancet.ClosedLoop
import Lancet.Reassembly
import Lancet.Foundation.Draining

/-! The closed loop does not get stuck. As long as no request is due, what a run has left open can be
read, answered, received and recorded, and no order of these steps goes on for ever. -/
namespace Lancet.Settling
open Foundation Wire Agent Timestamping Stats AppProto Manager TpTcp TcpHistory TcpSteps CreditBound AgentSystem WindowBalance
open CreateRequest SyntheticServer ClosedLoop

variable {threads conns servers : Nat}

/-- The steps that only finish what was begun. -/
def Settles : SystemEvent threads conns servers → Prop
  | .agent (.pass _ (.epollIn _ (.bytes _) _)) _ | .agent (.record _ _) _ => True
  | .server _ (.readable _ _) | .server _ (.spun _) => True
  | _ => False

instance : DecidablePred (Settles : SystemEvent threads conns servers → Prop)
  | .agent (.pass _ (.epollIn _ (.bytes _) _)) _ | .agent (.record _ _) _ => .isTrue trivial
  | .server _ (.readable _ _) | .server _ (.spun _) => .isTrue trivial
  | .agent (.pass _ (.epollIn _ (.error _) _)) _ | .agent (.pass _ (.idle _)) _ | .agent (.pass _ (.send _)) _ => .isFalse id
  | .agent (.pass _ (.epollErr _)) _ | .agent (.pass _ (.epollHup _)) _ | .agent (.pass _ (.epollOther _)) _ => .isFalse id
  | .agent (.pass _ (.txReport _ _)) _ | .agent (.message _ _ _) _ | .agent (.resume _) _ => .isFalse id
  | .server _ (.accept _) | .server _ (.hangup _) => .isFalse id

/-- A look at the clock in front of `epoll_wait` after which nothing is sent. -/
def Looks : SystemEvent threads conns servers × SystemOutput threads conns → Prop
  | (.agent (.pass _ (.send _)) _,.agent (.passed effect)) => effect.sent = none
  | _ => False

/-- A settling step as the code makes it: a thread that receives has looked at the clock in the
same pass, and no request was due. -/
def Unhurried (time : Int) : SystemLog threads conns servers → Prop
  | [(.agent (.record _ _) _,_)] | [(.server _ (.readable _ _),_)] | [(.server _ (.spun _),_)] => True
  | [(.agent (.pass thread (.send attempt)) _,output),(.agent (.pass thread' (.epollIn _ (.bytes _) _)) _,_)] =>
    thread = thread' ∧ attempt.now = time ∧ output = .agent (.passed {calls := []})
  | _ => False

theorem Unhurried.kinds {time : Int} {piece : SystemLog threads conns servers} (unhurried : Unhurried time piece) :
    (∀ entry ∈ piece, Settles entry.1 ∨ Looks entry) ∧ 0 < piece.countP (fun entry => Settles entry.1) := by
  rw [Unhurried.eq_def] at unhurried
  split at unhurried
  next => exact ⟨List.forall_mem_singleton.mpr (.inl trivial),Nat.one_pos⟩
  next => exact ⟨List.forall_mem_singleton.mpr (.inl trivial),Nat.one_pos⟩
  next => exact ⟨List.forall_mem_singleton.mpr (.inl trivial),Nat.one_pos⟩
  next =>
    obtain ⟨-,-,rfl⟩ := unhurried
    exact ⟨List.forall_mem_cons.mpr ⟨.inr rfl,List.forall_mem_singleton.mpr (.inl trivial)⟩,Nat.one_pos⟩
  next => exact unhurried.elim

-- a request is 24 before it is read, 17 in service and 16 on its way back
def weight (owner : Socket threads conns → Fin servers) (system : System threads conns servers) (socket : Socket threads conns) : Nat :=
  3 * (system.toServer socket).length + 17 * inService owner system socket + 2 * (system.toAgent socket).length

def toRecord (agent : AgentState (Thread conns) threads) : Nat := ∑ thread, (agent.workers thread).calls.length

def workLeft (owner : Socket threads conns → Fin servers) (system : System threads conns servers) : Nat :=
  ∑ socket, weight owner system socket + toRecord system.agent

section Work
variable {owner : Socket threads conns → Fin servers} {before after : System threads conns servers}

theorem toRecord_set (agent : AgentState (Thread conns) threads) (thread : Fin threads) (worker : Worker (Thread conns)) :
    toRecord (setWorker agent thread worker) + (agent.workers thread).calls.length = toRecord agent + worker.calls.length := by
  have moved := sum_apart (fun other => (agent.workers other).calls.length)
    (fun other => ((setWorker agent thread worker).workers other).calls.length) thread
    (fun other apart => by rw [setWorker_other agent worker apart])
  rw [setWorker_same] at moved
  exact moved

theorem workLeft_lower (socket : Socket threads conns)
    (same : ∀ other, other ≠ socket → weight owner after other = weight owner before other)
    (less : weight owner after socket + toRecord after.agent < weight owner before socket + toRecord before.agent) :
    workLeft owner after < workLeft owner before := by
  have moved := sum_apart (weight owner before) (weight owner after) socket same
  rw [workLeft,workLeft]
  omega

variable {config : AgentConfig} {qsort : Qsort}

/-- A request that is read weighs less in service than among the unread ones. -/
theorem read_lowers {server : Fin servers} {socket : Socket threads conns} {data : List UInt8} (owns : owner socket = server)
    (free : (before.servers server).spinning = none) (arrived : Arrives (before.toServer socket) data)
    (whole : data.length = sizeofLong) :
    workLeft owner {answer before (.readable socket data) (.toSpin socket (longOf data)) with
      servers := Function.update before.servers server {before.servers server with spinning := some socket}} < workLeft owner before := by
  have long := arrived.2.length_le
  rw [whole] at long
  have idle : inService owner before socket = 0 := by
    rw [inService,owns,free]
    exact if_neg (Option.some_ne_none socket).symm
  refine workLeft_lower socket (fun other apart => ?_) ?_
  · have was : (before.servers server).spinning ≠ some other := by
      rw [free]
      exact (Option.some_ne_none other).symm
    have still : inService owner {answer before (.readable socket data) (.toSpin socket (longOf data)) with
        servers := Function.update before.servers server {before.servers server with spinning := some socket}} other =
        inService owner before other :=
      inService_other (fun equal => apart (Option.some.inj equal).symm) was
    rw [weight,weight,still]
    simp only [answer,pull,Function.update_of_ne apart]
  · have busy : inService owner {answer before (.readable socket data) (.toSpin socket (longOf data)) with
        servers := Function.update before.servers server {before.servers server with spinning := some socket}} socket = 1 :=
      (inService_update owns).trans (if_pos rfl)
    rw [weight,weight,busy,idle]
    simp only [answer,pull,Function.update_self,List.length_drop,whole]
    unfold sizeofLong at *
    omega

/-- And one that is answered weighs less on its way back. -/
theorem wrote_lowers {server : Fin servers} {socket : Socket threads conns} (owns : owner socket = server)
    (spinning : (before.servers server).spinning = some socket) :
    workLeft owner {answer before (.spun sizeofLong) (.replied socket (u64Bytes replyLong)) with
      servers := Function.update before.servers server {before.servers server with spinning := none}} < workLeft owner before := by
  have busy : inService owner before socket = 1 := by
    rw [inService,owns,spinning]
    exact if_pos rfl
  refine workLeft_lower socket (fun other apart => ?_) ?_
  · have was : (before.servers server).spinning ≠ some other := by
      rw [spinning]
      exact fun equal => apart (Option.some.inj equal).symm
    have still : inService owner {answer before (.spun sizeofLong) (.replied socket (u64Bytes replyLong)) with
        servers := Function.update before.servers server {before.servers server with spinning := none}} other =
        inService owner before other :=
      inService_other (Option.some_ne_none other).symm was
    rw [weight,weight,still]
    simp only [answer,push,Function.update_of_ne apart]
  · have idle : inService owner {answer before (.spun sizeofLong) (.replied socket (u64Bytes replyLong)) with
        servers := Function.update before.servers server {before.servers server with spinning := none}} socket = 0 :=
      (inService_update owns).trans (if_neg (Option.some_ne_none socket).symm)
    rw [weight,weight,busy,idle]
    simp only [answer,push,Function.update_self,List.length_append,u64Bytes_length]
    omega

theorem server_lowers {server : Fin servers} {event : ServerEvent (Socket threads conns)} {output : SystemOutput threads conns}
    {main : TcpMain} (owned : Owned owner before) (epolled : Epolled (before.servers server) event)
    (delivered : Delivered before (.server server event))
    (stepped : (closedLoop config qsort main).step before (.server server event) = .next (after,output)) :
    workLeft owner after < workLeft owner before := by
  obtain ⟨⟨thread,inner⟩,serverStepped,returned⟩ := Outcome.bind_next stepped
  cases returned
  cases served_cases serverStepped with
  | accepted same => exact delivered.elim
  | closed same => exact delivered.elim
  | idle absent same => exact absurd absent epolled
  | @read socket data whole same =>
    obtain ⟨watched,free,-⟩ := epolled
    subst same
    exact read_lowers (owned.watched server socket watched) free delivered whole
  | @wrote socket spinning same =>
    subst same
    exact wrote_lowers (owned.spinning server socket spinning) spinning

theorem toRecord_pass (agent : AgentState (Thread conns) threads) (thread : Fin threads) (worker : Worker (Thread conns))
    (made : (agent.workers thread).calls = []) : toRecord (setWorker agent thread worker) = toRecord agent + worker.calls.length := by
  have moved := toRecord_set agent thread worker
  rw [made,List.length_nil,Nat.add_zero] at moved
  exact moved

theorem exchange_weight {event : AgentEvent (TpTcp.Event conns) threads} {output : AgentOutput (TpTcp.Effect conns)} {drawn : Int64}
    {agent : AgentState (Thread conns) threads} {socket : Socket threads conns}
    (toServer : (exchange before event output drawn).toServer socket = before.toServer socket)
    (toAgent : (exchange before event output drawn).toAgent socket = before.toAgent socket) :
    weight owner {exchange before event output drawn with agent := agent} socket = weight owner before socket := by
  rw [weight,weight,inService,inService]
  dsimp only
  rw [toServer,toAgent,exchange_servers]

theorem carryOver_not_halt {carry : Bool} {buffer : List UInt8} {bufferIdx : UInt16} {consumed : Nat} :
    carryOver carry buffer bufferIdx consumed ≠ .halt := by
  intro halted
  rw [carryOver] at halted
  split at halted
  next => cases halted
  next =>
    split at halted
    next =>
      split at halted
      next =>
        split at halted
        next => cases halted
        next => cases halted
      next => cases halted
    next => cases halted

/-- A receive of the throughput loop returns or trips an assertion. -/
theorem receive_not_halt {conn : TcpConnection} {data : List UInt8} (nonempty : data ≠ []) :
    receive true .synthetic conn (.bytes data) ≠ .halt := by
  rw [receive_bytes true .synthetic conn data nonempty]
  intro halted
  rcases Outcome.bind_halt halted with consumed | ⟨readRes,-,halted⟩
  · cases consumed
  · rcases Outcome.bind_halt halted with carried | ⟨kept,-,halted⟩
    · exact carryOver_not_halt carried
    · rcases Outcome.bind_halt halted with counted | ⟨_,-,halted⟩
      · exact Outcome.assert_not_halt _ counted
      · cases halted

theorem pass_lowers {thread : Fin threads} {idx : Fin conns} {data : List UInt8} {rx : Timespec} {drawn : Int64}
    {output : SystemOutput threads conns} (made : (before.agent.workers thread).calls = [])
    (arrived : Arrives (before.toAgent (thread,idx)) data)
    (stepped : (closedLoop config qsort .throughput).step before (.agent (.pass thread (.epollIn idx (.bytes data) rx)) drawn) =
      .next (after,output)) : workLeft owner after < workLeft owner before := by
  obtain ⟨nonempty,part⟩ := arrived
  obtain ⟨⟨agent,inner⟩,agentStepped,returned⟩ := Outcome.bind_next stepped
  cases returned
  have passed : pass (throughputTcpMain .synthetic) TpTcp.Effect.calls before.agent thread (.epollIn idx (.bytes data) rx) =
    .next (agent,inner) := agentStepped
  rw [AgentSystem.pass] at passed
  split at passed
  next state effect looped =>
    cases passed
    have few : effect.calls.length ≤ 1 := by
      obtain ⟨outcome,-,handled⟩ := Outcome.bind_next looped
      cases outcome with
      | closed conn =>
        cases handled
        exact Nat.zero_le 1
      | responses conn readRes =>
        cases handled
        exact Nat.le_refl 1
    have long := part.length_le
    have positive : 0 < data.length := List.length_pos_iff.mpr nonempty
    refine workLeft_lower (thread,idx) (fun other apart => ?_) ?_
    · exact exchange_weight rfl (Function.update_of_ne apart ..)
    · have recorded := toRecord_pass before.agent thread ⟨state,effect.calls,true⟩ made
      dsimp only at recorded
      have service : inService owner {exchange before (.pass thread (.epollIn idx (.bytes data) rx)) (.passed effect) drawn with
          agent := setWorker before.agent thread ⟨state,effect.calls,true⟩} (thread,idx) = inService owner before (thread,idx) := rfl
      rw [weight,weight,service]
      simp only [exchange,pull,Function.update_self,List.length_drop]
      omega
  next halted =>
    rcases Outcome.bind_halt halted with received | ⟨outcome,-,handled⟩
    · exact absurd received (receive_not_halt nonempty)
    · cases outcome with
      | closed conn => cases handled
      | responses conn readRes => cases handled
  next => cases passed

theorem record_lowers {main : TcpMain} {thread : Fin threads} {draw : Float} {drawn : Int64} {output : SystemOutput threads conns}
    (waiting : (before.agent.workers thread).calls ≠ [])
    (stepped : (closedLoop config qsort main).step before (.agent (.record thread draw) drawn) = .next (after,output)) :
    workLeft owner after < workLeft owner before := by
  obtain ⟨⟨agent,inner⟩,agentStepped,returned⟩ := Outcome.bind_next stepped
  cases returned
  cases stepped_cases agentStepped with
  | idle empty same => exact absurd empty waiting
  | @recorded _ _ call rest manager queued worked same =>
    have fewer := toRecord_set before.agent thread ⟨(before.agent.workers thread).loop,rest,(before.agent.workers thread).running⟩
    rw [queued,List.length_cons] at fewer
    have less : toRecord agent < toRecord before.agent := by
      rw [same]
      change toRecord (setWorker before.agent thread ⟨(before.agent.workers thread).loop,rest,_⟩) < _
      dsimp only at fewer
      omega
    have weights : ∀ socket, weight owner {exchange before (.record thread draw) (.recorded (some call)) drawn with agent := agent}
        socket = weight owner before socket := fun socket => rfl
    rw [workLeft,workLeft,Finset.sum_congr rfl fun socket _ => weights socket]
    exact Nat.add_lt_add_left less _

end Work

section Lowers
variable {owner : Socket threads conns → Fin servers} {config : AgentConfig} {qsort : Qsort} {generators : Generators} {stats : List ThreadStats}
  {aggStats : LatencyStats} {now : Int}

theorem settles_lowers : Machine.Lowers (closedLoop config qsort .throughput) Networked
    (connected owner generators stats aggStats now : System threads conns servers) Settles (workLeft owner) := by
  intro log before event after output run networked stepped settles
  obtain ⟨ordered,delivered⟩ := networked
  cases event with
  | agent event drawn =>
    cases event with
    | message message now reference => exact settles.elim
    | resume now => exact settles.elim
    | record thread draw => exact record_lowers ordered stepped
    | pass thread event =>
      cases event with
      | epollIn idx recv rx =>
        cases recv with
        | bytes data => exact pass_lowers ordered.2.1 delivered.1 stepped
        | error wouldBlock => exact settles.elim
      | idle now => exact settles.elim
      | send attempt => exact settles.elim
      | epollErr idx => exact settles.elim
      | epollHup idx => exact settles.elim
      | epollOther idx => exact settles.elim
      | txReport idx message => exact settles.elim
  | server server event => exact server_lowers (exchange_run run).2 ordered delivered stepped

theorem setWorker_self (agent : AgentState (Thread conns) threads) (thread : Fin threads) :
    setWorker agent thread (agent.workers thread) = agent := by
  rw [setWorker,Function.update_eq_self]

/-- The thread is where it was after a pass without calls that leaves its loop alone. -/
theorem setWorker_still {agent : AgentState (Thread conns) threads} {thread : Fin threads}
    (running : (agent.workers thread).running = true) (made : (agent.workers thread).calls = []) :
    setWorker agent thread ⟨(agent.workers thread).loop,[],true⟩ = agent := by
  have worker : (⟨(agent.workers thread).loop,[],true⟩ : Worker (Thread conns)) = agent.workers thread := by
    rw [← made,← running]
  rw [worker,setWorker_self]

theorem looks_keep : Machine.Keeps (closedLoop config qsort .throughput) Networked
    (connected owner generators stats aggStats now : System threads conns servers) Looks (workLeft owner) := by
  intro log before event after output _ networked stepped looks
  cases event with
  | server server event => exact looks.elim
  | agent event drawn =>
    obtain ⟨⟨agent,inner⟩,agentStepped,returned⟩ := Outcome.bind_next stepped
    cases returned
    cases event with
    | message message now reference => exact looks.elim
    | resume now => exact looks.elim
    | record thread draw => exact looks.elim
    | pass thread event =>
      cases event with
      | send attempt =>
        obtain ⟨running,made,-⟩ := networked.1
        cases stepped_cases agentStepped with
        | @passed _ _ state effect looped same =>
          have taken : sendPath (fun ring => (ring,[])) (before.agent.workers thread).loop attempt = .next (state,effect) := looped
          obtain ⟨rfl,rfl⟩ | ⟨idx,-,-,-,-,rfl⟩ := sendPath_cases taken
          · rw [same,setWorker_still running made]
            exact Nat.le_refl _
          · cases looks
        | returned same => exact looks.elim
      | epollIn idx recv rx => exact looks.elim
      | idle now => exact looks.elim
      | epollErr idx => exact looks.elim
      | epollHup idx => exact looks.elim
      | epollOther idx => exact looks.elim
      | txReport idx message => exact looks.elim

end Lowers

section Ready

/-- The calls of the throughput loop. -/
def Plain : StatsCall → Prop
  | .throughputTx _ | .throughputRx _ => True
  | .txTimestamp _ | .latency _ _ => False

/-- Requests are open only while the agent loads, so that its threads look at their sockets, and
nothing they record can fail. -/
structure Ready (agent : AgentState (Thread conns) threads) : Prop where
  loading : ∀ thread idx, ((agent.workers thread).loop.connections idx).pendingReqs ≠ 0 → agent.manager.shouldLoad = true
  plain : ∀ thread, ∀ call ∈ (agent.workers thread).calls, Plain call

theorem throughput_plain {proto : ApplicationProtocol} {before after : Thread conns} {event : TpTcp.Event conns}
    {effect : TpTcp.Effect conns} (stepped : (throughputTcpMain proto).step before event = .next (after,effect)) :
    ∀ call ∈ effect.calls, Plain call := by
  cases event with
  | send attempt =>
    have taken : sendPath (fun ring => (ring,[])) before attempt = .next (after,effect) := stepped
    obtain ⟨-,rfl⟩ | ⟨idx,-,-,-,-,rfl⟩ := sendPath_cases taken
    · exact fun _ member => absurd member List.not_mem_nil
    · intro call member
      rw [List.mem_singleton.mp member]
      trivial
  | epollIn idx recv rx =>
    obtain ⟨outcome,-,handled⟩ := Outcome.bind_next stepped
    cases outcome with
    | closed conn =>
      cases handled
      exact fun _ member => absurd member List.not_mem_nil
    | responses conn readRes =>
      cases handled
      intro call member
      rw [List.mem_singleton.mp member]
      trivial
  | idle now =>
    cases stepped
    exact fun _ member => absurd member List.not_mem_nil
  | txReport idx message =>
    cases stepped
    exact fun _ member => absurd member List.not_mem_nil
  | epollErr idx => cases stepped
  | epollHup idx => cases stepped
  | epollOther idx => cases stepped

theorem plain_applies {call : StatsCall} (plain : Plain call) (manager : ManagerState) (thread : Nat) (draw : Float) :
    ∃ after, work manager thread call draw = .next after := by
  rw [work]
  split
  next => exact ⟨manager,rfl⟩
  next stats _ =>
    cases call with
    | throughputTx txP => exact ⟨_,rfl⟩
    | throughputRx rxP => exact ⟨_,rfl⟩
    | txTimestamp txTs => exact plain.elim
    | latency diff tx => exact plain.elim

theorem work_loads {manager after : ManagerState} {thread : Nat} {call : StatsCall} {draw : Float}
    (worked : work manager thread call draw = .next after) : after.shouldLoad = manager.shouldLoad := by
  rw [work] at worked
  split at worked
  next =>
    cases worked
    rfl
  next =>
    obtain ⟨stats,-,returned⟩ := Outcome.bind_next worked
    cases returned
    rfl

theorem stopMeasure_loads (manager : ManagerState) (now : Int) : (stopMeasure manager now).shouldLoad = manager.shouldLoad := by
  rw [stopMeasure]
  split <;> rfl

/-- An agent that has begun to load loads for ever. -/
theorem message_loads {config : AgentConfig} {qsort : Qsort} {manager after : ManagerState} {message : Message} {now : Int}
    {reference : List UInt64} {reply : Option Reply} (loading : manager.shouldLoad = true)
    (managed : (managerRun config qsort).step manager (.message message now reference) = .next (after,reply)) :
    after.shouldLoad = true := by
  obtain ⟨⟨manager',reply'⟩,handled,returned⟩ := Outcome.bind_next managed
  cases returned
  cases message with
  | startLoad load =>
    obtain ⟨generators,-,rfl,-⟩ := startLoad_next handled
    rfl
  | startMeasure samples sampling =>
    obtain ⟨chosen,-,rfl,-⟩ := startMeasure_next handled
    exact loading
  | reportReq type =>
    rw [handle] at handled
    dsimp only at handled
    split at handled
    next =>
      obtain ⟨agg,iaComp,-,rfl,-⟩ := replyThroughputStats_next handled
      exact (stopMeasure_loads manager now).trans loading
    next =>
      split at handled
      next =>
        obtain ⟨agg,kept,checks,-,rfl,-⟩ := replyLatencyStats_next handled
        exact (stopMeasure_loads manager now).trans loading
      next => cases handled

theorem Ready.worker {agent : AgentState (Thread conns) threads} (ready : Ready agent) {thread : Fin threads}
    {worker : Worker (Thread conns)} {manager : ManagerState} (same : manager.shouldLoad = agent.manager.shouldLoad)
    (loading : ∀ idx, (worker.loop.connections idx).pendingReqs ≠ 0 → agent.manager.shouldLoad = true)
    (plain : ∀ call ∈ worker.calls, Plain call) : Ready {setWorker agent thread worker with manager := manager} := by
  constructor
  · intro other idx pending
    rw [same]
    by_cases here : other = thread
    · rw [here,setWorker_same] at pending
      exact loading idx pending
    · rw [setWorker_other _ _ here] at pending
      exact ready.loading other idx pending
  · intro other
    by_cases here : other = thread
    · rw [here,setWorker_same]
      exact plain
    · rw [setWorker_other _ _ here]
      exact ready.plain other

/-- A pass of an agent that does not load leaves its connections alone. -/
theorem loads_or_still {proto : ApplicationProtocol} {shouldLoad : Bool} {before after : Thread conns} {event : TpTcp.Event conns}
    {effect : TpTcp.Effect conns} (loads : Loads shouldLoad event)
    (stepped : (throughputTcpMain proto).step before event = .next (after,effect)) :
    shouldLoad = true ∨ after.connections = before.connections := by
  cases event with
  | idle now =>
    cases stepped
    exact .inr rfl
  | txReport idx message =>
    cases stepped
    exact .inr rfl
  | send attempt => exact .inl loads
  | epollIn idx recv rx => exact .inl loads
  | epollErr idx => exact .inl loads
  | epollHup idx => exact .inl loads
  | epollOther idx => exact .inl loads

theorem Ready.step {config : AgentConfig} {qsort : Qsort} {proto : ApplicationProtocol} {before after : AgentState (Thread conns) threads}
    {event : AgentEvent (TpTcp.Event conns) threads} {output : AgentOutput (TpTcp.Effect conns)} (ready : Ready before)
    (scheduled : Scheduled Loads before event)
    (stepped : (tcpAgent config qsort .throughput proto).step before event = .next (after,output)) : Ready after := by
  have ⟨loading,plain⟩ := ready
  cases stepped_cases stepped with
  | message managed workers =>
    rw [← workers] at loading plain
    exact ⟨fun thread idx pending => message_loads (loading thread idx pending) managed,plain⟩
  | resume managed workers =>
    rw [← workers] at loading plain
    have kept : after.manager.shouldLoad = before.manager.shouldLoad := by
      rw [(Prod.mk.inj (Outcome.next.inj managed)).1.symm]
    rw [← kept] at loading
    exact ⟨loading,plain⟩
  | @passed thread event state effect looped same =>
    rw [same]
    refine ready.worker rfl (fun idx pending => ?_) (throughput_plain looped)
    rcases loads_or_still scheduled.2.2 looped with loads | still
    · exact loads
    · rw [still] at pending
      exact loading thread idx pending
  | @returned thread event same =>
    rw [same]
    exact ready.worker rfl (loading thread) (plain thread)
  | idle empty same =>
    rw [same]
    exact ⟨loading,plain⟩
  | @recorded thread draw call rest manager queued worked same =>
    rw [same]
    refine ready.worker (work_loads worked) (loading thread) fun other member => plain thread other ?_
    rw [queued]
    exact List.mem_cons_of_mem _ member

end Ready

section Progress
variable {owner : Socket threads conns → Fin servers} {config : AgentConfig} {qsort : Qsort} {generators : Generators} {stats : List ThreadStats}
  {aggStats : LatencyStats} {now : Int} {log : SystemLog threads conns servers} {base system : System threads conns servers}

theorem ready_run (run : (closedLoop config qsort .throughput).Run Networked (connected owner generators stats aggStats now) log system) :
    Ready system.agent := by
  refine @Machine.Run.invariant _ _ _ _ _ _ (fun _ agent => Ready agent) ?_ ?_ _ _ (agent_run run)
  · exact ⟨fun _ _ pending => absurd rfl pending,fun _ _ member => absurd member List.not_mem_nil⟩
  · intro log before event after output ready hosted stepped
    exact ready.step hosted.1 stepped

theorem watched_run {main : TcpMain} (run : (closedLoop config qsort main).Run Networked (connected owner generators stats aggStats now) log system)
    (socket : Socket threads conns) : (system.servers (owner socket)).watched socket = true := by
  refine @Machine.Run.invariant _ _ _ _ _ _ (fun _ system => (system.servers (owner socket)).watched socket = true)
    (decide_eq_true rfl) ?_ _ _ run
  intro log before event after output watched networked stepped
  cases event with
  | agent event drawn =>
    obtain ⟨⟨agent,inner⟩,-,returned⟩ := Outcome.bind_next stepped
    cases returned
    dsimp only
    rw [exchange_servers]
    exact watched
  | server server event =>
    obtain ⟨⟨thread,inner⟩,serverStepped,returned⟩ := Outcome.bind_next stepped
    cases returned
    dsimp only
    have same : thread.watched = (before.servers server).watched := by
      cases served_cases serverStepped with
      | accepted same => exact networked.2.elim
      | closed same => exact networked.2.elim
      | idle empty same => rw [same]
      | read whole same => rw [same]
      | wrote spinning same => rw [same]
    by_cases here : owner socket = server
    · rw [here] at watched ⊢
      rw [Function.update_self,same]
      exact watched
    · rw [Function.update_of_ne here]
      exact watched

/-- The threads that run at first run on, and no clock reading to come makes a request of theirs due. -/
def RunOn (clock : Nat → Int) (base system : System threads conns servers) : Prop :=
  ∀ thread, (base.agent.workers thread).running = true → (system.agent.workers thread).running = true ∧
    ∀ reading, clock reading < (system.agent.workers thread).loop.nextTx

/-- The threads that ran at first have no open request left and have recorded everything. -/
def Settled (base system : System threads conns servers) : Prop :=
  ∀ thread, (base.agent.workers thread).running = true → (system.agent.workers thread).calls = [] ∧
    ∀ idx, ((system.agent.workers thread).loop.connections idx).pendingReqs = 0

variable {start : System threads conns servers} {clock : Nat → Int} {index : Nat}

/-- Steps that settle something and end no thread. -/
def Possible (config : AgentConfig) (qsort : Qsort) (start : System threads conns servers) (clock : Nat → Int) (index : Nat)
    (base : System threads conns servers) (log : SystemLog threads conns servers) : Prop :=
  ∃ piece after, (closedLoop config qsort .throughput).Run Networked start (log ++ piece) after ∧
    Unhurried (clock index) piece ∧ RunOn clock base after

theorem agent_next {event : AgentEvent (TpTcp.Event conns) threads} {agent : AgentState (Thread conns) threads}
    {output : AgentOutput (TpTcp.Effect conns)} (drawn : Int64)
    (stepped : (tcpAgent config qsort .throughput .synthetic).step system.agent event = .next (agent,output)) :
    (closedLoop config qsort .throughput).step system (.agent event drawn) =
      .next ({exchange system event output drawn with agent := agent},.agent output) := by
  rw [closedLoop]
  dsimp only
  rw [stepped]
  rfl

theorem pass_next {agent : AgentState (Thread conns) threads} {thread : Fin threads} {event : TpTcp.Event conns} {state : Thread conns}
    {effect : TpTcp.Effect conns} (looped : (throughputTcpMain .synthetic).step (agent.workers thread).loop event = .next (state,effect)) :
    (tcpAgent config qsort .throughput .synthetic).step agent (.pass thread event) =
      .next (setWorker agent thread ⟨state,effect.calls,true⟩,.passed effect) := by
  change pass (throughputTcpMain .synthetic) TpTcp.Effect.calls agent thread event = _
  rw [AgentSystem.pass,looped]

theorem server_next {server : Fin servers} {event : ServerEvent (Socket threads conns)} {thread : ServerThread (Socket threads conns)}
    {output : ServerOutput (Socket threads conns)} (stepped : tcpThreadMain.step (system.servers server) event = .next (thread,output)) :
    (closedLoop config qsort .throughput).step system (.server server event) =
      .next ({answer system event output with servers := Function.update system.servers server thread},.server output) := by
  rw [closedLoop]
  dsimp only
  rw [stepped]
  rfl

theorem RunOn.worker (runOn : RunOn clock base system) (thread : Fin threads) (worker : Worker (Thread conns))
    (running : (system.agent.workers thread).running = true → worker.running = true)
    (due : worker.loop.nextTx = (system.agent.workers thread).loop.nextTx) {after : System threads conns servers}
    (same : after.agent.workers = (setWorker system.agent thread worker).workers) : RunOn clock base after := by
  intro other ran
  rw [same]
  by_cases here : other = thread
  · obtain ⟨runs,early⟩ := runOn thread (here ▸ ran)
    rw [here,setWorker_same,due]
    exact ⟨running runs,early⟩
  · rw [setWorker_other _ _ here]
    exact runOn other ran

theorem record_possible (run : (closedLoop config qsort .throughput).Run Networked start log system) (ready : Ready system.agent)
    (runOn : RunOn clock base system) {thread : Fin threads} (waiting : (system.agent.workers thread).calls ≠ []) :
    Possible config qsort start clock index base log := by
  obtain ⟨call,rest,calls⟩ := List.exists_cons_of_ne_nil waiting
  have plain := ready.plain thread call (by rw [calls]; exact List.mem_cons_self)
  obtain ⟨manager,worked⟩ := plain_applies plain system.agent.manager thread 0
  have recorded : record system.agent thread 0 =
      .next ({setWorker system.agent thread {system.agent.workers thread with calls := rest} with manager := manager},
        (.recorded (some call) : AgentOutput (TpTcp.Effect conns))) := by
    rw [record,calls]
    dsimp only
    rw [worked]
    rfl
  have allowed : Networked log system (.agent (.record thread 0) 0) := ⟨waiting,trivial⟩
  have stepped : (tcpAgent config qsort .throughput .synthetic).step system.agent (.record thread 0) = .next (_,_) := recorded
  exact ⟨[(.agent (.record thread 0) 0,_)],_,run.snoc allowed (agent_next 0 stepped),trivial,
    runOn.worker thread {system.agent.workers thread with calls := rest} id rfl rfl⟩

theorem spun_possible (run : (closedLoop config qsort .throughput).Run Networked start log system) (runOn : RunOn clock base system)
    {server : Fin servers} {socket : Socket threads conns} (spinning : (system.servers server).spinning = some socket) :
    Possible config qsort start clock index base log := by
  have spun : tcpThreadMain.step (system.servers server) (.spun sizeofLong) =
      .next ({system.servers server with spinning := none},.replied socket (u64Bytes replyLong)) := by
    rw [tcpThreadMain]
    dsimp only
    rw [spinning]
    rfl
  have busy : Ordered system (.server server (.spun sizeofLong)) := by
    rw [Ordered,Epolled,spinning]
    exact fun absent => by cases absent
  have allowed : Networked log system (.server server (.spun sizeofLong)) := ⟨busy,trivial⟩
  exact ⟨[(.server server (.spun sizeofLong),_)],_,run.snoc allowed (server_next spun),trivial,runOn⟩

theorem read_possible (run : (closedLoop config qsort .throughput).Run Networked start log system) (runOn : RunOn clock base system)
    {server : Fin servers} {socket : Socket threads conns} {data : List UInt8} (free : (system.servers server).spinning = none)
    (watched : (system.servers server).watched socket = true) (long : data.length = sizeofLong)
    (arrived : data <+: system.toServer socket) : Possible config qsort start clock index base log := by
  have read : tcpThreadMain.step (system.servers server) (.readable socket data) =
      .next ({system.servers server with spinning := some socket},.toSpin socket (longOf data)) := by
    rw [tcpThreadMain]
    dsimp only
    rw [decide_eq_true long,Outcome.assert_true]
    rfl
  have filled : data ≠ [] := by
    rintro rfl
    cases long
  have allowed : Networked log system (.server server (.readable socket data)) :=
    ⟨⟨watched,free,Nat.le_of_eq long⟩,filled,arrived⟩
  exact ⟨[(.server server (.readable socket data),_)],_,run.snoc allowed (server_next read),trivial,runOn⟩

/-- A pass that looks at the clock and has nothing to send. -/
theorem look_still {thread : Fin threads} {attempt : SendAttempt conns} (drawn : Int64)
    (running : (system.agent.workers thread).running = true) (made : (system.agent.workers thread).calls = [])
    (early : attempt.now < (system.agent.workers thread).loop.nextTx) :
    (closedLoop config qsort .throughput).step system (.agent (.pass thread (.send attempt)) drawn) =
      .next (system,.agent (.passed {calls := []})) := by
  have looped : (throughputTcpMain .synthetic).step (system.agent.workers thread).loop (.send attempt) =
      .next ((system.agent.workers thread).loop,{calls := []}) := by
    change sendPath (fun ring => (ring,[])) _ attempt = _
    rw [sendPath,if_pos (by omega)]
    rfl
  rw [agent_next drawn (pass_next looped)]
  dsimp only [exchange]
  rw [setWorker_still running made]

theorem reply_possible (run : (closedLoop config qsort .throughput).Run Networked start log system) (ready : Ready system.agent)
    (runOn : RunOn clock base system) {thread : Fin threads} {idx : Fin conns} (ran : (base.agent.workers thread).running = true)
    (made : (system.agent.workers thread).calls = [])
    (pending : ((system.agent.workers thread).loop.connections idx).pendingReqs ≠ 0) (arrived : system.toAgent (thread,idx) ≠ [])
    (fits : ((system.agent.workers thread).loop.connections idx).bufferIdx.toNat + (system.toAgent (thread,idx)).length ≤ maxPayload)
    (whole : sizeofLong ≤ ((system.agent.workers thread).loop.connections idx).bufferIdx.toNat + (system.toAgent (thread,idx)).length) :
    Possible config qsort start clock index base log := by
  obtain ⟨running,early⟩ := runOn thread ran
  have loading := ready.loading thread idx pending
  let attempt : SendAttempt conns :=
    ⟨clock index,false,fun _ => idx,⟨0,0⟩,(createRequest .synthetic .fresh 0).1.length,.bytes 0,0⟩
  have allowed : Networked log system (.agent (.pass thread (.send attempt)) 0) := ⟨⟨running,made,loading⟩,rfl⟩
  have looked := run.snoc allowed (look_still 0 running made (early index))
  obtain ⟨conn,received,-,-⟩ := @Reassembly.receive_complete .synthetic _ _ arrived fits (by decide) whole
  have looped := Reassembly.throughput_reply ⟨0,0⟩ received
  have allowed' : Networked (log ++ [(.agent (.pass thread (.send attempt)) 0,.agent (.passed {calls := []}))]) system
      (.agent (.pass thread (.epollIn idx (.bytes (system.toAgent (thread,idx))) ⟨0,0⟩)) 0) :=
    ⟨⟨running,made,loading⟩,⟨arrived,List.prefix_rfl⟩,fits⟩
  have next := looked.snoc allowed' (agent_next 0 (pass_next looped))
  rw [List.append_assoc] at next
  refine ⟨_,_,next,⟨rfl,rfl,rfl⟩,runOn.worker thread _ ?_ ?_ rfl⟩
  · exact fun _ => rfl
  · rfl

/-- As long as a running thread has something open, something of it can be settled. -/
theorem settles_possible (run : (closedLoop config qsort .throughput).Run Networked (connected owner generators stats aggStats now) log system)
    (runOn : RunOn clock base system) (unsettled : ¬ Settled base system) :
    Possible config qsort (connected owner generators stats aggStats now) clock index base log := by
  have ready := ready_run run
  obtain ⟨thread,ran,left⟩ : ∃ thread, (base.agent.workers thread).running = true ∧ ¬ ((system.agent.workers thread).calls = [] ∧
      ∀ idx, ((system.agent.workers thread).loop.connections idx).pendingReqs = 0) := by
    by_contra lacking
    exact unsettled fun thread ran => by_contra fun left => lacking ⟨thread,ran,left⟩
  by_cases made : (system.agent.workers thread).calls = []
  · obtain ⟨idx,pending⟩ : ∃ idx, ((system.agent.workers thread).loop.connections idx).pendingReqs ≠ 0 := by
      by_contra lacking
      exact left ⟨made,fun idx => by_contra fun pending => lacking ⟨idx,pending⟩⟩
    have ledger := ledger_run run (thread,idx)
    obtain ⟨unread,-,stream,places⟩ := ((exchange_run run).1 (thread,idx)).places ledger
    rcases spinning : (system.servers (owner (thread,idx))).spinning with _ | socket
    · cases unread with
      | cons first later =>
        rw [List.flatMap_cons] at stream
        exact read_possible run runOn spinning (watched_run run (thread,idx)) (created_length first) ⟨_,stream.symm⟩
      | nil =>
        have idle : inService owner system (thread,idx) = 0 := by
          rw [inService,spinning]
          exact if_neg (Option.some_ne_none (thread,idx)).symm
        have positive : 0 < ((system.agent.workers thread).loop.connections idx).pendingReqs.toNat := by
          refine Nat.pos_of_ne_zero fun zero => pending ?_
          exact UInt16.toNat_inj.mp zero
        have gated := ledger.gated
        have unfinished := ledger.unfinished
        have size : ApplicationProtocol.synthetic.size = sizeofLong := rfl
        rw [size] at unfinished
        rw [idle,List.length_nil] at places
        dsimp only at places gated unfinished
        unfold sizeofLong at *
        unfold maxPendingReqs at gated
        refine reply_possible run ready runOn ran made pending ?_ ?_ ?_
        · rintro lacking
          rw [lacking,List.length_nil] at places
          omega
        · unfold maxPayload
          omega
        · unfold sizeofLong
          omega
    · exact spun_possible run runOn spinning
  · exact record_possible run ready runOn made

theorem settles_quiet {socket : Socket threads conns} {more : SystemLog threads conns servers}
    (kinds : ∀ entry ∈ more, Settles entry.1 ∨ Looks entry) : drawnLongs socket (log ++ more) = drawnLongs socket log := by
  have quiet : more.filterMap (drawnFor socket) = [] := by
    refine List.filterMap_eq_nil_iff.mpr ?_
    rintro ⟨event,output⟩ member
    rw [drawnFor.eq_def]
    split
    next same =>
      cases same
      rw [(kinds _ member).resolve_left id]
    next => rfl
  rw [drawnLongs,List.filterMap_append,quiet,List.append_nil,drawnLongs]

end Progress

/-- In every run the work that is begun can be finished without another request. Whatever steps of
reading, answering, receiving and recording come, there are so many at most; and as long as the clock
shows that no request is due, some such steps lead to a state in which each thread that still runs has
recorded all it did, the server has spun for every number it was sent and every request is answered. -/
theorem requests_settle (owner : Socket threads conns → Fin servers) (config : AgentConfig) (qsort : Qsort)
    (generators : Generators) (stats : List ThreadStats) (aggStats : LatencyStats) (now : Int) (log : SystemLog threads conns servers)
    (system : System threads conns servers)
    (run : (closedLoop config qsort .throughput).Run Networked (connected owner generators stats aggStats now) log system) :
    (∀ more final, (closedLoop config qsort .throughput).Run Networked (connected owner generators stats aggStats now) (log ++ more) final →
      (∀ entry ∈ more, Settles entry.1 ∨ Looks entry) → more.countP (fun entry => Settles entry.1) ≤ workLeft owner system) ∧
    ∀ clock, RunOn clock system system → ∃ (passes : List (SystemLog threads conns servers)) (final : System threads conns servers),
      (closedLoop config qsort .throughput).Run Networked (connected owner generators stats aggStats now) (log ++ passes.flatten) final ∧
      (∀ index pass, passes[index]? = some pass → Unhurried (clock index) pass) ∧
      ∀ thread, (system.agent.workers thread).running = true → (final.agent.workers thread).calls = [] ∧ ∀ idx,
        spunLongs (thread,idx) (log ++ passes.flatten) = drawnLongs (thread,idx) log ∧
        answered idx (loopLog thread (log ++ passes.flatten)) = (drawnLongs (thread,idx) log).length := by
  constructor
  · intro more final longer settles
    have bounded := run.bounded settles_lowers looks_keep longer settles
    omega
  · intro clock runOn
    have progress : ∀ index log state,
        (closedLoop config qsort .throughput).Run Networked (connected owner generators stats aggStats now) log state →
          RunOn clock system state → ¬Settled system state → ∃ piece after,
            (closedLoop config qsort .throughput).Run Networked (connected owner generators stats aggStats now) (log ++ piece) after ∧
              Unhurried (clock index) piece ∧ workLeft owner after < workLeft owner state ∧ RunOn clock system after := by
      intro index log state run runOn unsettled
      obtain ⟨piece,after,longer,unhurried,runOn'⟩ := settles_possible run runOn unsettled
      have lower := run.bounded settles_lowers looks_keep longer unhurried.kinds.1
      have settling := unhurried.kinds.2
      exact ⟨piece,after,longer,unhurried,by omega,runOn'⟩
    obtain ⟨passes,final,longer,unhurried,-,settled⟩ := run.drain progress runOn
    refine ⟨passes,final,longer,unhurried,fun thread ran => ⟨(settled thread ran).1,fun idx => ?_⟩⟩
    have kinds : ∀ entry ∈ passes.flatten, Settles entry.1 ∨ Looks entry := by
      intro entry member
      obtain ⟨pass,listed,inside⟩ := List.mem_flatten.mp member
      obtain ⟨index,present⟩ := List.mem_iff_getElem?.mp listed
      exact (unhurried index pass present).kinds.1 entry inside
    have closed := (settled thread ran).2 idx
    have exchange := (exchange_run longer).1 (thread,idx)
    have ledger := ledger_run longer (thread,idx)
    obtain ⟨unread,order,-,places⟩ := exchange.places ledger
    have credit := exchange.credit ledger
    dsimp only at places credit
    rw [closed] at places credit
    rw [settles_quiet kinds] at order credit
    have empty : unread = [] := by
      refine List.length_eq_zero_iff.mp ?_
      unfold sizeofLong at places
      have zero : (0 : UInt16).toNat = 0 := rfl
      omega
    rw [empty,List.append_nil] at order
    exact ⟨order.symm,credit⟩

theorem requests_settle_once : ∃ (log : SystemLog 1 1 1) (system : System 1 1 1),
    (closedLoop MeasureWindow.exampleConfig Qsort.insertion .throughput).Run Networked oneWorker log system ∧
      spunLongs onlySocket log = [7] ∧ ∃ more final,
        (closedLoop MeasureWindow.exampleConfig Qsort.insertion .throughput).Run Networked oneWorker (log ++ more) final ∧
          spunLongs onlySocket (log ++ more) = [7,9] := by
  obtain ⟨log,system,run,checked⟩ := @Machine.run_of_follow _ _ _ (closedLoop MeasureWindow.exampleConfig Qsort.insertion .throughput)
    Networked oneWorker (fun log system event => decide (Networked log system event)) (fun _ _ _ => of_decide_eq_true)
    answeredOnce (fun ended => spunLongs onlySocket ended.1 == [7] && drawnLongs onlySocket ended.1 == [7,9] &&
      (ended.2.agent.workers only).running && decide (15 < (ended.2.agent.workers only).loop.nextTx)) (by decide +kernel)
  simp only [Bool.and_eq_true,beq_iff_eq,decide_eq_true_eq] at checked
  obtain ⟨⟨⟨spun,drawn⟩,running⟩,early⟩ := checked
  -- the next request is due at 20
  have runOn : RunOn (fun _ => 15) system system := by
    intro thread ran
    obtain rfl : thread = only := Subsingleton.elim thread only
    exact ⟨ran,fun _ => early⟩
  obtain ⟨-,settles⟩ := requests_settle _ _ _ _ _ _ _ log system run
  obtain ⟨passes,final,longer,-,settled⟩ := settles _ runOn
  exact ⟨log,system,run,spun,passes.flatten,final,longer,((settled only running).2 only).1.trans drawn⟩

end Lancet.Settling
