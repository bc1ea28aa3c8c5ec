import Lancet.WindowBalance
import Lancet.CreateRequest
import Lancet.SyntheticServer

/-! An agent against the synthetic server. The requests and the replies are bytes on their way
between the two, in either direction of each connection, and every thread of both sides takes
its steps in any order. -/
namespace Lancet.ClosedLoop
open Foundation Wire Agent Timestamping Stats AppProto Manager TpTcp TcpHistory TcpSteps CreditBound AgentSystem WindowBalance
open CreateRequest SyntheticServer

/-- A connection, by its worker thread. -/
abbrev Socket (threads conns : Nat) := Fin threads × Fin conns

structure System (threads conns servers : Nat) where
  agent : AgentState (Thread conns) threads
  servers : Fin servers → ServerThread (Socket threads conns)
  toServer : Socket threads conns → List UInt8
  toAgent : Socket threads conns → List UInt8

inductive SystemEvent (threads conns servers : Nat) where
  -- the number is drawn if the step makes a request
  | agent (event : AgentEvent (TpTcp.Event conns) threads) (drawn : Int64)
  | server (server : Fin servers) (event : ServerEvent (Socket threads conns))

inductive SystemOutput (threads conns : Nat) where
  | agent (output : AgentOutput (Effect conns))
  | server (output : ServerOutput (Socket threads conns))

variable {threads conns servers : Nat}

def push (stream : Socket threads conns → List UInt8) (socket : Socket threads conns) (bytes : List UInt8) :
    Socket threads conns → List UInt8 :=
  Function.update stream socket (stream socket ++ bytes)

def pull (stream : Socket threads conns → List UInt8) (socket : Socket threads conns) (count : Nat) :
    Socket threads conns → List UInt8 :=
  Function.update stream socket ((stream socket).drop count)

/-- What the agent's step does to the bytes under way. -/
def exchange (system : System threads conns servers) (event : AgentEvent (TpTcp.Event conns) threads)
    (output : AgentOutput (Effect conns)) (drawn : Int64) : System threads conns servers :=
  match event, output with
  | .pass thread (.send _), .passed effect =>
    match effect.sent with
    | some idx => {system with toServer := push system.toServer (thread,idx) (createRequest .synthetic .fresh drawn).1}
    | none => system
  | .pass thread (.epollIn idx (.bytes data) _), .passed _ =>
    {system with toAgent := pull system.toAgent (thread,idx) data.length}
  | _, _ => system

def answer (system : System threads conns servers) (event : ServerEvent (Socket threads conns))
    (output : ServerOutput (Socket threads conns)) : System threads conns servers :=
  match event, output with
  | .readable socket data, .toSpin _ _ => {system with toServer := pull system.toServer socket data.length}
  | .spun _, .replied socket bytes => {system with toAgent := push system.toAgent socket bytes}
  | _, _ => system

def closedLoop (config : AgentConfig) (qsort : Qsort) (main : TcpMain) :
    Machine (System threads conns servers) (SystemEvent threads conns servers) (SystemOutput threads conns) where
  step system
    | .agent event drawn => do
      let (agent,output) ← (tcpAgent config qsort main .synthetic).step system.agent event
      return ({exchange system event output drawn with agent := agent},.agent output)
    | .server server event => do
      let (thread,output) ← tcpThreadMain.step (system.servers server) event
      return ({answer system event output with servers := Function.update system.servers server thread},.server output)

/-- Every connection is accepted by one of the server's threads. -/
def connected (owner : Socket threads conns → Fin servers) (generators : Generators) (stats : List ThreadStats)
    (aggStats : LatencyStats) (now : Int) :
    System threads conns servers where
  agent := started generators stats aggStats (throughputOpenConnections conns now)
  servers server := ⟨fun socket => decide (owner socket = server),none⟩
  toServer _ := []
  toAgent _ := []

/-- A receive gets what has come so far, all of it or less. -/
def Arrives (stream data : List UInt8) : Prop := data ≠ [] ∧ data <+: stream

/-- The network delivers in order, in pieces of any size, and closes nothing. -/
def Delivered (system : System threads conns servers) : SystemEvent threads conns servers → Prop
  | .agent (.pass _ (.send attempt)) drawn => attempt.bytesToSend = (createRequest .synthetic .fresh drawn).1.length
  | .agent (.pass thread (.epollIn idx (.bytes data) _)) _ => Arrives (system.toAgent (thread,idx)) data ∧
      (((system.agent.workers thread).loop.connections idx).bufferIdx.toNat + data.length ≤ maxPayload)
  | .agent (.pass _ (.epollIn _ (.error wouldBlock) _)) _ => wouldBlock = false
  | .agent _ _ => True
  | .server _ (.readable socket data) => Arrives (system.toServer socket) data
  | .server _ (.spun _) => True
  | .server _ (.accept _) | .server _ (.hangup _) => False

def Ordered (system : System threads conns servers) : SystemEvent threads conns servers → Prop
  | .agent event _ => Scheduled Loads system.agent event
  | .server server event => Epolled (system.servers server) event

def Networked : Machine.Environment (System threads conns servers) (SystemEvent threads conns servers) (SystemOutput threads conns) :=
  fun _ system event => Ordered system event ∧ Delivered system event

abbrev SystemLog (threads conns servers : Nat) := List (SystemEvent threads conns servers × SystemOutput threads conns)

def ofAgent : SystemEvent threads conns servers × SystemOutput threads conns →
    Option (AgentEvent (TpTcp.Event conns) threads × AgentOutput (Effect conns))
  | (.agent event _,.agent output) => some (event,output)
  | _ => none

def agentLog (log : SystemLog threads conns servers) : WindowBalance.Log conns threads := log.filterMap ofAgent

/-- The log of a worker's loop in a run of the system. -/
def loopLog (thread : Fin threads) (log : SystemLog threads conns servers) : List (TpTcp.Event conns × Effect conns) :=
  workerLog thread (agentLog log)

def drawnFor (socket : Socket threads conns) :
    SystemEvent threads conns servers × SystemOutput threads conns → Option Int64
  | (.agent (.pass thread (.send _)) drawn,.agent (.passed effect)) =>
    match effect.sent with
    | some idx => if (thread,idx) = socket then some drawn else none
    | none => none
  | _ => none

/-- The numbers in the requests sent on a connection. -/
def drawnLongs (socket : Socket threads conns) (log : SystemLog threads conns servers) : List Int64 :=
  log.filterMap (drawnFor socket)

def spunFor (socket : Socket threads conns) : SystemEvent threads conns servers × SystemOutput threads conns → Option Int64
  | (_,.server (.toSpin other usecs)) => if other = socket then some usecs else none
  | _ => none

/-- The numbers the server has read on a connection. -/
def spunLongs (socket : Socket threads conns) (log : SystemLog threads conns servers) : List Int64 :=
  log.filterMap (spunFor socket)

def repliedFor (socket : Socket threads conns) :
    SystemEvent threads conns servers × SystemOutput threads conns → Option (List UInt8)
  | (_,.server (.replied other bytes)) => if other = socket then some bytes else none
  | _ => none

/-- The replies the server has written on a connection. -/
def writtenReplies (socket : Socket threads conns) (log : SystemLog threads conns servers) : List (List UInt8) :=
  log.filterMap (repliedFor socket)

def loopOf (thread : Fin threads) (entry : SystemEvent threads conns servers × SystemOutput threads conns) :
    Option (TpTcp.Event conns × Effect conns) :=
  (ofAgent entry).bind (passOf thread)

theorem loopLog_snoc (thread : Fin threads) (log : SystemLog threads conns servers)
    (entry : SystemEvent threads conns servers × SystemOutput threads conns) :
    loopLog thread (log ++ [entry]) = loopLog thread log ++ (loopOf thread entry).toList := by
  have composed : ∀ log : SystemLog threads conns servers, loopLog thread log = log.filterMap (loopOf thread) :=
    fun log => List.filterMap_filterMap
  rw [composed,composed,Machine.filterMap_snoc]

def inService (owner : Socket threads conns → Fin servers) (system : System threads conns servers)
    (socket : Socket threads conns) : Nat :=
  if (system.servers (owner socket)).spinning = some socket then 1 else 0

/-- What has been sent on a connection, and where it is. -/
structure Exchange (owner : Socket threads conns → Fin servers) (log : SystemLog threads conns servers)
    (system : System threads conns servers) (socket : Socket threads conns) : Prop where
  asked : (requests socket.2 (loopLog socket.1 log)).length = (drawnLongs socket log).length
  unread : ∃ unread, drawnLongs socket log = spunLongs socket log ++ unread ∧
    system.toServer socket = unread.flatMap (fun drawn => (createRequest .synthetic .fresh drawn).1)
  served : (spunLongs socket log).length = (writtenReplies socket log).length + inService owner system socket
  got : ∃ got, (writtenReplies socket log).flatten = got ++ system.toAgent socket ∧
    got.length = received socket.2 (loopLog socket.1 log)
  whole : ∀ reply ∈ writtenReplies socket log, reply = u64Bytes replyLong

structure Owned (owner : Socket threads conns → Fin servers) (system : System threads conns servers) : Prop where
  watched : ∀ server socket, (system.servers server).watched socket = true → owner socket = server
  spinning : ∀ server socket, (system.servers server).spinning = some socket → owner socket = server

/-- An entry about other connections. -/
structure Apart (socket : Socket threads conns) (entry : SystemEvent threads conns servers × SystemOutput threads conns) :
    Prop where
  drawn : drawnFor socket entry = none
  spun : spunFor socket entry = none
  replied : repliedFor socket entry = none
  request : ∀ inner, loopOf socket.1 entry = some inner → requestOf socket.2 inner = none
  received : ∀ inner, loopOf socket.1 entry = some inner → receivedBy socket.2 inner = 0

section Frame
variable {owner : Socket threads conns → Fin servers} {log : SystemLog threads conns servers}
  {system after : System threads conns servers} {socket : Socket threads conns}
  {entry : SystemEvent threads conns servers × SystemOutput threads conns}

theorem requests_loop (idx : Fin conns) (thread : Fin threads) : requests idx (loopLog thread (log ++ [entry])) =
    requests idx (loopLog thread log) ++ ((loopOf thread entry).bind (requestOf idx)).toList := by
  rw [loopLog_snoc]
  rcases loopOf thread entry with _ | ⟨event,effect⟩
  · rw [Option.toList_none,List.append_nil,Option.bind_none,Option.toList_none,List.append_nil]
  · exact requests_snoc idx _ event effect

theorem received_loop (idx : Fin conns) (thread : Fin threads) : received idx (loopLog thread (log ++ [entry])) =
    received idx (loopLog thread log) + ((loopOf thread entry).map (receivedBy idx)).getD 0 := by
  rw [loopLog_snoc]
  rcases loopOf thread entry with _ | ⟨event,effect⟩
  · rw [Option.toList_none,List.append_nil]
    rfl
  · exact received_snoc idx _ event effect

theorem drawnLongs_other (absent : drawnFor socket entry = none) : drawnLongs socket (log ++ [entry]) = drawnLongs socket log := by
  rw [drawnLongs,Machine.filterMap_snoc,absent,Option.toList_none,List.append_nil,drawnLongs]

theorem spunLongs_other (absent : spunFor socket entry = none) : spunLongs socket (log ++ [entry]) = spunLongs socket log := by
  rw [spunLongs,Machine.filterMap_snoc,absent,Option.toList_none,List.append_nil,spunLongs]

theorem writtenReplies_other (absent : repliedFor socket entry = none) :
    writtenReplies socket (log ++ [entry]) = writtenReplies socket log := by
  rw [writtenReplies,Machine.filterMap_snoc,absent,Option.toList_none,List.append_nil,writtenReplies]

theorem Exchange.frame (exchange : Exchange owner log system socket) (apart : Apart socket entry)
    (toServer : after.toServer socket = system.toServer socket) (toAgent : after.toAgent socket = system.toAgent socket)
    (service : inService owner after socket = inService owner system socket) :
    Exchange owner (log ++ [entry]) after socket := by
  obtain ⟨asked,unread,served,got,whole⟩ := exchange
  obtain ⟨drawn,spun,replied,request,receiving⟩ := apart
  have noRequest : (loopOf socket.1 entry).bind (requestOf socket.2) = none := by
    rcases shown : loopOf socket.1 entry with _ | inner
    · rfl
    · exact request inner shown
  have nothing : ((loopOf socket.1 entry).map (receivedBy socket.2)).getD 0 = 0 := by
    rcases shown : loopOf socket.1 entry with _ | inner
    · rfl
    · exact receiving inner shown
  have sameDrawn := @drawnLongs_other _ _ _ log socket entry drawn
  have sameSpun := @spunLongs_other _ _ _ log socket entry spun
  have sameReplies := @writtenReplies_other _ _ _ log socket entry replied
  constructor
  · rw [requests_loop,noRequest,Option.toList_none,List.append_nil,sameDrawn]
    exact asked
  · rw [sameDrawn,sameSpun,toServer]
    exact unread
  · rw [sameSpun,sameReplies,service]
    exact served
  · rw [sameReplies,toAgent,received_loop,nothing]
    exact got
  · rw [sameReplies]
    exact whole

/-- A pass that sends on another connection, or not at all. -/
theorem apart_send {thread : Fin threads} {attempt : SendAttempt conns} {effect : Effect conns} {drawn : Int64}
    (elsewhere : ∀ idx, effect.sent = some idx → (thread,idx) ≠ socket) :
    Apart socket ((.agent (.pass thread (.send attempt)) drawn,.agent (.passed effect)) :
      SystemEvent threads conns servers × SystemOutput threads conns) := by
  have shown : ∀ inner, loopOf socket.1 ((.agent (.pass thread (.send attempt)) drawn,.agent (.passed effect)) :
      SystemEvent threads conns servers × SystemOutput threads conns) = some inner →
        thread = socket.1 ∧ inner = (.send attempt,effect) := by
    intro inner shown
    rw [loopOf,ofAgent,Option.bind_some,passOf] at shown
    split at shown
    next here => exact ⟨here,(Option.some.inj shown).symm⟩
    next => cases shown
  refine ⟨?_,rfl,rfl,fun inner here => ?_,fun inner here => ?_⟩
  · rw [drawnFor]
    split
    next idx sent => exact if_neg (elsewhere idx sent)
    next => rfl
  · obtain ⟨same,rfl⟩ := shown inner here
    rw [requestOf,if_neg]
    intro sent
    exact elsewhere socket.2 sent (by rw [same])
  · obtain ⟨-,rfl⟩ := shown inner here
    rfl

/-- A pass that neither sends nor receives on the connection. -/
theorem apart_pass {thread : Fin threads} {event : TpTcp.Event conns} {effect : Effect conns} {drawn : Int64}
    (silent : ∀ attempt, event ≠ .send attempt) (nothing : thread = socket.1 → receivedBy socket.2 (event,effect) = 0) :
    Apart socket ((.agent (.pass thread event) drawn,.agent (.passed effect)) :
      SystemEvent threads conns servers × SystemOutput threads conns) := by
  have shown : ∀ inner, loopOf socket.1 ((.agent (.pass thread event) drawn,.agent (.passed effect)) :
      SystemEvent threads conns servers × SystemOutput threads conns) = some inner →
        thread = socket.1 ∧ inner = (event,effect) := by
    intro inner shown
    rw [loopOf,ofAgent,Option.bind_some,passOf] at shown
    split at shown
    next here => exact ⟨here,(Option.some.inj shown).symm⟩
    next => cases shown
  refine ⟨?_,rfl,rfl,fun inner here => ?_,fun inner here => ?_⟩
  · cases event with
    | send attempt => exact absurd rfl (silent attempt)
    | idle now => rfl
    | epollIn idx recv rx => rfl
    | epollErr idx => rfl
    | epollHup idx => rfl
    | epollOther idx => rfl
    | txReport idx message => rfl
  · obtain ⟨-,rfl⟩ := shown inner here
    cases event with
    | send attempt => exact absurd rfl (silent attempt)
    | idle now => rfl
    | epollIn idx recv rx => rfl
    | epollErr idx => rfl
    | epollHup idx => rfl
    | epollOther idx => rfl
    | txReport idx message => rfl
  · obtain ⟨same,rfl⟩ := shown inner here
    exact nothing same

theorem Exchange.sent {thread : Fin threads} {idx : Fin conns} {attempt : SendAttempt conns} {effect : Effect conns} {drawn : Int64}
    (exchange : Exchange owner log system (thread,idx)) (sent : effect.sent = some idx)
    (toServer : after.toServer (thread,idx) = system.toServer (thread,idx) ++ (createRequest .synthetic .fresh drawn).1)
    (toAgent : after.toAgent (thread,idx) = system.toAgent (thread,idx))
    (service : inService owner after (thread,idx) = inService owner system (thread,idx)) :
    Exchange owner (log ++ [(.agent (.pass thread (.send attempt)) drawn,.agent (.passed effect))]) after (thread,idx) := by
  obtain ⟨asked,⟨unread,order,bytes⟩,served,got,whole⟩ := exchange
  have shown : loopOf thread ((.agent (.pass thread (.send attempt)) drawn,.agent (.passed effect)) :
      SystemEvent threads conns servers × SystemOutput threads conns) = some (.send attempt,effect) := by
    rw [loopOf,ofAgent,Option.bind_some,passOf,if_pos rfl]
  have request : requestOf idx (.send attempt,effect) = some attempt := if_pos sent
  have number : drawnFor (thread,idx) ((.agent (.pass thread (.send attempt)) drawn,.agent (.passed effect)) :
      SystemEvent threads conns servers × SystemOutput threads conns) = some drawn := by
    rw [drawnFor,sent]
    exact if_pos rfl
  have more : drawnLongs (thread,idx) (log ++ [(.agent (.pass thread (.send attempt)) drawn,.agent (.passed effect))]) =
      drawnLongs (thread,idx) log ++ [drawn] := by
    rw [drawnLongs,Machine.filterMap_snoc,number]
    rfl
  have sameSpun : spunLongs (thread,idx) (log ++ [(.agent (.pass thread (.send attempt)) drawn,.agent (.passed effect))]) =
      spunLongs (thread,idx) log :=
    spunLongs_other rfl
  have sameReplies : writtenReplies (thread,idx) (log ++ [(.agent (.pass thread (.send attempt)) drawn,.agent (.passed effect))]) =
      writtenReplies (thread,idx) log :=
    writtenReplies_other rfl
  constructor
  · rw [requests_loop,shown,Option.bind_some,request,more,List.length_append,List.length_append,asked]
    rfl
  · refine ⟨unread ++ [drawn],?_,?_⟩
    · rw [more,sameSpun,order,List.append_assoc]
    · rw [toServer,bytes,List.flatMap_append,List.flatMap_singleton]
  · rw [sameSpun,sameReplies,service]
    exact served
  · rw [sameReplies,toAgent,received_loop,shown]
    exact got
  · rw [sameReplies]
    exact whole

theorem Exchange.arrived {thread : Fin threads} {idx : Fin conns} {data : List UInt8} {rx : Timestamping.Timespec}
    {effect : Effect conns} {drawn : Int64} (exchange : Exchange owner log system (thread,idx))
    (arrived : data <+: system.toAgent (thread,idx)) (toServer : after.toServer (thread,idx) = system.toServer (thread,idx))
    (toAgent : after.toAgent (thread,idx) = (system.toAgent (thread,idx)).drop data.length)
    (service : inService owner after (thread,idx) = inService owner system (thread,idx)) :
    Exchange owner (log ++ [(.agent (.pass thread (.epollIn idx (.bytes data) rx)) drawn,.agent (.passed effect))]) after
      (thread,idx) := by
  obtain ⟨asked,unread,served,⟨got,bytes,count⟩,whole⟩ := exchange
  obtain ⟨rest,stream⟩ := arrived
  have shown : loopOf thread ((.agent (.pass thread (.epollIn idx (.bytes data) rx)) drawn,.agent (.passed effect)) :
      SystemEvent threads conns servers × SystemOutput threads conns) = some (.epollIn idx (.bytes data) rx,effect) := by
    rw [loopOf,ofAgent,Option.bind_some,passOf,if_pos rfl]
  have arrives : receivedBy idx (.epollIn idx (.bytes data) rx,effect) = data.length := if_pos rfl
  have sameDrawn : drawnLongs (thread,idx) (log ++ [(.agent (.pass thread (.epollIn idx (.bytes data) rx)) drawn,
      .agent (.passed effect))]) = drawnLongs (thread,idx) log :=
    drawnLongs_other rfl
  have sameSpun : spunLongs (thread,idx) (log ++ [(.agent (.pass thread (.epollIn idx (.bytes data) rx)) drawn,
      .agent (.passed effect))]) = spunLongs (thread,idx) log :=
    spunLongs_other rfl
  have sameReplies : writtenReplies (thread,idx) (log ++ [(.agent (.pass thread (.epollIn idx (.bytes data) rx)) drawn,
      .agent (.passed effect))]) = writtenReplies (thread,idx) log :=
    writtenReplies_other rfl
  constructor
  · rw [requests_loop,shown,sameDrawn,← asked]
    exact congrArg List.length (List.append_nil _)
  · rw [sameDrawn,sameSpun,toServer]
    exact unread
  · rw [sameSpun,sameReplies,service]
    exact served
  · refine ⟨got ++ data,?_,?_⟩
    · rw [sameReplies,bytes,toAgent,← stream,List.drop_left,List.append_assoc]
    · rw [received_loop,shown,Option.map_some,Option.getD_some,arrives,List.length_append,count]
  · rw [sameReplies]
    exact whole

theorem created_length (drawn : Int64) : (createRequest .synthetic .fresh drawn).1.length = sizeofLong := u64Bytes_length _

/-- The server reads the number that was drawn. -/
theorem longOf_created (drawn : Int64) : longOf (createRequest .synthetic .fresh drawn).1 = drawn := by
  have created : (createRequest .synthetic .fresh drawn).1 = u64Bytes drawn.toUInt64 := rfl
  have small : drawn.toUInt64.toNat < 256^8 := drawn.toUInt64.toNat_lt
  rw [created,longOf,u64Bytes,decode_encode,Nat.mod_eq_of_lt small,UInt64.ofNat_toNat,Int64.toInt64_toUInt64]

theorem Exchange.read {server : Fin servers} {data : List UInt8} (exchange : Exchange owner log system socket)
    (arrived : data <+: system.toServer socket) (long : data.length = sizeofLong)
    (toServer : after.toServer socket = (system.toServer socket).drop data.length)
    (toAgent : after.toAgent socket = system.toAgent socket) (free : inService owner system socket = 0)
    (busy : inService owner after socket = 1) :
    Exchange owner (log ++ [(.server server (.readable socket data),.server (.toSpin socket (longOf data)))]) after socket := by
  obtain ⟨asked,⟨unread,order,bytes⟩,served,got,whole⟩ := exchange
  have number : spunFor socket ((.server server (.readable socket data),.server (.toSpin socket (longOf data))) :
      SystemEvent threads conns servers × SystemOutput threads conns) = some (longOf data) := if_pos rfl
  have sameDrawn : drawnLongs socket (log ++ [(.server server (.readable socket data),.server (.toSpin socket (longOf data)))]) =
      drawnLongs socket log :=
    drawnLongs_other rfl
  have more : spunLongs socket (log ++ [(.server server (.readable socket data),.server (.toSpin socket (longOf data)))]) =
      spunLongs socket log ++ [longOf data] := by
    rw [spunLongs,Machine.filterMap_snoc,number]
    rfl
  have sameReplies : writtenReplies socket (log ++ [(.server server (.readable socket data),.server (.toSpin socket (longOf data)))]) =
      writtenReplies socket log :=
    writtenReplies_other rfl
  obtain ⟨rest,stream⟩ := arrived
  rw [bytes] at stream
  cases unread with
  | nil =>
    rw [List.flatMap_nil] at stream
    rw [(List.append_eq_nil_iff.mp stream).1] at long
    cases long
  | cons first later =>
    rw [List.flatMap_cons] at stream
    obtain ⟨same,behind⟩ := List.append_inj stream (by rw [long,created_length])
    constructor
    · rw [requests_loop,sameDrawn,← asked]
      exact congrArg List.length (List.append_nil _)
    · refine ⟨later,?_,?_⟩
      · rw [sameDrawn,more,order,same,longOf_created,List.append_assoc]
        rfl
      · rw [toServer,bytes,List.flatMap_cons,← same,List.drop_left]
    · rw [more,sameReplies,busy,List.length_append,served,free]
      rfl
    · rw [sameReplies,toAgent,received_loop]
      exact got
    · rw [sameReplies]
      exact whole

theorem Exchange.wrote {server : Fin servers} {written : Int} (exchange : Exchange owner log system socket)
    (toServer : after.toServer socket = system.toServer socket)
    (toAgent : after.toAgent socket = system.toAgent socket ++ u64Bytes replyLong) (busy : inService owner system socket = 1)
    (free : inService owner after socket = 0) :
    Exchange owner (log ++ [(.server server (.spun written),.server (.replied socket (u64Bytes replyLong)))]) after socket := by
  obtain ⟨asked,unread,served,⟨got,bytes,count⟩,whole⟩ := exchange
  have reply : repliedFor socket ((.server server (.spun written),.server (.replied socket (u64Bytes replyLong))) :
      SystemEvent threads conns servers × SystemOutput threads conns) = some (u64Bytes replyLong) := if_pos rfl
  have sameDrawn : drawnLongs socket (log ++ [(.server server (.spun written),.server (.replied socket (u64Bytes replyLong)))]) =
      drawnLongs socket log :=
    drawnLongs_other rfl
  have sameSpun : spunLongs socket (log ++ [(.server server (.spun written),.server (.replied socket (u64Bytes replyLong)))]) =
      spunLongs socket log :=
    spunLongs_other rfl
  have more : writtenReplies socket (log ++ [(.server server (.spun written),.server (.replied socket (u64Bytes replyLong)))]) =
      writtenReplies socket log ++ [u64Bytes replyLong] := by
    rw [writtenReplies,Machine.filterMap_snoc,reply]
    rfl
  constructor
  · rw [requests_loop,sameDrawn,← asked]
    exact congrArg List.length (List.append_nil _)
  · rw [sameDrawn,sameSpun,toServer]
    exact unread
  · rw [sameSpun,more,free,List.length_append,served,busy]
    rfl
  · refine ⟨got,?_,?_⟩
    · rw [more,toAgent,List.flatten_append,bytes,List.append_assoc]
      simp
    · rw [received_loop]
      exact count
  · rw [more]
    intro other inside
    rcases List.mem_append.mp inside with earlier | last
    · exact whole other earlier
    · exact List.mem_singleton.mp last

/-- A step of the agent in which no loop takes part. -/
theorem apart_other {event : AgentEvent (TpTcp.Event conns) threads} {output : AgentOutput (Effect conns)} {drawn : Int64}
    (other : ∀ effect, output ≠ .passed effect) : Apart socket ((.agent event drawn,.agent output) :
      SystemEvent threads conns servers × SystemOutput threads conns) := by
  have silent : loopOf socket.1 ((.agent event drawn,.agent output) :
      SystemEvent threads conns servers × SystemOutput threads conns) = none := by
    cases output with
    | passed effect => exact absurd rfl (other effect)
    | replied reply => cases event <;> rfl
    | returned => cases event <;> rfl
    | recorded call => cases event <;> rfl
  refine ⟨?_,rfl,rfl,fun inner here => ?_,fun inner here => ?_⟩
  · cases output with
    | passed effect => exact absurd rfl (other effect)
    | replied reply =>
      cases event with
      | pass thread event => cases event <;> rfl
      | message message now reference => rfl
      | resume now => rfl
      | record thread draw => rfl
    | returned =>
      cases event with
      | pass thread event => cases event <;> rfl
      | message message now reference => rfl
      | resume now => rfl
      | record thread draw => rfl
    | recorded call =>
      cases event with
      | pass thread event => cases event <;> rfl
      | message message now reference => rfl
      | resume now => rfl
      | record thread draw => rfl
  · rw [silent] at here
    cases here
  · rw [silent] at here
    cases here

end Frame

section Steps
variable {owner : Socket threads conns → Fin servers} {log : SystemLog threads conns servers}
  {before after : System threads conns servers}

theorem exchange_servers (system : System threads conns servers) (event : AgentEvent (TpTcp.Event conns) threads)
    (output : AgentOutput (Effect conns)) (drawn : Int64) : (exchange system event output drawn).servers = system.servers := by
  unfold exchange
  split
  · split <;> rfl
  · rfl
  · rfl

theorem exchange_other (system : System threads conns servers) {event : AgentEvent (TpTcp.Event conns) threads}
    {output : AgentOutput (Effect conns)} (drawn : Int64) (other : ∀ effect, output ≠ .passed effect) :
    exchange system event output drawn = system := by
  unfold exchange
  split
  next effect => exact absurd rfl (other effect)
  next effect => exact absurd rfl (other effect)
  next => rfl

/-- A pass of a loop moves bytes of its own thread alone. -/
theorem passed_exchange {thread : Fin threads} {event : TpTcp.Event conns} {effect : Effect conns} {drawn : Int64}
    {agent : AgentState (Thread conns) threads} {socket : Socket threads conns} (exchanged : Exchange owner log before socket)
    (delivered : Delivered before (.agent (.pass thread event) drawn)) :
    Exchange owner (log ++ [(.agent (.pass thread event) drawn,.agent (.passed effect))])
      {exchange before (.pass thread event) (.passed effect) drawn with agent := agent} socket := by
  have service : ∀ socket, inService owner {exchange before (.pass thread event) (.passed effect) drawn with agent := agent} socket =
      inService owner before socket := by
    intro socket
    rw [inService,inService]
    dsimp only
    rw [exchange_servers]
  cases event with
  | send attempt =>
    rcases sent : effect.sent with _ | idx
    · have same : exchange before (.pass thread (.send attempt)) (.passed effect) drawn = before := by
        rw [exchange,sent]
      refine exchanged.frame (apart_send fun idx here => ?_) (by rw [same]) (by rw [same]) (service socket)
      rw [sent] at here
      cases here
    · have moved : exchange before (.pass thread (.send attempt)) (.passed effect) drawn =
          {before with toServer := push before.toServer (thread,idx) (createRequest .synthetic .fresh drawn).1} := by
        rw [exchange,sent]
      by_cases here : (thread,idx) = socket
      · subst here
        refine exchanged.sent sent ?_ (by rw [moved]) (service _)
        rw [moved]
        exact Function.update_self ..
      · refine exchanged.frame (apart_send fun other there => ?_) ?_ (by rw [moved]) (service socket)
        · rw [sent] at there
          cases there
          exact here
        · rw [moved]
          exact Function.update_of_ne (Ne.symm here) ..
  | epollIn idx recv rx =>
    cases recv with
    | error wouldBlock => exact exchanged.frame (apart_pass (fun _ equal => by cases equal) fun _ => rfl) rfl rfl (service socket)
    | bytes data =>
      by_cases here : (thread,idx) = socket
      · subst here
        exact exchanged.arrived delivered.1.2 rfl (Function.update_self ..) (service _)
      · refine exchanged.frame (apart_pass (fun _ equal => by cases equal) fun same => ?_) rfl (Function.update_of_ne (Ne.symm here) ..)
          (service socket)
        refine if_neg fun other => here ?_
        rw [same,other]
  | idle now => exact exchanged.frame (apart_pass (fun _ equal => by cases equal) fun _ => rfl) rfl rfl (service socket)
  | epollErr idx => exact exchanged.frame (apart_pass (fun _ equal => by cases equal) fun _ => rfl) rfl rfl (service socket)
  | epollHup idx => exact exchanged.frame (apart_pass (fun _ equal => by cases equal) fun _ => rfl) rfl rfl (service socket)
  | epollOther idx => exact exchanged.frame (apart_pass (fun _ equal => by cases equal) fun _ => rfl) rfl rfl (service socket)
  | txReport idx message => exact exchanged.frame (apart_pass (fun _ equal => by cases equal) fun _ => rfl) rfl rfl (service socket)

variable {config : AgentConfig} {qsort : Qsort} {main : TcpMain}

theorem agent_step {event : AgentEvent (TpTcp.Event conns) threads} {drawn : Int64} {output : SystemOutput threads conns}
    (exchanged : ∀ socket, Exchange owner log before socket) (owned : Owned owner before)
    (delivered : Delivered before (.agent event drawn))
    (stepped : (closedLoop config qsort main).step before (.agent event drawn) = .next (after,output)) :
    (∀ socket, Exchange owner (log ++ [(.agent event drawn,output)]) after socket) ∧ Owned owner after := by
  obtain ⟨⟨agent,inner⟩,agentStepped,returned⟩ := Outcome.bind_next stepped
  cases returned
  constructor
  · intro socket
    have quiet : (∀ effect, inner ≠ .passed effect) → Exchange owner (log ++ [(.agent event drawn,.agent inner)])
        {exchange before event inner drawn with agent := agent} socket := by
      intro other
      rw [exchange_other before drawn other]
      exact (exchanged socket).frame (apart_other other) rfl rfl rfl
    cases stepped_cases agentStepped with
    | passed looped same => exact passed_exchange (exchanged socket) delivered
    | message managed workers => exact quiet fun _ => nofun
    | resume managed workers => exact quiet fun _ => nofun
    | returned same => exact quiet fun _ => nofun
    | idle empty same => exact quiet fun _ => nofun
    | recorded queued worked same => exact quiet fun _ => nofun
  · obtain ⟨watched,spinning⟩ := owned
    have same : ({exchange before event inner drawn with agent := agent} : System threads conns servers).servers = before.servers :=
      exchange_servers ..
    constructor
    · rw [same]
      exact watched
    · rw [same]
      exact spinning

theorem apart_server {server : Fin servers} {event : ServerEvent (Socket threads conns)} {output : ServerOutput (Socket threads conns)}
    {socket : Socket threads conns} (spun : ∀ usecs, output ≠ .toSpin socket usecs) (replied : ∀ bytes, output ≠ .replied socket bytes) :
    Apart socket ((.server server event,.server output) : SystemEvent threads conns servers × SystemOutput threads conns) := by
  refine ⟨rfl,?_,?_,fun inner here => ?_,fun inner here => ?_⟩
  · cases output with
    | quiet => rfl
    | replied other bytes => rfl
    | toSpin other usecs =>
      refine if_neg fun same => ?_
      rw [same] at spun
      exact spun usecs rfl
  · cases output with
    | quiet => rfl
    | toSpin other usecs => rfl
    | replied other bytes =>
      refine if_neg fun same => ?_
      rw [same] at replied
      exact replied bytes rfl
  · cases here
  · cases here

theorem inService_update {system : System threads conns servers} {server : Fin servers} {thread : ServerThread (Socket threads conns)}
    {socket : Socket threads conns} (owns : owner socket = server) :
    inService owner {system with servers := Function.update system.servers server thread} socket =
      if thread.spinning = some socket then 1 else 0 := by
  simp only [inService,owns,Function.update_self]

theorem inService_other {system : System threads conns servers} {server : Fin servers} {thread : ServerThread (Socket threads conns)}
    {socket : Socket threads conns} (free : thread.spinning ≠ some socket) (was : (system.servers server).spinning ≠ some socket) :
    inService owner {system with servers := Function.update system.servers server thread} socket = inService owner system socket := by
  by_cases owns : owner socket = server
  · rw [inService_update owns,inService,owns,if_neg free,if_neg was]
  · simp only [inService,Function.update_of_ne owns]

theorem Owned.update (owned : Owned owner before) {server : Fin servers} {thread : ServerThread (Socket threads conns)}
    (updated : after.servers = Function.update before.servers server thread)
    (watched : ∀ socket, thread.watched socket = true → (before.servers server).watched socket = true)
    (spinning : ∀ socket, thread.spinning = some socket → owner socket = server) : Owned owner after := by
  constructor
  · intro other socket watching
    rw [updated] at watching
    by_cases same : other = server
    · subst same
      rw [Function.update_self] at watching
      exact owned.watched other socket (watched socket watching)
    · rw [Function.update_of_ne same] at watching
      exact owned.watched other socket watching
  · intro other socket busy
    rw [updated] at busy
    by_cases same : other = server
    · subst same
      rw [Function.update_self] at busy
      exact spinning socket busy
    · rw [Function.update_of_ne same] at busy
      exact owned.spinning other socket busy

theorem server_step {server : Fin servers} {event : ServerEvent (Socket threads conns)} {output : SystemOutput threads conns}
    (exchanged : ∀ socket, Exchange owner log before socket) (owned : Owned owner before)
    (epolled : Epolled (before.servers server) event) (delivered : Delivered before (.server server event))
    (stepped : (closedLoop config qsort main).step before (.server server event) = .next (after,output)) :
    (∀ socket, Exchange owner (log ++ [(.server server event,output)]) after socket) ∧ Owned owner after := by
  obtain ⟨⟨thread,inner⟩,serverStepped,returned⟩ := Outcome.bind_next stepped
  cases returned
  cases served_cases serverStepped with
  | accepted same => exact delivered.elim
  | closed same => exact delivered.elim
  | idle absent same => exact absurd absent epolled
  | @read socket data whole same =>
    obtain ⟨watched,free,-⟩ := epolled
    have owns : owner socket = server := owned.watched server socket watched
    subst same
    refine ⟨fun other => ?_,owned.update rfl (fun _ watching => watching) fun other busy => ?_⟩
    · by_cases here : other = socket
      · subst here
        refine (exchanged other).read delivered.2 whole (Function.update_self ..) rfl ?_ ?_
        · rw [inService,owns,free]
          rfl
        · exact (@inService_update _ _ _ owner _ server _ other owns).trans (if_pos rfl)
      · refine (exchanged other).frame (apart_server (fun _ equal => ?_) fun _ => nofun) (Function.update_of_ne here ..) rfl ?_
        · cases equal
          exact here rfl
        · have was : (before.servers server).spinning ≠ some other := by
            rw [free]
            exact nofun
          refine inService_other (fun equal => ?_) was
          cases equal
          exact here rfl
    · cases busy
      exact owns
  | @wrote socket spinning same =>
    have owns : owner socket = server := owned.spinning server socket spinning
    subst same
    refine ⟨fun other => ?_,owned.update rfl (fun _ watching => watching) fun other busy => by cases busy⟩
    by_cases here : other = socket
    · subst here
      refine (exchanged other).wrote rfl (Function.update_self ..) ?_ ?_
      · rw [inService,owns,spinning]
        exact if_pos rfl
      · exact (@inService_update _ _ _ owner _ server _ other owns).trans (if_neg nofun)
    · refine (exchanged other).frame (apart_server (fun _ => nofun) fun _ equal => ?_) rfl (Function.update_of_ne here ..) ?_
      · cases equal
        exact here rfl
      · have was : (before.servers server).spinning ≠ some other := by
          rw [spinning]
          intro equal
          cases equal
          exact here rfl
        exact inService_other nofun was

end Steps

section Runs
variable {owner : Socket threads conns → Fin servers} {config : AgentConfig} {qsort : Qsort} {main : TcpMain}
  {generators : Generators} {stats : List ThreadStats} {aggStats : LatencyStats} {now : Int} {log : SystemLog threads conns servers}
  {system : System threads conns servers} {socket : Socket threads conns}

theorem exchange_initially : ∀ socket, Exchange owner [] (connected owner generators stats aggStats now) socket := by
  intro socket
  exact ⟨rfl,⟨[],rfl,rfl⟩,by simp [spunLongs,writtenReplies,inService,connected],⟨[],rfl,rfl⟩,fun _ listed => absurd listed List.not_mem_nil⟩

theorem owned_initially : Owned owner (connected owner generators stats aggStats now : System threads conns servers) :=
  ⟨fun _ _ watching => of_decide_eq_true watching,fun _ _ busy => by cases busy⟩

theorem exchange_run (run : (closedLoop config qsort main).Run Networked (connected owner generators stats aggStats now) log system) :
    (∀ socket, Exchange owner log system socket) ∧ Owned owner system := by
  refine @Machine.Run.invariant _ _ _ _ _ _ (fun log system => (∀ socket, Exchange owner log system socket) ∧ Owned owner system)
    ⟨exchange_initially,owned_initially⟩ ?_ _ _ run
  intro log before event after output holds networked stepped
  cases event with
  | agent event drawn => exact agent_step holds.1 holds.2 networked.2 stepped
  | server server event => exact server_step holds.1 holds.2 networked.1 networked.2 stepped

theorem replies_length {replies : List (List UInt8)} (whole : ∀ reply ∈ replies, reply = u64Bytes replyLong) :
    replies.flatten.length = replies.length * sizeofLong := by
  induction replies with
  | nil => rfl
  | cons first replies ih =>
    rw [List.flatten_cons,List.length_append,ih fun reply inside => whole reply (List.mem_cons_of_mem _ inside),
      whole first List.mem_cons_self,List.length_cons,Nat.succ_mul,Nat.add_comm]
    rfl

/-- What has come to the agent and what is still under way are the replies to requests that were read. -/
theorem Exchange.replies (exchange : Exchange owner log system socket) : received socket.2 (loopLog socket.1 log) +
    (system.toAgent socket).length = (writtenReplies socket log).length * sizeofLong := by
  obtain ⟨-,-,-,⟨got,bytes,count⟩,whole⟩ := exchange
  have together := congrArg List.length bytes
  rw [replies_length whole,List.length_append,count] at together
  exact together.symm

theorem Exchange.owed (exchange : Exchange owner log system socket) : received socket.2 (loopLog socket.1 log) +
    (system.toAgent socket).length ≤ (requests socket.2 (loopLog socket.1 log)).length * sizeofLong := by
  rw [exchange.replies]
  obtain ⟨asked,⟨unread,order,-⟩,served,-,-⟩ := exchange
  refine Nat.mul_le_mul_right _ ?_
  rw [asked,order,List.length_append,served]
  omega

/-- The agent's part of a run of the system is a run of the agent whose server is as `Served` asks. -/
theorem projects_agent : Machine.Projects (closedLoop config qsort main : Machine (System threads conns servers) _ _)
    (tcpAgent config qsort main .synthetic) Networked (Hosts Loads (Exchanging .synthetic sizeofLong))
    (connected owner generators stats aggStats now) System.agent ofAgent := by
  constructor
  · intro log before event after output event' output' run networked stepped shown
    cases event with
    | server server event => cases shown
    | agent event drawn =>
      obtain ⟨⟨agent,inner⟩,agentStepped,returned⟩ := Outcome.bind_next stepped
      cases returned
      cases shown
      refine ⟨⟨networked.1,fun thread pass same => ?_⟩,agentStepped⟩
      subst same
      have delivered := networked.2
      cases pass with
      | send attempt =>
        refine ⟨trivial,fun other equal => ?_⟩
        cases equal
        exact delivered.trans (created_length drawn)
      | epollIn idx recv rx =>
        refine ⟨?_,fun other equal => by cases equal⟩
        cases recv with
        | error wouldBlock => exact delivered
        | bytes data =>
          obtain ⟨⟨-,arrived⟩,fits⟩ := delivered
          have owed := ((exchange_run run).1 (thread,idx)).owed
          have part := arrived.length_le
          refine ⟨fits,?_⟩
          have size : ApplicationProtocol.synthetic.size = sizeofLong := rfl
          rw [size]
          change received idx (loopLog thread log) + data.length ≤ (requests idx (loopLog thread log)).length * sizeofLong
          dsimp only at owed
          omega
      | idle now => exact ⟨trivial,fun other equal => by cases equal⟩
      | epollErr idx => exact ⟨trivial,fun other equal => by cases equal⟩
      | epollHup idx => exact ⟨trivial,fun other equal => by cases equal⟩
      | epollOther idx => exact ⟨trivial,fun other equal => by cases equal⟩
      | txReport idx message => exact ⟨trivial,fun other equal => by cases equal⟩
  · intro log before event after output run networked stepped shown
    cases event with
    | server server event =>
      obtain ⟨⟨thread,inner⟩,-,returned⟩ := Outcome.bind_next stepped
      cases returned
      dsimp only [answer]
      split <;> rfl
    | agent event drawn =>
      obtain ⟨⟨agent,inner⟩,-,returned⟩ := Outcome.bind_next stepped
      cases returned
      cases shown

theorem agent_run (run : (closedLoop config qsort main).Run Networked (connected owner generators stats aggStats now) log system) :
    (tcpAgent config qsort main .synthetic).Run (Hosts Loads (Exchanging .synthetic sizeofLong))
      (started generators stats aggStats (throughputOpenConnections conns now)) (agentLog log) system.agent :=
  run.project projects_agent

/-- The connection's account in the worker's loop. -/
theorem ledger_run (run : (closedLoop config qsort main).Run Networked (connected owner generators stats aggStats now) log system)
    (socket : Socket threads conns) :
    Ledger .synthetic (loopLog socket.1 log) (system.agent.workers socket.1).loop socket.2 :=
  (worker_balanced (by decide) (agent_run run) socket.1).ledger socket.2

theorem Exchange.credit (exchange : Exchange owner log system socket)
    (ledger : Ledger .synthetic (loopLog socket.1 log) (system.agent.workers socket.1).loop socket.2) :
    answered socket.2 (loopLog socket.1 log) + ((system.agent.workers socket.1).loop.connections socket.2).pendingReqs.toNat =
      (drawnLongs socket log).length :=
  ledger.credit.trans exchange.asked

theorem Exchange.places (exchange : Exchange owner log system socket)
    (ledger : Ledger .synthetic (loopLog socket.1 log) (system.agent.workers socket.1).loop socket.2) :
    ∃ unread, drawnLongs socket log = spunLongs socket log ++ unread ∧
      system.toServer socket = unread.flatMap (fun drawn => (createRequest .synthetic .fresh drawn).1) ∧
      ((system.agent.workers socket.1).loop.connections socket.2).pendingReqs.toNat * sizeofLong =
        unread.length * sizeofLong + inService owner system socket * sizeofLong + (system.toAgent socket).length +
          ((system.agent.workers socket.1).loop.connections socket.2).bufferIdx.toNat := by
  have replies := exchange.replies
  have credit := exchange.credit ledger
  have bytes := ledger.bytes
  obtain ⟨-,⟨unread,order,stream⟩,served,-,-⟩ := exchange
  have size : ApplicationProtocol.synthetic.size = sizeofLong := rfl
  have total := congrArg List.length order
  rw [List.length_append,served] at total
  rw [size] at bytes
  refine ⟨unread,order,stream,?_⟩
  unfold sizeofLong at *
  omega

end Runs

/-- Every request is in one place. On each connection the server spins for the numbers that were
drawn, in their order, and each request without an answer is on its way to the server, in its
hands, on its way back or in the agent's buffer. -/
theorem requests_conserved (owner : Socket threads conns → Fin servers) (config : AgentConfig) (qsort : Qsort) (main : TcpMain)
    (generators : Generators) (stats : List ThreadStats) (aggStats : LatencyStats) (now : Int) (log : SystemLog threads conns servers)
    (system : System threads conns servers)
    (run : (closedLoop config qsort main).Run Networked (connected owner generators stats aggStats now) log system)
    (socket : Socket threads conns) :
    ∃ unread conn, conn = (system.agent.workers socket.1).loop.connections socket.2 ∧
      drawnLongs socket log = spunLongs socket log ++ unread ∧
      system.toServer socket = unread.flatMap (fun drawn => (createRequest .synthetic .fresh drawn).1) ∧
      conn.pendingReqs.toNat ≤ maxPendingReqs ∧
      answered socket.2 (loopLog socket.1 log) + conn.pendingReqs.toNat = (drawnLongs socket log).length ∧
      conn.pendingReqs.toNat * sizeofLong = unread.length * sizeofLong + inService owner system socket * sizeofLong +
        (system.toAgent socket).length + conn.bufferIdx.toNat := by
  have exchange := (exchange_run run).1 socket
  have ledger := ledger_run run socket
  obtain ⟨unread,order,stream,places⟩ := exchange.places ledger
  exact ⟨unread,_,rfl,order,stream,ledger.gated,exchange.credit ledger,places⟩

instance (system : System threads conns servers) (event : SystemEvent threads conns servers) : Decidable (Delivered system event) :=
  match event with
  | .agent (.pass _ (.send _)) _ => inferInstanceAs (Decidable (_ = _))
  | .agent (.pass _ (.epollIn _ (.bytes _) _)) _ => inferInstanceAs (Decidable ((_ ∧ _) ∧ _))
  | .agent (.pass _ (.epollIn _ (.error wouldBlock) _)) _ => inferInstanceAs (Decidable (wouldBlock = false))
  | .agent (.pass _ (.idle _)) _ | .agent (.pass _ (.epollErr _)) _ | .agent (.pass _ (.epollHup _)) _ => .isTrue trivial
  | .agent (.pass _ (.epollOther _)) _ | .agent (.pass _ (.txReport _ _)) _ => .isTrue trivial
  | .agent (.message _ _ _) _ | .agent (.resume _) _ | .agent (.record _ _) _ => .isTrue trivial
  | .server _ (.readable _ _) => inferInstanceAs (Decidable (_ ∧ _))
  | .server _ (.spun _) => .isTrue trivial
  | .server _ (.accept _) | .server _ (.hangup _) => .isFalse id

instance (system : System threads conns servers) (event : SystemEvent threads conns servers) : Decidable (Ordered system event) :=
  match event with
  | .agent event _ => inferInstanceAs (Decidable (Scheduled Loads system.agent event))
  | .server server event => inferInstanceAs (Decidable (Epolled (system.servers server) event))

instance (log : SystemLog threads conns servers) (system : System threads conns servers) (event : SystemEvent threads conns servers) :
    Decidable (Networked log system event) :=
  inferInstanceAs (Decidable (_ ∧ _))

def only : Fin 1 := ⟨0,Nat.one_pos⟩

def onlySocket : Socket 1 1 := (only,only)

def sendOne (now : Int) : SendAttempt 1 := ⟨now,false,fun _ => only,⟨5,0⟩,8,.bytes 8,10⟩

/-- Two requests; the server answers the first, and the answer comes back. -/
def answeredOnce : List (SystemEvent 1 1 1) :=
  [.agent (.message (.startLoad 1000) 0 []) 0,.agent (.pass only (.send (sendOne 0))) 7,.agent (.record only 0) 0,
    .agent (.pass only (.send (sendOne 10))) 9,.agent (.record only 0) 0,.server only (.readable onlySocket [7,0,0,0,0,0,0,0]),
    .server only (.spun 8),.agent (.pass only (.epollIn only (.bytes [42,0,0,0,0,0,0,0]) ⟨5,20⟩)) 0,.agent (.record only 0) 0]

def oneWorker : System 1 1 1 := connected (fun _ => only) .exponential [⟨.zero,⟨0,fun _ => Timespec.zero⟩⟩] .zero 0

theorem requests_conserved_once : ∃ (log : SystemLog 1 1 1) (system : System 1 1 1),
    (closedLoop MeasureWindow.exampleConfig Qsort.insertion .throughput).Run Networked oneWorker log system ∧
      spunLongs onlySocket log = [7] ∧ ∃ unread, drawnLongs onlySocket log = [7] ++ unread := by
  obtain ⟨log,system,run,spun⟩ := @Machine.run_of_follow _ _ _ (closedLoop MeasureWindow.exampleConfig Qsort.insertion .throughput)
    Networked oneWorker (fun log system event => decide (Networked log system event)) (fun _ _ _ => of_decide_eq_true)
    answeredOnce (fun ended => spunLongs onlySocket ended.1 == [7]) (by decide +kernel)
  have one := eq_of_beq spun
  obtain ⟨unread,-,-,order,-⟩ := requests_conserved _ _ _ _ _ _ _ _ log system run onlySocket
  dsimp only at one
  rw [one] at order
  exact ⟨log,system,run,one,unread,order⟩

/-- A measurement in which one of two requests is answered. -/
def measuredOnce : List (SystemEvent 1 1 1) :=
  answeredOnce.take 1 ++ .agent (.message (.startMeasure 100 20) 0 []) 0 ::
    (answeredOnce.tail ++ [.agent (.message (.reportReq CoordProto.reportThroughputType) 1010 []) 0])

def endsInFirstReport (log : SystemLog 1 1 1) : Bool :=
  match log.reverse with
  | (.agent (.message (.reportReq _) _ _) _,.agent _) :: past => fresh (agentLog past.reverse)
  | _ => false

end Lancet.ClosedLoop
