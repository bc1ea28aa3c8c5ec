import Lancet.AppProto
import Mathlib.Logic.Function.Basic

/-! The TCP transport loops of one worker thread (tp_tcp.c, tp_proto.h).
One event is one decision point of a loop: a pass that does not load, one attempt
to send, one entry of the epoll result, or the kernel queueing a transmit report.
Calls into the statistics are reported in their order. -/
namespace Lancet.TpTcp
open Foundation Timestamping Stats AppProto

def maxPayload : Nat := 4000

structure TcpConnection where
  closed : Bool
  pendingReqs : UInt16
  bufferIdx : UInt16
  buffer : List UInt8
  deriving DecidableEq, Repr

structure Thread (conns : Nat) where
  connections : Fin conns → TcpConnection
  perConnTxTimestamps : Fin conns → PendingTxTimestamps
  -- the kernel's error queue of each socket
  errQueue : Fin conns → List (List Cmsg)
  availReqs : Int
  receivedOpid : UInt32
  nextTx : Int

inductive Sent where
  | bytes (count : Nat)
  | error (wouldBlock : Bool)
  deriving DecidableEq, Repr

inductive Recv where
  -- no bytes: the peer closed
  | bytes (data : List UInt8)
  | error (wouldBlock : Bool)
  deriving DecidableEq, Repr

structure SendAttempt (conns : Nat) where
  now : Int
  -- the attempt follows another one in the same pass
  again : Bool
  -- `rand` modulo the number of connections
  draws : Fin 10 → Fin conns
  stamp : Timespec
  bytesToSend : Nat
  sent : Sent
  ia : Int

inductive Event (conns : Nat) where
  | idle (now : Int)
  | send (attempt : SendAttempt conns)
  | epollIn (idx : Fin conns) (recv : Recv) (rx : Timespec)
  | epollErr (idx : Fin conns)
  | epollHup (idx : Fin conns)
  | epollOther (idx : Fin conns)
  | txReport (idx : Fin conns) (message : List Cmsg)

structure Effect (conns : Nat) where
  calls : List StatsCall
  sent : Option (Fin conns) := none
  answered : Option (Fin conns × Nat) := none
  deriving DecidableEq, Repr

variable {conns : Nat}

def throughputOpenConnections (conns : Nat) (now : Int) : Thread conns where
  connections := fun _ => ⟨false,0,0,List.replicate maxPayload 0⟩
  perConnTxTimestamps := fun _ => .empty
  errQueue := fun _ => []
  availReqs := conns * maxPendingReqs
  receivedOpid := 0
  nextTx := now

def pickConn (thread : Thread conns) (draws : Fin 10 → Fin conns) : Option (Fin conns) :=
  (List.ofFn draws).find? (fun idx =>
    (thread.connections idx).pendingReqs.toNat < maxPendingReqs && !(thread.connections idx).closed)

def checkSent (bytesToSend : Nat) : Sent → Outcome Unit
  | .bytes count => Outcome.assert (count = bytesToSend)
  | .error true => .fault
  | .error false => .halt

def creditSend (thread : Thread conns) (idx : Fin conns) (ring : PendingTxTimestamps) (ia : Int) : Thread conns :=
  {thread with
    connections := Function.update thread.connections idx
      {thread.connections idx with pendingReqs := (thread.connections idx).pendingReqs + 1}
    perConnTxTimestamps := Function.update thread.perConnTxTimestamps idx ring
    availReqs := thread.availReqs - 1
    nextTx := thread.nextTx + ia}

def sendPath (onSent : PendingTxTimestamps → PendingTxTimestamps × List StatsCall)
    (thread : Thread conns) (attempt : SendAttempt conns) : Outcome (Thread conns × Effect conns) :=
  if attempt.now - thread.nextTx < 0 then return (thread,{calls := []})
  else match pickConn thread attempt.draws with
    | none => return (thread,{calls := []})
    | some idx => do
      checkSent attempt.bytesToSend attempt.sent
      let (ring,calls) := onSent (thread.perConnTxTimestamps idx)
      return (creditSend thread idx ring attempt.ia,
        {calls := calls ++ [.throughputTx ⟨UInt64.ofNat attempt.bytesToSend,1⟩], sent := some idx})

def store (buffer : List UInt8) (offset : Nat) (data : List UInt8) : List UInt8 :=
  buffer.take offset ++ data ++ buffer.drop (offset + data.length)

def carryOver (carry : Bool) (buffer : List UInt8) (bufferIdx : UInt16) (consumed : Nat) :
    Outcome (List UInt8 × UInt16) :=
  if consumed = bufferIdx.toNat then .next (buffer,0)
  else if consumed < bufferIdx.toNat then
    -- the symmetric loops assert that there is no half response
    if carry then
      -- the copy would read past the array
      if maxPayload < bufferIdx.toNat then .fault
      else
        let left := bufferIdx.toNat - consumed
        .next ((buffer.drop consumed).take left ++ buffer.drop left,UInt16.ofNat left)
    else .fault
  else .fault

inductive Received where
  | closed (conn : TcpConnection)
  | responses (conn : TcpConnection) (readRes : Consumed)
  deriving DecidableEq, Repr

def processReceived (carry : Bool) (proto : ApplicationProtocol) (conn : TcpConnection) (ret : Int)
    (data : List UInt8) : Outcome Received := do
  let buffer := store conn.buffer conn.bufferIdx.toNat data
  let bufferIdx := UInt16.ofInt (conn.bufferIdx.toNat + ret)
  let readRes ← consumeResponse proto bufferIdx.toNat
  let (buffer,bufferIdx) ← carryOver carry buffer bufferIdx readRes.bytes
  Outcome.assert (0 < readRes.reqs)
  return .responses {conn with
    pendingReqs := conn.pendingReqs - UInt16.ofNat readRes.reqs
    bufferIdx := bufferIdx
    buffer := buffer} readRes

def receive (carry : Bool) (proto : ApplicationProtocol) (conn : TcpConnection) : Recv → Outcome Received
  | .error false => .halt
  | .error true => processReceived carry proto conn (-1) []
  | .bytes [] => return .closed {conn with closed := true}
  | .bytes (byte :: rest) => processReceived carry proto conn (rest.length + 1 : Nat) (byte :: rest)

def setConnection (thread : Thread conns) (idx : Fin conns) (conn : TcpConnection) : Thread conns :=
  {thread with connections := Function.update thread.connections idx conn}

def creditResponses (thread : Thread conns) (idx : Fin conns) (conn : TcpConnection) (readRes : Consumed) : Thread conns :=
  {setConnection thread idx conn with availReqs := thread.availReqs + readRes.reqs}

def setRing (thread : Thread conns) (idx : Fin conns) (ring : PendingTxTimestamps) : Thread conns :=
  {thread with perConnTxTimestamps := Function.update thread.perConnTxTimestamps idx ring}

def queueReport (thread : Thread conns) (idx : Fin conns) (message : List Cmsg) : Thread conns :=
  {thread with errQueue := Function.update thread.errQueue idx (thread.errQueue idx ++ [message])}

def readTxReport (thread : Thread conns) (idx : Fin conns) : Outcome (Thread conns × List StatsCall) := do
  let tx ← getTxTimestamp (thread.errQueue idx).head? (thread.perConnTxTimestamps idx) thread.receivedOpid
  return ({setRing thread idx tx.ring with
      receivedOpid := tx.receivedOpid
      errQueue := Function.update thread.errQueue idx (thread.errQueue idx).tail},
    tx.recorded.map .txTimestamp)

def skipBatch (ring : PendingTxTimestamps) (reqs : Nat) : PendingTxTimestamps :=
  if 1 < reqs then blindSkipTxTimestamps ring (reqs - 1) else ring

def matchNicTimestamp (thread : Thread conns) (idx : Fin conns) (reqs : Nat) :
    Outcome (Thread conns × Option Timespec × List StatsCall) := do
  let (ring,info) ← popPendingTxTimestamps (skipBatch (thread.perConnTxTimestamps idx) reqs)
  match info with
  | some info => return (setRing thread idx ring,some info.time,[])
  | none =>
    -- not received yet: read one report and ask the ring again
    let (thread,calls) ← readTxReport (setRing thread idx ring) idx
    let (ring,info) ← popPendingTxTimestamps (thread.perConnTxTimestamps idx)
    match info with
    | some info => return (setRing thread idx ring,some info.time,calls)
    | none => return (setRing thread idx {ring with consumed := ring.consumed + 1},none,calls)

def nicSample (rx : Timespec) (tx : Option Timespec) : List StatsCall :=
  match timespecDiff (some rx) tx with
  | none => []
  | some latency =>
    [.latency (Binary64.toLong (Float.ofInt latency.tvNsec + Float.ofInt latency.tvSec * 1e9)) tx]

def userspaceSample (rx : Timespec) (tx : Option Timespec) : Outcome (List StatsCall) :=
  match timespecDiff (some rx) tx with
  | none => return []
  | some latency => do
    Outcome.assert (latency.tvSec = 0)
    return [.latency latency.tvNsec tx]

def throughputTcpMain (proto : ApplicationProtocol) : Machine (Thread conns) (Event conns) (Effect conns) where
  step thread
    | .idle now => return ({thread with nextTx := now},{calls := []})
    | .send attempt => sendPath (fun ring => (ring,[])) thread attempt
    | .epollIn idx recv _ => do
      match ← receive true proto (thread.connections idx) recv with
      | .closed conn => return (setConnection thread idx conn,{calls := []})
      | .responses conn readRes =>
        return (creditResponses thread idx conn readRes,
          {calls := [.throughputRx readRes.toPair], answered := some (idx,readRes.reqs)})
    | .epollErr _ | .epollHup _ | .epollOther _ => .fault
    | .txReport idx message => return (queueReport thread idx message,{calls := []})

def symmetricNicTcpMain (proto : ApplicationProtocol) : Machine (Thread conns) (Event conns) (Effect conns) where
  step thread
    | .idle now => return ({thread with nextTx := now},{calls := []})
    | .send attempt =>
      if !attempt.again && thread.availReqs = 0 then return (thread,{calls := []})
      else sendPath (fun ring => (addPendingTxTimestamp ring (UInt32.ofNat attempt.bytesToSend),[])) thread attempt
    | .epollIn idx recv rx => do
      match ← receive false proto (thread.connections idx) recv with
      | .closed conn => return (setConnection thread idx conn,{calls := []})
      | .responses conn readRes =>
        let (thread,tx,calls) ← matchNicTimestamp (creditResponses thread idx conn readRes) idx readRes.reqs
        return (thread,
          {calls := calls ++ nicSample rx tx ++ [.throughputRx readRes.toPair], answered := some (idx,readRes.reqs)})
    | .epollErr idx => do
      let (thread,calls) ← readTxReport thread idx
      return (thread,{calls := calls})
    | .epollHup _ => .fault
    | .epollOther _ => return (thread,{calls := []})
    | .txReport idx message => return (queueReport thread idx message,{calls := []})

def symmetricTcpMain (proto : ApplicationProtocol) : Machine (Thread conns) (Event conns) (Effect conns) where
  step thread
    | .idle now => return ({thread with nextTx := now},{calls := []})
    | .send attempt =>
      sendPath (fun ring => (pushCompleteTxTimestamp ring attempt.stamp,[.txTimestamp attempt.stamp])) thread attempt
    | .epollIn idx recv rx => do
      match ← receive false proto (thread.connections idx) recv with
      | .closed conn => return (setConnection thread idx conn,{calls := []})
      | .responses conn readRes =>
        let thread := creditResponses thread idx conn readRes
        let (ring,info) ← popPendingTxTimestamps (skipBatch (thread.perConnTxTimestamps idx) readRes.reqs)
        let sample ← userspaceSample rx (info.map (·.time))
        return (setRing thread idx ring,
          {calls := sample ++ [.throughputRx readRes.toPair], answered := some (idx,readRes.reqs)})
    | .epollErr idx => do
      let (thread,calls) ← readTxReport thread idx
      return (thread,{calls := calls})
    | .epollHup _ => .fault
    | .epollOther _ => return (thread,{calls := []})
    | .txReport idx message => return (queueReport thread idx message,{calls := []})

/-- One pass of the latency loop, which sends a request and waits for its answer. -/
structure LatencyPass (conns : Nat) where
  now : Int
  draws : Fin 10 → Fin conns
  startTime : Int
  bytesToSend : Nat
  sent : Sent
  recv : Recv
  endTime : Int
  ia : Int

inductive LatencyEvent (conns : Nat) where
  | idle (now : Int)
  | pass (pass : LatencyPass conns)

def latencyOpenConnections (conns : Nat) (now : Int) : Thread conns :=
  {throughputOpenConnections conns now with availReqs := 0}

def checkWritev (bytesToSend : Nat) : Sent → Outcome Unit
  | .bytes count => Outcome.assert (count = bytesToSend)
  | .error _ => .halt

def txPair (bytesToSend : Nat) : StatsCall := .throughputTx ⟨UInt64.ofNat bytesToSend,1⟩

def awaitReply (proto : ApplicationProtocol) (thread : Thread conns) (idx : Fin conns) (pass : LatencyPass conns) :
    Outcome (Thread conns × Effect conns) :=
  let conn := thread.connections idx
  match pass.recv with
  | .error _ => .halt
  | .bytes [] =>
    return (setConnection thread idx {conn with closed := true},{calls := [txPair pass.bytesToSend], sent := some idx})
  | .bytes data => do
    let readRes ← consumeResponse proto data.length
    Outcome.assert (readRes.bytes = data.length)
    return ({setConnection thread idx {conn with buffer := store conn.buffer 0 data} with nextTx := thread.nextTx + pass.ia},
      {calls := [txPair pass.bytesToSend,.throughputRx readRes.toPair,.latency (pass.endTime - pass.startTime) none]
       sent := some idx
       answered := some (idx,readRes.reqs)})

def latencyTcpMain (proto : ApplicationProtocol) : Machine (Thread conns) (LatencyEvent conns) (Effect conns) where
  step thread
    | .idle now => return ({thread with nextTx := now},{calls := []})
    | .pass pass =>
      if pass.now < thread.nextTx then return (thread,{calls := []})
      else match pickConn thread pass.draws with
        | none => return (thread,{calls := []})
        | some idx => do
          checkWritev pass.bytesToSend pass.sent
          awaitReply proto thread idx pass

end Lancet.TpTcp
