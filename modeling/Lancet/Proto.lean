import Lancet.CoordProto
import Lancet.Foundation.Go

/-! The coordinator's side of the protocol (proto.go). Every collector parses one read of
each agent's connection, from a buffer whose end stays zero. -/
namespace Lancet.Proto
open Foundation Wire CoordProto

abbrev Conn := Nat

/-- What the coordinator asks of its world: bytes written on a connection, one read with a
deadline in milliseconds into a buffer of some length, and a pause in seconds. -/
structure Net (σ : Type) where
  write : Conn → List UInt8 → σ → Except String Nat × σ
  read : Conn → Nat → Nat → σ → Except String (List UInt8) × σ
  sleep : Int → σ → σ

def Parser (α : Type) := List UInt8 → Except String (α × List UInt8)

instance : Monad Parser where
  pure value := fun bytes => .ok (value,bytes)
  bind parser following := fun bytes => match parser bytes with
    | .ok (value,rest) => following value rest
    | .error text => .error text

def Parser.fail {α : Type} (text : String) : Parser α := fun _ => .error text

def readError (bytes : List UInt8) : String := if bytes = [] then "EOF" else "unexpected EOF"

def binaryRead {α : Type} (reader : Reader α) (text : String) : Parser α := fun bytes =>
  match reader bytes with
  | some (value,rest) => .ok (value,rest)
  | none => .error (text ++ readError bytes ++ "\n")

def padded (capacity : Nat) (chunk : List UInt8) : List UInt8 :=
  chunk ++ List.replicate (capacity - chunk.length) 0

def parseAck : Parser Unit := do
  let reply ← binaryRead Msg1.read "Error parsing ACK: "
  if reply.info ≠ replyAckType then Parser.fail "Didn't receive ACK.\n" else return ()

def parseThroughput (count : Nat) : Parser (ThroughputReply × Option Int) := do
  let prelude ← binaryRead Msg1.read "Error parsing throughput_reply header: "
  if prelude.info ≠ replyStatsThroughput then Parser.fail "Didn't receive throughput stats\n"
  else
    let reply ← binaryRead ThroughputReply.read "Error parsing throughput_reply: "
    if sizeofMsg1 + sizeofThroughputReply < count then
      let iaReply ← binaryRead Msg2.read "Error parsing ia compliance header: "
      return (reply,some (iaReply.info2.toNat : Int))
    else return (reply,none)

def parseChecks : Parser NicChecks := do
  let prelude ← binaryRead Msg1.read "Error parsing latency_reply header: "
  if prelude.info ≠ replyConvergence then Parser.fail "Didn't receive convergence stats\n"
  else
    let conv ← binaryRead u32 "Error parsing convergence: "
    let prelude ← binaryRead Msg1.read "Error parsing latency_reply header: "
    if prelude.info ≠ replyIid then Parser.fail "Didn't receive convergence stats\n"
    else
      let pearsonCorr ← binaryRead u64 "Error parsing convergence: "
      let iaReply ← binaryRead Msg2.read "Error parsing ia compliance header: "
      return ⟨conv,pearsonCorr,iaReply.info2⟩

def parseLatency (count : Nat) : Parser (LatencyReply × Option NicChecks) := do
  let prelude ← binaryRead Msg1.read "Error parsing latency_reply header: "
  if prelude.info ≠ replyStatsLatency then Parser.fail "Didn't receive latency stats\n"
  else
    let reply ← binaryRead LatencyReply.read "Error parsing latency_reply: "
    if sizeofMsg1 + sizeofLatencyReply < count then
      let checks ← parseChecks
      return (reply,some checks)
    else return (reply,none)

structure ThroughputResults where
  result : List ThroughputReply
  iaComp : List Int
  deriving DecidableEq, Repr

structure LatencyResults where
  result : List LatencyReply
  iaComp : List UInt32
  convergence : List UInt32
  correlations : List UInt64
  deriving DecidableEq, Repr

def ThroughputResults.ofReplies (replies : List (ThroughputReply × Option Int)) : ThroughputResults where
  result := replies.map (·.1)
  iaComp := replies.filterMap (·.2)

def LatencyResults.ofReplies (replies : List (LatencyReply × Option NicChecks)) : LatencyResults :=
  let checks := replies.filterMap (·.2)
  { result := replies.map (·.1)
    iaComp := checks.map (·.iaComp)
    convergence := checks.map (·.convergence)
    correlations := checks.map (·.correlation) }

def ackTimeOut : Nat := 500
def throughputTimeOut : Nat := 500
def latencyTimeOut : Nat := 5000
def ackCapacity : Nat := 64
def statsCapacity : Nat := 1024

section Calls
variable {σ : Type} (net : Net σ)

def broadcastMessage (msg : List UInt8) (agents : List Conn) : Go σ Unit := do
  let _ ← Go.forEach (fun a => do
    let count ← Go.describe (fun err => "Write to server failed: " ++ err ++ "\n") (Go.run (net.write a msg))
    if count ≠ msg.length then Go.crash else return ()) agents
  return ()

def collectFrom {α : Type} (timeOut capacity : Nat) (parse : Nat → Parser α) (a : Conn) : Go σ α := do
  let data ← Go.describe (fun err => "Read from agent failed: " ++ err ++ "\n") (Go.run (net.read a timeOut capacity))
  match parse data.length (padded capacity data) with
  | .ok (value,_) => return value
  | .error text => Go.fail text

def collectAcks (agents : List Conn) : Go σ Unit := do
  let _ ← Go.forEach (collectFrom net ackTimeOut ackCapacity (fun _ => parseAck)) agents
  return ()

def collectThroughputResults (agents : List Conn) : Go σ ThroughputResults := do
  let replies ← Go.forEach (collectFrom net throughputTimeOut statsCapacity parseThroughput) agents
  return .ofReplies replies

def collectLatencyResults (agents : List Conn) : Go σ LatencyResults := do
  let replies ← Go.forEach (collectFrom net latencyTimeOut statsCapacity parseLatency) agents
  return .ofReplies replies

def startLoadMsg (load : Int) : List UInt8 := Msg1.bytes ⟨⟨startLoadCode,4⟩,UInt32.ofInt load⟩

def startMeasureMsg (sampleCount : Int) (samplingRate : Float) : List UInt8 :=
  MsgHdr.bytes ⟨startMeasureCode,12⟩ ++ u32Bytes (UInt32.ofInt sampleCount) ++ u64Bytes samplingRate.toBits

def reportMsg (type : UInt32) : List UInt8 := Msg1.bytes ⟨⟨reportReqCode,4⟩,type⟩

def startLoad (agents : List Conn) (load : Int) : Go σ Unit := do
  broadcastMessage net (startLoadMsg load) agents
  collectAcks net agents

def startMeasure (agents : List Conn) (sampleCount : Int) (samplingRate : Float) : Go σ Unit := do
  broadcastMessage net (startMeasureMsg sampleCount samplingRate) agents
  collectAcks net agents

def reportThroughput (agents : List Conn) : Go σ ThroughputResults := do
  broadcastMessage net (reportMsg reportThroughputType) agents
  collectThroughputResults net agents

def reportLatency (agents : List Conn) : Go σ LatencyResults := do
  broadcastMessage net (reportMsg reportLatencyType) agents
  collectLatencyResults net agents

end Calls

namespace Parser
variable {α β : Type}

theorem bind_ok {parser : Parser α} (following : α → Parser β) {bytes rest : List UInt8} {value : α}
    (parsed : parser bytes = .ok (value,rest)) : (parser >>= following) bytes = following value rest := by
  have unfolded : (parser >>= following) bytes = match parser bytes with
    | .ok (value,rest) => following value rest
    | .error text => .error text := rfl
  rw [unfolded,parsed]

theorem bind_failed {parser : Parser α} (following : α → Parser β) {bytes : List UInt8} {text : String}
    (parsed : parser bytes = .error text) : (parser >>= following) bytes = .error text := by
  have unfolded : (parser >>= following) bytes = match parser bytes with
    | .ok (value,rest) => following value rest
    | .error text => .error text := rfl
  rw [unfolded,parsed]

end Parser

theorem binaryRead_run {α β : Type} {reader : Reader α} (text : String) (following : α → Parser β)
    {bytes rest : List UInt8} {value : α} (read : reader bytes = some (value,rest)) :
    (binaryRead reader text >>= following) bytes = following value rest := by
  refine Parser.bind_ok following ?_
  rw [binaryRead,read]

end Lancet.Proto
