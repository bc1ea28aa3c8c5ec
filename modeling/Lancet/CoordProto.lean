import Lancet.Foundation.Wire

/-! The messages between the coordinator and the agents (coord_proto.h): codes, packed
structures and their bytes. -/
namespace Lancet.CoordProto
open Foundation Wire

def startLoadCode : UInt32 := 0
def startMeasureCode : UInt32 := 1
def reportReqCode : UInt32 := 2
def replyCode : UInt32 := 3

def reportThroughputType : UInt32 := 0
def reportLatencyType : UInt32 := 1

def replyAckType : UInt32 := 0
def replyStatsThroughput : UInt32 := 1
def replyStatsLatency : UInt32 := 2
def replyConvergence : UInt32 := 3
def replyIaComp : UInt32 := 4
def replyIid : UInt32 := 5

structure MsgHdr where
  messageType : UInt32
  messageLength : UInt32
  deriving DecidableEq, Repr

structure Msg1 where
  hdr : MsgHdr
  info : UInt32
  deriving DecidableEq, Repr

structure Msg2 where
  hdr : MsgHdr
  info1 : UInt32
  info2 : UInt32
  deriving DecidableEq, Repr

structure ThroughputReply where
  rxBytes : UInt64
  txBytes : UInt64
  reqCount : UInt64
  duration : UInt64
  deriving DecidableEq, Repr

structure LatencyReply where
  thData : ThroughputReply
  avgLat : UInt64
  p50I : UInt64
  p50 : UInt64
  p50K : UInt64
  p90I : UInt64
  p90 : UInt64
  p90K : UInt64
  p95I : UInt64
  p95 : UInt64
  p95K : UInt64
  p99I : UInt64
  p99 : UInt64
  p99K : UInt64
  deriving DecidableEq, Repr

/-- What only the agent with NIC timestamps adds to a latency reply; the correlation is a
`double`, kept as its bits. -/
structure NicChecks where
  convergence : UInt32
  correlation : UInt64
  iaComp : UInt32
  deriving DecidableEq, Repr

def sizeofMsg1 : Nat := 12
def sizeofMsg2 : Nat := 16
def sizeofThroughputReply : Nat := 32
def sizeofLatencyReply : Nat := 136

namespace MsgHdr

def bytes (hdr : MsgHdr) : List UInt8 := u32Bytes hdr.messageType ++ u32Bytes hdr.messageLength

def read : Reader MsgHdr := do
  let messageType ← u32
  let messageLength ← u32
  return ⟨messageType,messageLength⟩

theorem read_bytes (hdr : MsgHdr) (rest : List UInt8) : read (hdr.bytes ++ rest) = some (hdr,rest) := by
  rw [bytes,List.append_assoc,read,Reader.bind_run _ (u32_encoded _ _),Reader.bind_run _ (u32_encoded _ _)]
  rfl

theorem takes : Takes 8 read :=
  takes_u32.bind fun _ => takes_u32.bind fun _ => takes_pure _

end MsgHdr

namespace Msg1

def bytes (msg : Msg1) : List UInt8 := msg.hdr.bytes ++ u32Bytes msg.info

def read : Reader Msg1 := do
  let hdr ← MsgHdr.read
  let info ← u32
  return ⟨hdr,info⟩

theorem read_bytes (msg : Msg1) (rest : List UInt8) : read (msg.bytes ++ rest) = some (msg,rest) := by
  rw [bytes,List.append_assoc,read,Reader.bind_run _ (MsgHdr.read_bytes _ _),Reader.bind_run _ (u32_encoded _ _)]
  rfl

theorem bytes_length (msg : Msg1) : msg.bytes.length = sizeofMsg1 := by
  simp [bytes,MsgHdr.bytes,sizeofMsg1]

/-- On any twelve bytes the header is read and the last four are the `Info`. -/
theorem read_long (bytes : List UInt8) (long : sizeofMsg1 ≤ bytes.length) :
    ∃ hdr, read bytes = some (⟨hdr,UInt32.ofNat (decode ((bytes.drop 8).take 4))⟩,bytes.drop sizeofMsg1) := by
  obtain ⟨hdr,header⟩ := MsgHdr.takes bytes (Nat.le_trans (by decide) long)
  have rest : 4 ≤ (bytes.drop 8).length := by
    rw [List.length_drop]
    exact Nat.le_sub_of_add_le long
  refine ⟨hdr,?_⟩
  rw [read,Reader.bind_run _ header,Reader.bind_run _ (u32_long _ rest),List.drop_drop]
  rfl

end Msg1

namespace Msg2

def bytes (msg : Msg2) : List UInt8 := msg.hdr.bytes ++ (u32Bytes msg.info1 ++ u32Bytes msg.info2)

def read : Reader Msg2 := do
  let hdr ← MsgHdr.read
  let info1 ← u32
  let info2 ← u32
  return ⟨hdr,info1,info2⟩

theorem read_bytes (msg : Msg2) (rest : List UInt8) : read (msg.bytes ++ rest) = some (msg,rest) := by
  rw [bytes,List.append_assoc,List.append_assoc,read,Reader.bind_run _ (MsgHdr.read_bytes _ _),
    Reader.bind_run _ (u32_encoded _ _),Reader.bind_run _ (u32_encoded _ _)]
  rfl

theorem bytes_length (msg : Msg2) : msg.bytes.length = sizeofMsg2 := by
  simp [bytes,MsgHdr.bytes,sizeofMsg2]

theorem takes : Takes sizeofMsg2 read :=
  MsgHdr.takes.bind fun _ => takes_u32.bind fun _ => takes_u32.bind fun _ => takes_pure _

end Msg2

namespace ThroughputReply

def bytes (reply : ThroughputReply) : List UInt8 :=
  u64Bytes reply.rxBytes ++ (u64Bytes reply.txBytes ++ (u64Bytes reply.reqCount ++ u64Bytes reply.duration))

def read : Reader ThroughputReply := do
  let rxBytes ← u64
  let txBytes ← u64
  let reqCount ← u64
  let duration ← u64
  return ⟨rxBytes,txBytes,reqCount,duration⟩

theorem read_bytes (reply : ThroughputReply) (rest : List UInt8) : read (reply.bytes ++ rest) = some (reply,rest) := by
  simp only [bytes,List.append_assoc]
  rw [read,Reader.bind_run _ (u64_encoded _ _),Reader.bind_run _ (u64_encoded _ _),
    Reader.bind_run _ (u64_encoded _ _),Reader.bind_run _ (u64_encoded _ _)]
  rfl

theorem bytes_length (reply : ThroughputReply) : reply.bytes.length = sizeofThroughputReply := by
  simp [bytes,sizeofThroughputReply]

theorem takes : Takes sizeofThroughputReply read :=
  takes_u64.bind fun _ => takes_u64.bind fun _ => takes_u64.bind fun _ => takes_u64.bind fun _ => takes_pure _

end ThroughputReply

namespace LatencyReply

def bytes (reply : LatencyReply) : List UInt8 :=
  reply.thData.bytes ++ (u64Bytes reply.avgLat ++
    (u64Bytes reply.p50I ++ (u64Bytes reply.p50 ++ (u64Bytes reply.p50K ++
    (u64Bytes reply.p90I ++ (u64Bytes reply.p90 ++ (u64Bytes reply.p90K ++
    (u64Bytes reply.p95I ++ (u64Bytes reply.p95 ++ (u64Bytes reply.p95K ++
    (u64Bytes reply.p99I ++ (u64Bytes reply.p99 ++ u64Bytes reply.p99K))))))))))))

def read : Reader LatencyReply := do
  let thData ← ThroughputReply.read
  let avgLat ← u64
  let p50I ← u64
  let p50 ← u64
  let p50K ← u64
  let p90I ← u64
  let p90 ← u64
  let p90K ← u64
  let p95I ← u64
  let p95 ← u64
  let p95K ← u64
  let p99I ← u64
  let p99 ← u64
  let p99K ← u64
  return ⟨thData,avgLat,p50I,p50,p50K,p90I,p90,p90K,p95I,p95,p95K,p99I,p99,p99K⟩

theorem read_bytes (reply : LatencyReply) (rest : List UInt8) : read (reply.bytes ++ rest) = some (reply,rest) := by
  simp only [bytes,List.append_assoc]
  rw [read,Reader.bind_run _ (ThroughputReply.read_bytes _ _)]
  iterate 13 rw [Reader.bind_run _ (u64_encoded _ _)]
  rfl

theorem bytes_length (reply : LatencyReply) : reply.bytes.length = sizeofLatencyReply := by
  simp [bytes,ThroughputReply.bytes_length,sizeofLatencyReply,sizeofThroughputReply]

theorem takes : Takes sizeofLatencyReply read :=
  ThroughputReply.takes.bind fun _ => takes_u64.bind fun _ => takes_u64.bind fun _ => takes_u64.bind fun _ =>
    takes_u64.bind fun _ => takes_u64.bind fun _ => takes_u64.bind fun _ => takes_u64.bind fun _ =>
    takes_u64.bind fun _ => takes_u64.bind fun _ => takes_u64.bind fun _ => takes_u64.bind fun _ =>
    takes_u64.bind fun _ => takes_u64.bind fun _ => takes_pure _

end LatencyReply

end Lancet.CoordProto
