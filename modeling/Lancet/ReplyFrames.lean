import Lancet.Foundation.Frames
import Lancet.ReplyStream

/-! The replies of an agent as a stream of messages. A reader that takes each `MessageLength`
as the number of bytes behind the header gets the messages back as long as there is no latency
report: the lengths of a latency message and of the correlation behind it are too small. -/
namespace Lancet.ReplyFrames
open Foundation Wire CoordProto Manager Agent ReplyStream

theorem hdr_present (hdr : MsgHdr) : hdr.bytes ≠ [] := by
  intro empty
  have length : hdr.bytes.length = 8 := by simp [MsgHdr.bytes]
  rw [empty] at length
  cases length

def msgFraming : Framing MsgHdr where
  encode := MsgHdr.bytes
  header := MsgHdr.read
  bodyLength hdr := hdr.messageLength.toNat
  encoded := MsgHdr.read_bytes
  present := hdr_present

abbrev Message := Frame MsgHdr

def msg1 (msg : Msg1) (payload : List UInt8) : Message := ⟨msg.hdr,u32Bytes msg.info ++ payload⟩

def msg2 (msg : Msg2) : Message := ⟨msg.hdr,u32Bytes msg.info1 ++ u32Bytes msg.info2⟩

theorem msg1_bytes (msg : Msg1) (payload : List UInt8) : (msg1 msg payload).bytes msgFraming = msg.bytes ++ payload := by
  rw [Msg1.bytes,List.append_assoc]
  rfl

theorem msg2_bytes (msg : Msg2) : (msg2 msg).bytes msgFraming = msg.bytes := rfl

theorem msg1_fits (msg : Msg1) (payload : List UInt8) :
    (msg1 msg payload).Fits msgFraming ↔ msg.hdr.messageLength.toNat = 4 + payload.length := by
  rw [Frame.Fits,msg1,List.length_append,u32Bytes_length]
  rfl

theorem msg2_fits (msg : Msg2) : (msg2 msg).Fits msgFraming ↔ msg.hdr.messageLength.toNat = 8 := by
  rw [Frame.Fits,msg2,List.length_append,u32Bytes_length,u32Bytes_length]
  rfl

def checksMessages (checks : NicChecks) : List Message :=
  [msg1 convergenceMsg (u32Bytes checks.convergence),msg1 iidMsg (u64Bytes checks.correlation),
    msg2 (iaCompMsg checks.iaComp)]

/-- The messages of a reply, one a header. -/
def messages : Reply → List Message
  | .ack => [msg1 ackMsg []]
  | .throughput data iaComp => msg1 throughputMsg data.bytes :: (iaComp.map (fun flag => msg2 (iaCompMsg flag))).toList
  | .latency data checks => msg1 latencyMsg data.bytes :: (checks.map checksMessages).getD []

theorem messages_bytes (reply : Reply) : (messages reply).flatMap (Frame.bytes msgFraming) = reply.bytes := by
  cases reply with
  | ack => simp [messages,msg1_bytes,Reply.bytes,Reply.iov]
  | throughput data iaComp =>
    cases iaComp <;> simp [messages,msg1_bytes,msg2_bytes,Reply.bytes,Reply.iov]
  | latency data checks =>
    cases checks <;> simp [messages,checksMessages,msg1_bytes,msg2_bytes,Reply.bytes,Reply.iov,checksIov]

def isLatency : Reply → Bool
  | .latency _ _ => true
  | _ => false

theorem messages_fit (reply : Reply) : (∀ message ∈ messages reply, message.Fits msgFraming) ↔ isLatency reply = false := by
  cases reply with
  | ack =>
    refine iff_of_true ?_ rfl
    intro message inside
    rw [List.mem_singleton.mp inside,msg1_fits]
    rfl
  | throughput data iaComp =>
    refine iff_of_true ?_ rfl
    have first : (msg1 throughputMsg data.bytes).Fits msgFraming := by
      rw [msg1_fits,ThroughputReply.bytes_length]
      rfl
    intro message inside
    rcases List.mem_cons.mp inside with rfl | later
    · exact first
    · obtain ⟨flag,-,rfl⟩ := Option.map_eq_some_iff.mp (Option.mem_toList.mp later)
      rw [msg2_fits]
      rfl
  | latency data checks =>
    refine iff_of_false ?_ Bool.true_eq_false_eq_False
    intro fit
    have first := fit _ List.mem_cons_self
    rw [msg1_fits,LatencyReply.bytes_length] at first
    cases first

/-- What an agent is asked for, with the values it answers. -/
inductive Report where
  | ack
  | throughput (data : ThroughputReply) (iaComp : UInt32)
  | latency (data : LatencyReply) (checks : NicChecks)
  deriving DecidableEq, Repr

def Report.reply (atype : AgentType) : Report → Reply
  | .ack => .ack
  | .throughput data iaComp => throughputOf atype data iaComp
  | .latency data checks => latencyOf atype data checks

def Report.isLatency : Report → Bool
  | .latency _ _ => true
  | _ => false

theorem reply_isLatency (atype : AgentType) (report : Report) :
    ReplyFrames.isLatency (report.reply atype) = report.isLatency := by
  cases report <;> rfl

/-- Every reply of the manager is written for one of the reports. -/
theorem handle_report {config : AgentConfig} {qsort : Qsort} {manager after : ManagerState} {now : Int}
    {reference : List UInt64} {message : Manager.Message} {reply : Reply}
    (handled : handle config qsort manager now reference message = .next (after,reply)) :
    ∃ report : Report, reply = report.reply config.atype := by
  cases message with
  | startLoad load =>
    obtain ⟨-,-,-,rfl⟩ := startLoad_next handled
    exact ⟨.ack,rfl⟩
  | startMeasure samples sampling =>
    obtain ⟨chosen,-,-,rfl⟩ := startMeasure_next handled
    exact ⟨.ack,rfl⟩
  | reportReq type =>
    rw [handle] at handled
    dsimp only at handled
    split at handled
    · obtain ⟨data,iaComp,rfl⟩ := replyThroughputStats_reply handled
      exact ⟨.throughput data iaComp,rfl⟩
    · split at handled
      · obtain ⟨data,checks,rfl⟩ := replyLatencyStats_reply handled
        exact ⟨.latency data checks,rfl⟩
      · cases handled

/-- The bytes an agent writes for some reports, and the messages they are. -/
def written (atype : AgentType) (reports : List Report) : List UInt8 :=
  reports.flatMap (fun report => (report.reply atype).bytes)

def writtenMessages (atype : AgentType) (reports : List Report) : List Message :=
  reports.flatMap (fun report => messages (report.reply atype))

theorem writtenMessages_bytes (atype : AgentType) (reports : List Report) :
    (writtenMessages atype reports).flatMap (Frame.bytes msgFraming) = written atype reports := by
  rw [writtenMessages,written,List.flatMap_assoc]
  simp only [messages_bytes]

/-- The messages are recovered exactly when no report is a latency report. -/
theorem unframe_written_iff (atype : AgentType) (reports : List Report) :
    unframe msgFraming (written atype reports) = some (writtenMessages atype reports) ↔
      ∀ report ∈ reports, report.isLatency = false := by
  rw [← writtenMessages_bytes,unframe_iff]
  constructor
  · intro fit report asked
    rw [← reply_isLatency atype,← messages_fit]
    intro message inside
    exact fit message (List.mem_flatMap.mpr ⟨report,asked,inside⟩)
  · intro unfailed message inside
    obtain ⟨report,asked,inside'⟩ := List.mem_flatMap.mp inside
    have other := unfailed report asked
    rw [← reply_isLatency atype,← messages_fit] at other
    exact other message inside'

/-- A latency report of zeros, by an agent without NIC timestamps. -/
theorem latency_report_desynchronises :
    unframe msgFraming (written .latencyAgent [.ack,.latency ⟨⟨0,0,0,0⟩,0,0,0,0,0,0,0,0,0,0,0,0,0⟩ ⟨0,0,0⟩]) ≠
      some (writtenMessages .latencyAgent [.ack,.latency ⟨⟨0,0,0,0⟩,0,0,0,0,0,0,0,0,0,0,0,0,0⟩ ⟨0,0,0⟩]) := by
  rw [← writtenMessages_bytes,Ne,unframe_iff]
  intro fit
  have latency := fit (msg1 latencyMsg (LatencyReply.bytes ⟨⟨0,0,0,0⟩,0,0,0,0,0,0,0,0,0,0,0,0,0⟩)) (by
    rw [writtenMessages,List.flatMap_cons,List.flatMap_cons]
    exact List.mem_append_right _ List.mem_cons_self)
  rw [msg1_fits,LatencyReply.bytes_length] at latency
  cases latency

end Lancet.ReplyFrames
