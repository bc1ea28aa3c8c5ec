import Lancet.NicRing

/-! Transmit times of the agent with NIC timestamps. The kernel reports one time for each
segment, possibly long after the answer to its requests. -/
namespace Lancet.NicTimestamps
open Foundation Timestamping Stats AppProto TpTcp TcpHistory NicRing

variable {conns : Nat}

/-- The attempt sends a request on the connection. -/
def Sends (thread : Thread conns) (attempt : SendAttempt conns) (idx : Fin conns) : Prop :=
  (attempt.again = true ∨ thread.availReqs ≠ 0) ∧ 0 ≤ attempt.now - thread.nextTx ∧
    pickConn thread attempt.draws = some idx

/-- A report of the kernel is about bytes that were sent, after those of every earlier report. -/
def Genuine (idx : Fin conns) (log : List (Event conns × Effect conns)) : List Cmsg → Prop
  | [.timestamping time,.ipRecverr true id] =>
    time.tvSec ≠ 0 ∧ id.toNat < offset (requests idx log) (requests idx log).length ∧
      ∀ report ∈ reports idx log, report.2 < id
  | _ => False

instance (idx : Fin conns) (log : List (Event conns × Effect conns)) (cmsgs : List Cmsg) :
    Decidable (Genuine idx log cmsgs) := by
  unfold Genuine
  split <;> infer_instance

/-- What is assumed of the server and the kernel on one connection: fewer than 2^32 bytes are
sent, answers come in whole and in order, and the reports are genuine. -/
def Nic (proto : ApplicationProtocol) (idx : Fin conns) : Machine.Environment (Thread conns) (Event conns) (Effect conns) :=
  fun log thread event => match event with
    | .send attempt => Sends thread attempt idx → 0 < attempt.bytesToSend ∧
      offset (requests idx log) (requests idx log).length + attempt.bytesToSend < 2^32
    | .epollIn other recv _ => other = idx → match recv with
      | .bytes data => Delivers proto log thread idx data
      | .error _ => False
    | .txReport other cmsgs => other = idx → Genuine idx log cmsgs
    | .idle _ | .epollErr _ | .epollHup _ | .epollOther _ => True

/-- Every request is sent while fewer requests than slots wait for a report. -/
def NicRoom (proto : ApplicationProtocol) (idx : Fin conns) :
    Machine.Environment (Thread conns) (Event conns) (Effect conns) :=
  fun log thread event => Nic proto idx log thread event ∧ match event with
    | .send attempt => Sends thread attempt idx →
      (thread.perConnTxTimestamps idx).head.toNat < (thread.perConnTxTimestamps idx).tail.toNat + maxPendingReqs
    | _ => True

instance (thread : Thread conns) (attempt : SendAttempt conns) (idx : Fin conns) : Decidable (Sends thread attempt idx) :=
  inferInstanceAs (Decidable (_ ∧ _ ∧ _))

instance decidableNic (proto : ApplicationProtocol) (idx : Fin conns) (log : List (Event conns × Effect conns))
    (thread : Thread conns) : (event : Event conns) → Decidable (Nic proto idx log thread event)
  | .send _ => inferInstanceAs (Decidable (_ → _ ∧ _))
  | .epollIn _ (.bytes data) _ => inferInstanceAs (Decidable (_ → Delivers proto log thread idx data))
  | .epollIn _ (.error _) _ => inferInstanceAs (Decidable (_ → False))
  | .txReport _ cmsgs => inferInstanceAs (Decidable (_ → Genuine idx log cmsgs))
  | .idle _ | .epollErr _ | .epollHup _ | .epollOther _ => isTrue trivial

instance decidableNicRoom (proto : ApplicationProtocol) (idx : Fin conns) (log : List (Event conns × Effect conns))
    (thread : Thread conns) : (event : Event conns) → Decidable (NicRoom proto idx log thread event)
  | .send _ => inferInstanceAs (Decidable (_ ∧ (_ → _)))
  | .epollIn _ _ _ | .txReport _ _ | .idle _ | .epollErr _ | .epollHup _ | .epollOther _ =>
    inferInstanceAs (Decidable (_ ∧ True))

section Answering

variable {sent : List (SendAttempt conns)} {done queued : List Report} {low : Nat} {ring : PendingTxTimestamps}

/-- Reading one report, or finding none, keeps the ring matched. -/
theorem readTxReport_spec {thread : Thread conns} {idx : Fin conns}
    (tracked : Tracked sent done queued low (thread.perConnTxTimestamps idx))
    (queue : thread.errQueue idx = queued.map message) (bounded : offset sent sent.length < 2^32) :
    ∃ after calls, readTxReport thread idx = .next (after,calls) ∧ after.connections = thread.connections ∧
      (∃ done' queued', done' ++ queued' = done ++ queued ∧ after.errQueue idx = queued'.map message ∧
        Tracked sent done' queued' low (after.perConnTxTimestamps idx)) ∧
      (after.perConnTxTimestamps idx).consumed = (thread.perConnTxTimestamps idx).consumed ∧
      ∀ diff tx, .latency diff tx ∉ calls := by
  cases queued with
  | nil =>
    refine ⟨thread,[],readTxReport_quiet queue,rfl,⟨done,[],rfl,queue,tracked⟩,rfl,fun _ _ => List.not_mem_nil⟩
  | cons report rest =>
    obtain ⟨tx,read,after,consumed⟩ := tracked.read bounded thread.receivedOpid
    have head : (thread.errQueue idx).head? = some (message report) := by rw [queue]; rfl
    have tail : (thread.errQueue idx).tail = rest.map message := by rw [queue]; rfl
    refine ⟨{setRing thread idx tx.ring with
      receivedOpid := tx.receivedOpid
      errQueue := Function.update thread.errQueue idx (thread.errQueue idx).tail},tx.recorded.map .txTimestamp,
      ?_,rfl,⟨done ++ [report],rest,shift_report done rest report,?_,?_⟩,?_,?_⟩
    · simp only [readTxReport,head,read,Outcome.next_bind]
      rfl
    · simp only [Function.update_self,tail]
    · simp only [setRing,Function.update_self]
      exact after
    · simp only [setRing,Function.update_self]
      exact consumed
    · intro diff time member
      obtain ⟨_,_,equal⟩ := List.mem_map.mp member
      cases equal

structure Matching (sent : List (SendAttempt conns)) (all : List Report) (low : Nat) (idx : Fin conns)
    (before after : Thread conns) (tx : Option Timespec) : Prop where
  connections : after.connections = before.connections
  tracked : ∃ done queued, done ++ queued = all ∧ after.errQueue idx = queued.map message ∧
    Tracked sent done queued (low + 1) (after.perConnTxTimestamps idx)
  consumed : (after.perConnTxTimestamps idx).consumed.toNat = low + 1
  reported : ∀ time, tx = some time → ∃ report, covering endOf all (ends sent low) = some report ∧ time = report.1

theorem matching_step {all : List Report} {thread : Thread conns} {idx : Fin conns}
    (tracked : Tracked sent done queued low ring) (split : done ++ queued = all)
    (queue : thread.errQueue idx = queued.map message) (consumed : ring.consumed.toNat = low)
    (asked : low < sent.length) (bounded : sent.length < 2^32) (tx : Option Timespec)
    (reported : ∀ time, tx = some time → ∃ report, covering endOf all (ends sent low) = some report ∧ time = report.1) :
    Matching sent all low idx thread (setRing thread idx {ring with consumed := ring.consumed + 1}) tx := by
  refine ⟨rfl,⟨done,queued,split,queue,?_⟩,?_,reported⟩
  · simp only [setRing,Function.update_self]
    exact tracked.forget (Nat.le_succ _) asked _
  · simp only [setRing,Function.update_self]
    rw [toNat_succ (by rw [consumed]; omega),consumed]

theorem matchNicTimestamp_spec {thread : Thread conns} {idx : Fin conns} {answers reqs : Nat}
    (tracked : Tracked sent done queued answers (thread.perConnTxTimestamps idx))
    (queue : thread.errQueue idx = queued.map message) (bounded : offset sent sent.length < 2^32)
    (consumed : (thread.perConnTxTimestamps idx).consumed.toNat = answers) (positive : 0 < reqs)
    (asked : answers + reqs ≤ sent.length) :
    ∃ after tx calls, matchNicTimestamp thread idx reqs = .next (after,tx,calls) ∧
      Matching sent (done ++ queued) (answers + reqs - 1) idx thread after tx ∧ ∀ diff tx, .latency diff tx ∉ calls := by
  have total := tracked.total bounded
  obtain ⟨skipped,position⟩ := skipBatch_consumed (thread.perConnTxTimestamps idx) reqs positive (by rw [consumed]; omega)
  generalize skip : (thread.perConnTxTimestamps idx).consumed + UInt32.ofNat (reqs - 1) = last at skipped position
  rw [consumed,← Nat.add_sub_assoc positive] at position
  have low : answers + reqs - 1 < sent.length := by omega
  have reached := tracked.forget (show answers ≤ answers + reqs - 1 by omega) (Nat.le_of_lt low) last
  obtain ⟨info,popped,reported⟩ := reached.pop position low
  cases info with
  | some found =>
    refine ⟨_,some found.time,[],?_,matching_step reached rfl queue position low total _ ?_,fun _ _ => List.not_mem_nil⟩
    · simp only [matchNicTimestamp,skipped,popped,Outcome.next_bind]
      rfl
    · intro time same
      cases same
      exact reported found rfl
  | none =>
    let waiting := setRing thread idx {thread.perConnTxTimestamps idx with consumed := last}
    have ring : waiting.perConnTxTimestamps idx = {thread.perConnTxTimestamps idx with consumed := last} :=
      Function.update_self _ _ _
    obtain ⟨middle,calls,read,connections,⟨done',queued',split,queue',tracked'⟩,kept,silent⟩ :=
      @readTxReport_spec _ _ _ _ _ waiting idx (by rw [ring]; exact reached) queue bounded
    have position' : (middle.perConnTxTimestamps idx).consumed.toNat = answers + reqs - 1 := by
      rw [kept,ring]
      exact position
    obtain ⟨info,popped',reported'⟩ := tracked'.pop position' low
    have parked : setRing thread idx (advanceOn none {thread.perConnTxTimestamps idx with consumed := last}) = waiting :=
      rfl
    cases info with
    | some found =>
      obtain ⟨_,after,consumed',timed⟩ := matching_step tracked' split queue' position' low total (some found.time) (by
        intro time same
        cases same
        rw [← split]
        exact reported' found rfl)
      have matched : matchNicTimestamp thread idx reqs = .next (setRing middle idx
          {middle.perConnTxTimestamps idx with consumed := (middle.perConnTxTimestamps idx).consumed + 1},some found.time,calls) := by
        simp only [matchNicTimestamp,skipped,popped,Outcome.next_bind,parked,read,popped']
        rfl
      exact ⟨_,_,calls,matched,⟨connections,after,consumed',timed⟩,silent⟩
    | none =>
      obtain ⟨_,after,consumed',timed⟩ := matching_step tracked' split queue' position' low total none (by
        intro time same
        cases same)
      have matched : matchNicTimestamp thread idx reqs = .next (setRing middle idx
          {middle.perConnTxTimestamps idx with consumed := (middle.perConnTxTimestamps idx).consumed + 1},none,calls) := by
        simp only [matchNicTimestamp,skipped,popped,Outcome.next_bind,parked,read,popped']
        rfl
      exact ⟨_,_,calls,matched,⟨connections,after,consumed',timed⟩,silent⟩

end Answering

structure Attached (idx : Fin conns) (log : List (Event conns × Effect conns)) (thread : Thread conns)
    (done queued : List Report) : Prop where
  split : reports idx log = done ++ queued
  queue : thread.errQueue idx = queued.map message
  tracked : Tracked (requests idx log) done queued (answered idx log) (thread.perConnTxTimestamps idx)
  consumed : (thread.perConnTxTimestamps idx).consumed.toNat = answered idx log
  credit : answered idx log + (thread.connections idx).pendingReqs.toNat = (requests idx log).length
  emptied : (thread.connections idx).bufferIdx = 0
  bounded : offset (requests idx log) (requests idx log).length < 2^32

theorem attached_initially (now : Int) (idx : Fin conns) : Attached idx [] (throughputOpenConnections conns now) [] [] where
  split := rfl
  queue := rfl
  tracked := ⟨⟨fun _ member => absurd member List.not_mem_nil,.nil,fun _ member => absurd member List.not_mem_nil,
      fun _ member => absurd member List.not_mem_nil,.initially _⟩,
    ⟨rfl,Nat.le_refl _,Nat.zero_le _,Nat.le_refl _,Nat.zero_le _,.empty (Nat.le_refl _),.empty (Nat.le_refl _)⟩,rfl⟩
  consumed := rfl
  credit := rfl
  emptied := rfl
  bounded := (by decide : 0 < 2^32)

section Steps

variable {proto : ApplicationProtocol} {log : List (Event conns × Effect conns)} {before after : Thread conns}
  {idx chosen : Fin conns} {effect : Effect conns} {done queued : List Report}

/-- A step about other connections. -/
theorem Attached.frame (attached : Attached idx log before done queued) {event : Event conns}
    (silent : requestOf idx (event,effect) = none) (unanswered : answeredBy idx (event,effect) = 0)
    (unreported : reportOf idx (event,effect) = none)
    (conn : after.connections idx = {before.connections idx with closed := (after.connections idx).closed})
    (ring : after.perConnTxTimestamps idx = before.perConnTxTimestamps idx)
    (same : after.errQueue idx = before.errQueue idx) :
    Attached idx (log ++ [(event,effect)]) after done queued := by
  obtain ⟨split,queue,tracked,consumed,credit,emptied,bounded⟩ := attached
  have sameReports : reports idx (log ++ [(event,effect)]) = reports idx log := by
    rw [reports_snoc,unreported,Option.toList_none,List.append_nil]
  have sameRequests : requests idx (log ++ [(event,effect)]) = requests idx log := by
    rw [requests_snoc,silent,Option.toList_none,List.append_nil]
  have sameAnswers : answered idx (log ++ [(event,effect)]) = answered idx log := by
    rw [answered_snoc,unanswered,Nat.add_zero]
  constructor
  · rw [sameReports,split]
  · rw [same,queue]
  · rw [sameRequests,sameAnswers,ring]
    exact tracked
  · rw [sameAnswers,ring,consumed]
  · rw [sameRequests,sameAnswers,conn]
    exact credit
  · rw [conn]
    exact emptied
  · rw [sameRequests]
    exact bounded

theorem Attached.send (attached : Attached idx log before done queued) {attempt : SendAttempt conns}
    (allowed : NicRoom proto idx log before (.send attempt))
    (stepped : (symmetricNicTcpMain proto).step before (.send attempt) = .next (after,effect)) :
    Attached idx (log ++ [(.send attempt,effect)]) after done queued := by
  have taken : (if !attempt.again && before.availReqs = 0 then .next (before,{calls := []})
      else sendPath (fun ring => (addPendingTxTimestamp ring (UInt32.ofNat attempt.bytesToSend),[])) before attempt) =
      Outcome.next (after,effect) := stepped
  split at taken
  next =>
    cases taken
    exact attached.frame rfl rfl rfl rfl rfl rfl
  next available =>
    obtain ⟨rfl,rfl⟩ | ⟨chosen,picked,due,_,rfl,sent⟩ := sendPath_cases taken
    · exact attached.frame rfl rfl rfl rfl rfl rfl
    · by_cases same : chosen = idx
      · subst same
        have sends : Sends before attempt chosen := by
          refine ⟨?_,due,picked⟩
          simp only [Bool.and_eq_true,Bool.not_eq_true',decide_eq_true_eq,not_and_or,Bool.not_eq_false] at available
          exact available
        obtain ⟨positive,fewer⟩ := allowed.1 sends
        have room := allowed.2 sends
        rw [attached.tracked.slots.head] at room
        have gate := pickConn_some picked
        have credit := attached.credit
        have tracked := attached.tracked.send attempt positive fewer room (by omega)
        have sameReports : reports chosen (log ++ [(.send attempt,effect)]) = reports chosen log := by
          rw [reports_snoc]
          exact List.append_nil _
        have newRequests : requests chosen (log ++ [(.send attempt,effect)]) = requests chosen log ++ [attempt] := by
          rw [requests_snoc,requestOf,sent]
          simp
        have sameAnswers : answered chosen (log ++ [(.send attempt,effect)]) = answered chosen log := by
          rw [answered_snoc,sent]
          rfl
        have credited : ((before.connections chosen).pendingReqs + 1).toNat =
            (before.connections chosen).pendingReqs.toNat + 1 := by
          rw [UInt16.toNat_add,UInt16.toNat_one]
          exact Nat.mod_eq_of_lt (by unfold maxPendingReqs at gate; omega)
        constructor
        · rw [sameReports,attached.split]
        · exact attached.queue
        · rw [newRequests,sameAnswers]
          simpa [creditSend] using tracked
        · rw [sameAnswers]
          simpa [creditSend,addPendingTxTimestamp] using attached.consumed
        · rw [newRequests,sameAnswers,List.length_append,List.length_singleton,← credit]
          simp only [creditSend,Function.update_self,credited,Nat.add_assoc]
        · simpa [creditSend] using attached.emptied
        · rw [newRequests,offset_append]
          exact fewer
      · have other : idx ≠ chosen := fun equal => same equal.symm
        apply attached.frame
        · simp [requestOf,sent,same]
        · rw [sent]
          rfl
        · rfl
        · simp [creditSend,other]
        · simp [creditSend,other]
        · rfl

theorem readTxReport_frame {calls : List StatsCall} (read : readTxReport before chosen = .next (after,calls)) :
    after.connections = before.connections ∧ ∀ other, other ≠ chosen →
      after.perConnTxTimestamps other = before.perConnTxTimestamps other ∧
      after.errQueue other = before.errQueue other := by
  obtain ⟨tx,_,returned⟩ := Outcome.bind_next read
  cases returned
  exact ⟨rfl,fun other different => by simp [setRing,different]⟩

theorem matchNicTimestamp_frame {reqs : Nat} {tx : Option Timespec} {calls : List StatsCall}
    (matched : matchNicTimestamp before chosen reqs = .next (after,tx,calls)) :
    after.connections = before.connections ∧ ∀ other, other ≠ chosen →
      after.perConnTxTimestamps other = before.perConnTxTimestamps other ∧
      after.errQueue other = before.errQueue other := by
  obtain ⟨⟨ring,info⟩,_,rest⟩ := Outcome.bind_next matched
  cases info with
  | some found =>
    cases rest
    exact ⟨rfl,fun other different => by simp [setRing,different]⟩
  | none =>
    obtain ⟨⟨middle,read⟩,reading,rest⟩ := Outcome.bind_next rest
    obtain ⟨connections,others⟩ := readTxReport_frame reading
    obtain ⟨⟨ring',info⟩,_,rest⟩ := Outcome.bind_next rest
    cases info with
    | some found =>
      cases rest
      exact ⟨connections,fun other different => by
        obtain ⟨rings,queues⟩ := others other different
        exact ⟨by simpa [setRing,different] using rings,queues⟩⟩
    | none =>
      cases rest
      exact ⟨connections,fun other different => by
        obtain ⟨rings,queues⟩ := others other different
        exact ⟨by simpa [setRing,different] using rings,queues⟩⟩

/-- A reply finds the report of the last request it answers, or records no sample. -/
theorem Attached.reply (attached : Attached idx log before done queued) {data : List UInt8} (rx : Timespec)
    (delivers : Delivers proto log before idx data) (nonempty : data ≠ []) :
    ∃ after tx calls, (symmetricNicTcpMain proto).step before (.epollIn idx (.bytes data) rx) = .next (after,
        {calls := calls ++ nicSample rx tx ++ [.throughputRx (Consumed.toPair ⟨data.length,data.length / proto.size⟩)]
         answered := some (idx,data.length / proto.size)}) ∧
      Matching (requests idx log) (reports idx log) (answered idx log + data.length / proto.size - 1) idx
        (creditResponses before idx (answeredConn (before.connections idx) data (data.length / proto.size))
          ⟨data.length,data.length / proto.size⟩) after tx ∧
      ∀ diff time, .latency diff time ∉ calls := by
  obtain ⟨split,queue,tracked,consumed,credit,emptied,bounded⟩ := attached
  have received := receive_whole false proto (before.connections idx) data (data.length / proto.size) emptied
    (delivers.fits emptied) nonempty delivers.whole
  obtain ⟨after,tx,calls,matched,matching,silent⟩ := @matchNicTimestamp_spec _ _ _ _
    (creditResponses before idx (answeredConn (before.connections idx) data (data.length / proto.size))
      ⟨data.length,data.length / proto.size⟩) idx _ (data.length / proto.size) tracked queue bounded consumed
    (delivers.positive nonempty) delivers.2.2
  refine ⟨after,tx,calls,?_,split ▸ matching,silent⟩
  simp only [symmetricNicTcpMain,received,Outcome.next_bind,matched]
  rfl

theorem Attached.answer (attached : Attached idx log before done queued) {data : List UInt8} {rx : Timespec}
    (delivers : Delivers proto log before idx data)
    (stepped : (symmetricNicTcpMain proto).step before (.epollIn idx (.bytes data) rx) = .next (after,effect)) :
    ∃ done queued, Attached idx (log ++ [(.epollIn idx (.bytes data) rx,effect)]) after done queued := by
  by_cases nonempty : data = []
  · subst nonempty
    cases stepped
    refine ⟨done,queued,attached.frame rfl rfl rfl ?_ rfl rfl⟩
    simp [setConnection]
  · obtain ⟨final,tx,calls,taken,matching,_⟩ := attached.reply rx delivers nonempty
    rw [taken] at stepped
    obtain ⟨same,effects⟩ := Prod.mk.inj (Outcome.next.inj stepped)
    subst same
    obtain ⟨connections,⟨done',queued',split,queue,tracked⟩,consumed,_⟩ := matching
    have positive := delivers.positive nonempty
    have sameReports : reports idx (log ++ [(.epollIn idx (.bytes data) rx,effect)]) = reports idx log := by
      rw [reports_snoc]
      exact List.append_nil _
    have sameRequests : requests idx (log ++ [(.epollIn idx (.bytes data) rx,effect)]) = requests idx log := by
      rw [requests_snoc]
      exact List.append_nil _
    have moreAnswers : answered idx (log ++ [(.epollIn idx (.bytes data) rx,effect)]) =
        answered idx log + data.length / proto.size := by
      rw [answered_snoc,answeredBy,← effects]
      simp
    have count : answered idx log + data.length / proto.size - 1 + 1 = answered idx log + data.length / proto.size := by
      omega
    have small : data.length / proto.size ≤ (before.connections idx).pendingReqs.toNat := by
      have credit := attached.credit
      have asked := delivers.2.2
      omega
    refine ⟨done',queued',?_,queue,?_,?_,?_,?_,?_⟩
    · rw [sameReports,split]
    · rw [sameRequests,moreAnswers,← count]
      exact tracked
    · rw [moreAnswers,← count]
      exact consumed
    · rw [sameRequests,moreAnswers,connections,← attached.credit]
      simp only [creditResponses,setConnection,Function.update_self,answeredConn_pending data small]
      omega
    · rw [connections]
      simp [creditResponses,setConnection,answeredConn]
    · rw [sameRequests]
      exact attached.bounded

/-- A reply on another connection. -/
theorem Attached.elsewhere (attached : Attached idx log before done queued) {recv : Recv} {rx : Timespec}
    (different : idx ≠ chosen)
    (stepped : (symmetricNicTcpMain proto).step before (.epollIn chosen recv rx) = .next (after,effect)) :
    Attached idx (log ++ [(.epollIn chosen recv rx,effect)]) after done queued := by
  obtain ⟨received,_,handled⟩ := Outcome.bind_next stepped
  cases received with
  | closed conn =>
    cases handled
    apply attached.frame rfl rfl rfl
    · simp [setConnection,different]
    · rfl
    · rfl
  | responses conn readRes =>
    obtain ⟨⟨final,tx,calls⟩,matched,handled⟩ := Outcome.bind_next handled
    obtain ⟨connections,others⟩ := matchNicTimestamp_frame matched
    obtain ⟨rings,queues⟩ := others idx different
    cases handled
    apply attached.frame rfl
    · simp [answeredBy,different.symm]
    · rfl
    · rw [connections]
      simp [creditResponses,setConnection,different]
    · exact rings
    · exact queues

theorem Attached.errorQueue (attached : Attached idx log before done queued)
    (stepped : (symmetricNicTcpMain proto).step before (.epollErr chosen) = .next (after,effect)) :
    ∃ done queued, Attached idx (log ++ [(.epollErr chosen,effect)]) after done queued := by
  obtain ⟨⟨final,calls⟩,read,returned⟩ := Outcome.bind_next stepped
  cases returned
  by_cases same : idx = chosen
  · subst same
    obtain ⟨_,_,read',connections,⟨done',queued',split,queue,tracked⟩,consumed,_⟩ :=
      readTxReport_spec attached.tracked attached.queue attached.bounded
    rw [read] at read'
    cases read'
    have sameReports : reports idx (log ++ [(.epollErr idx,{calls := calls})]) = reports idx log := by
      rw [reports_snoc]
      exact List.append_nil _
    have sameRequests : requests idx (log ++ [(.epollErr idx,{calls := calls})]) = requests idx log := by
      rw [requests_snoc]
      exact List.append_nil _
    have sameAnswers : answered idx (log ++ [(.epollErr idx,{calls := calls})]) = answered idx log := by
      rw [answered_snoc]
      rfl
    refine ⟨done',queued',?_,queue,?_,?_,?_,?_,?_⟩
    · rw [sameReports,attached.split,split]
    · rw [sameRequests,sameAnswers]
      exact tracked
    · rw [sameAnswers,consumed]
      exact attached.consumed
    · rw [sameRequests,sameAnswers,connections]
      exact attached.credit
    · rw [connections]
      exact attached.emptied
    · rw [sameRequests]
      exact attached.bounded
  · obtain ⟨connections,others⟩ := readTxReport_frame read
    obtain ⟨rings,queues⟩ := others idx same
    exact ⟨done,queued,attached.frame rfl rfl rfl (by rw [connections]) rings queues⟩

theorem Attached.txReport (attached : Attached idx log before done queued) {cmsgs : List Cmsg}
    (allowed : Nic proto idx log before (.txReport chosen cmsgs)) :
    ∃ done queued, Attached idx (log ++ [(.txReport chosen cmsgs,{calls := []})]) (queueReport before chosen cmsgs)
      done queued := by
  by_cases same : chosen = idx
  · subst same
    have valid : Genuine chosen log cmsgs := allowed rfl
    have sameRequests : requests chosen (log ++ [(.txReport chosen cmsgs,{calls := []})]) = requests chosen log := by
      rw [requests_snoc]
      exact List.append_nil _
    have sameAnswers : answered chosen (log ++ [(.txReport chosen cmsgs,{calls := []})]) = answered chosen log := by
      rw [answered_snoc]
      rfl
    unfold Genuine at valid
    split at valid
    next time id =>
      obtain ⟨hardware,inside,later⟩ := valid
      rw [attached.split] at later
      refine ⟨done,queued ++ [(time,id)],?_,?_,?_,?_,?_,attached.emptied,?_⟩
      · rw [reports_snoc,attached.split,reportOf,if_pos rfl,List.append_assoc]
        rfl
      · simp [queueReport,attached.queue,message]
      · rw [sameRequests,sameAnswers]
        exact attached.tracked.report hardware inside later
      · rw [sameAnswers]
        exact attached.consumed
      · rw [sameRequests,sameAnswers]
        exact attached.credit
      · rw [sameRequests]
        exact attached.bounded
    next => exact absurd valid id
  · refine ⟨done,queued,attached.frame rfl rfl ?_ rfl rfl ?_⟩
    · unfold reportOf
      split
      next found =>
        cases found
        rw [if_neg same]
      next => rfl
    · have other : idx ≠ chosen := fun equal => same equal.symm
      simp [queueReport,other]

end Steps

theorem attached_run {proto : ApplicationProtocol} {idx : Fin conns} {now : Int}
    {log : List (Event conns × Effect conns)} {thread : Thread conns}
    (run : (symmetricNicTcpMain proto).Run (NicRoom proto idx) (throughputOpenConnections conns now) log thread) :
    ∃ done queued, Attached idx log thread done queued := by
  induction run with
  | nil => exact ⟨[],[],attached_initially now idx⟩
  | @snoc log before after event effect past allowed stepped ih =>
    obtain ⟨done,queued,attached⟩ := ih
    cases event with
    | idle now =>
      cases stepped
      exact ⟨done,queued,attached.frame rfl rfl rfl rfl rfl rfl⟩
    | send attempt => exact ⟨done,queued,attached.send allowed stepped⟩
    | epollIn chosen recv rx =>
      by_cases same : chosen = idx
      · subst same
        have valid := allowed.1 rfl
        split at valid
        next data => exact attached.answer valid stepped
        next => exact absurd valid id
      · exact ⟨done,queued,attached.elsewhere (fun equal => same equal.symm) stepped⟩
    | epollErr chosen => exact attached.errorQueue stepped
    | epollHup chosen => cases stepped
    | epollOther chosen =>
      cases stepped
      exact ⟨done,queued,attached.frame rfl rfl rfl rfl rfl rfl⟩
    | txReport chosen cmsgs =>
      cases stepped
      exact attached.txReport allowed.1

/-- Every sample of a reply subtracts the time of the segment with the last byte of the last
request the reply answers. -/
def Attributed (proto : ApplicationProtocol) (idx : Fin conns) (log : List (Event conns × Effect conns))
    (data : List UInt8) (rx : Timespec) (effect : Effect conns) : Prop :=
  ∀ diff tx, .latency diff tx ∈ effect.calls → ∃ report,
    covering endOf (reports idx log) (ends (requests idx log) (answered idx log + data.length / proto.size - 1)) =
      some report ∧ .latency diff tx ∈ nicSample rx (some report.1)

theorem nicSample_some {rx : Timespec} {tx : Option Timespec} {call : StatsCall} (sampled : call ∈ nicSample rx tx) :
    ∃ time, tx = some time := by
  cases tx with
  | none => exact absurd sampled (by simp [nicSample,timespecDiff])
  | some time => exact ⟨time,rfl⟩

theorem nic_timestamps (proto : ApplicationProtocol) (idx : Fin conns) (now : Int)
    {log : List (Event conns × Effect conns)} {thread after : Thread conns} {data : List UInt8} {rx : Timespec}
    {effect : Effect conns}
    (run : (symmetricNicTcpMain proto).Run (NicRoom proto idx) (throughputOpenConnections conns now) log thread)
    (delivers : Delivers proto log thread idx data)
    (stepped : (symmetricNicTcpMain proto).step thread (.epollIn idx (.bytes data) rx) = .next (after,effect)) :
    Attributed proto idx log data rx effect := by
  obtain ⟨done,queued,attached⟩ := attached_run run
  intro diff tx member
  by_cases nonempty : data = []
  · subst nonempty
    cases stepped
    exact absurd member List.not_mem_nil
  · obtain ⟨final,found,calls,taken,matching,silent⟩ := attached.reply rx delivers nonempty
    rw [taken] at stepped
    cases stepped
    have sampled : .latency diff tx ∈ nicSample rx found := by
      simpa [silent] using member
    obtain ⟨time,known⟩ := nicSample_some sampled
    obtain ⟨report,covers,same⟩ := matching.reported time known
    exact ⟨report,covers,by rw [← same,← known]; exact sampled⟩

def sendOne : Event 1 := .send ⟨0,false,fun _ => 0,.zero,1,.bytes 1,0⟩

def report (second : Int) (id : UInt32) : Event 1 := .txReport 0 (message (⟨second,0⟩,id))

def answersOf (count : Nat) : Event 1 := .epollIn 0 (.bytes (List.replicate count 35)) ⟨9,0⟩

/-- Sixteen requests are answered before the report about them is read, and three more are
sent; the last two of these share a segment. -/
def overtaken : List (Event 1) :=
  List.replicate 16 sendOne ++ [answersOf 16] ++ List.replicate 3 sendOne ++
    [report 1 15,report 2 16,report 3 18,.epollErr 0,.epollErr 0,.epollErr 0]

def misattributes : Option (List (Event 1 × Effect 1) × Thread 1) → Bool
  | some (log,thread) =>
    match (symmetricNicTcpMain (.echo 1)).step thread (answersOf 1) with
    | .next (_,effect) => Delivers (.echo 1) log thread 0 [35] &&
      StatsCall.latency 6000000000 (some ⟨3,0⟩) ∈ effect.calls &&
      covering endOf (reports 0 log) (ends (requests 0 log) (answered 0 log + 1 - 1)) = some (⟨2,0⟩,16)
    | _ => false
  | none => false

theorem overtaken_misattributes : misattributes ((symmetricNicTcpMain (.echo 1)).follow
    (fun log thread event => Nic (.echo 1) 0 log thread event) [] (throughputOpenConnections 1 0) overtaken) = true := by
  decide +kernel

/-- The answer to the seventeenth request is timed with the report about the nineteenth. -/
theorem nic_timestamps_fails : ∃ (log : List (Event 1 × Effect 1)) (thread after : Thread 1) (effect : Effect 1),
    (symmetricNicTcpMain (.echo 1)).Run (Nic (.echo 1) 0) (throughputOpenConnections 1 0) log thread ∧
      Delivers (.echo 1) log thread 0 [35] ∧
      (symmetricNicTcpMain (.echo 1)).step thread (.epollIn 0 (.bytes [35]) ⟨9,0⟩) = .next (after,effect) ∧
      ¬ Attributed (.echo 1) 0 log [35] ⟨9,0⟩ effect := by
  have checked := overtaken_misattributes
  cases followed : (symmetricNicTcpMain (.echo 1)).follow (fun log thread event => Nic (.echo 1) 0 log thread event) []
      (throughputOpenConnections 1 0) overtaken with
  | none =>
    rw [followed] at checked
    cases checked
  | some result =>
    obtain ⟨log,thread⟩ := result
    rw [followed,misattributes] at checked
    have run := Machine.follow_run (fun _ _ _ allowed => of_decide_eq_true allowed) overtaken .nil followed
    cases stepped : (symmetricNicTcpMain (.echo 1)).step thread (answersOf 1) with
    | next result =>
      obtain ⟨after,effect⟩ := result
      rw [stepped] at checked
      simp only [Bool.and_eq_true,decide_eq_true_eq] at checked
      obtain ⟨⟨delivers,sampled⟩,covers⟩ := checked
      refine ⟨log,thread,after,effect,run,delivers,stepped,?_⟩
      intro attributed
      obtain ⟨found,covering,timed⟩ := attributed _ _ sampled
      have first : some found = some (⟨2,0⟩,16) := covering.symm.trans covers
      cases first
      exact absurd timed (by decide +kernel)
    | halt =>
      rw [stepped] at checked
      cases checked
    | fault =>
      rw [stepped] at checked
      cases checked

/-- Three requests, of which the last two share a report; the first two are answered at once. -/
theorem nic_timestamps_batch : ∃ (log : List (Event 1 × Effect 1)) (thread after : Thread 1) (effect : Effect 1),
    (symmetricNicTcpMain (.echo 1)).step thread (.epollIn 0 (.bytes [35,35]) ⟨9,0⟩) = .next (after,effect) ∧
      StatsCall.latency 7000000000 (some ⟨2,0⟩) ∈ effect.calls ∧ Attributed (.echo 1) 0 log [35,35] ⟨9,0⟩ effect := by
  have checked : (match (symmetricNicTcpMain (.echo 1)).follow
      (fun log thread event => NicRoom (.echo 1) 0 log thread event) [] (throughputOpenConnections 1 0)
      [sendOne,sendOne,sendOne,report 1 0,report 2 2,.epollErr 0,.epollErr 0] with
    | some (log,thread) => match (symmetricNicTcpMain (.echo 1)).step thread (answersOf 2) with
      | .next (_,effect) => decide (Delivers (.echo 1) log thread 0 [35,35]) &&
        decide (StatsCall.latency 7000000000 (some ⟨2,0⟩) ∈ effect.calls)
      | _ => false
    | none => false) = true := by
    decide +kernel
  split at checked
  next log thread followed =>
    have run := Machine.follow_run (fun _ _ _ allowed => of_decide_eq_true allowed) _ .nil followed
    split at checked
    next after effect stepped =>
      simp only [Bool.and_eq_true,decide_eq_true_eq] at checked
      exact ⟨log,thread,after,effect,stepped,checked.2,
        nic_timestamps (.echo 1) 0 0 run checked.1 stepped⟩
    next => cases checked
  next => cases checked

end Lancet.NicTimestamps
