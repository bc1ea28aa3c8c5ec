import Lancet.TcpHistory

/-! Send times of the userspace symmetric agent. Every request is pushed with its send
time already known, so `head` and `tail` agree and the slots between `consumed` and
`tail` hold the send times of the requests that wait for an answer. -/
namespace Lancet.UserspaceTimestamps
open Foundation Timestamping Stats AppProto TpTcp TcpHistory

variable {conns : Nat}

/-- No socket call fails, replies are whole responses, and the kernel queues no transmit
reports, as timestamping is not enabled on these sockets. -/
def Userspace (proto : ApplicationProtocol) : Machine.Environment (Thread conns) (Event conns) (Effect conns) :=
  fun log thread event => match event with
    | .send attempt => attempt.sent = .bytes attempt.bytesToSend
    | .epollIn idx recv _ => ∃ data, recv = .bytes data ∧ Delivers proto log thread idx data
    | .txReport _ _ => False
    | .idle _ | .epollErr _ | .epollHup _ | .epollOther _ => True

def SendTime (sent : List (SendAttempt conns)) (index : Nat) (info : TimestampInfo) : Prop :=
  (sent[index]?).map (·.stamp) = some info.time

structure Matched (sent : List (SendAttempt conns)) (done : Nat) (conn : TcpConnection)
    (ring : PendingTxTimestamps) : Prop where
  head : ring.head.toNat = sent.length
  tail : ring.tail.toNat = sent.length
  consumed : ring.consumed.toNat = done
  credit : done + conn.pendingReqs.toNat = sent.length
  gated : conn.pendingReqs.toNat ≤ maxPendingReqs
  emptied : conn.bufferIdx = 0
  times : Window (SendTime sent) ring.read done sent.length

theorem matched_initially : Matched ([] : List (SendAttempt conns)) 0
    ⟨false,0,0,List.replicate maxPayload 0⟩ .empty :=
  ⟨rfl,rfl,rfl,rfl,Nat.zero_le _,rfl,.empty (Nat.le_refl _)⟩

theorem Matched.push {sent : List (SendAttempt conns)} {done : Nat} {conn : TcpConnection}
    {ring : PendingTxTimestamps} (matched : Matched sent done conn ring) (attempt : SendAttempt conns)
    (gate : conn.pendingReqs.toNat < maxPendingReqs) (bounded : (sent ++ [attempt]).length < 2^32) :
    Matched (sent ++ [attempt]) done {conn with pendingReqs := conn.pendingReqs + 1}
      (pushCompleteTxTimestamp ring attempt.stamp) := by
  rw [List.length_append,List.length_singleton] at bounded
  have credited : (conn.pendingReqs + 1).toNat = conn.pendingReqs.toNat + 1 := by
    rw [UInt16.toNat_add,UInt16.toNat_one]
    exact Nat.mod_eq_of_lt (by unfold maxPendingReqs at gate; omega)
  have written := ring.write_overwrites ring.tail {ring.entry ring.tail with time := attempt.stamp}
  rw [matched.tail] at written
  have kept : Window (SendTime (sent ++ [attempt])) ring.read done sent.length :=
    matched.times.weaken (by
      intro index info below timed
      rw [SendTime,List.getElem?_append_left below]
      exact timed)
  have room : sent.length < done + maxPendingReqs := by
    have credit := matched.credit
    omega
  have length : (sent ++ [attempt]).length = sent.length + 1 := List.length_append
  refine ⟨?_,?_,matched.consumed,?_,?_,matched.emptied,?_⟩
  · rw [length,← matched.head]
    exact toNat_succ (by rw [matched.head]; exact bounded)
  · rw [length,← matched.tail]
    exact toNat_succ (by rw [matched.tail]; exact bounded)
  · rw [length,credited,← matched.credit,Nat.add_assoc]
  · rw [credited]
    exact gate
  · rw [length]
    apply kept.push written (by have credit := matched.credit; omega) room
    simp [SendTime]

/-- A batch of answers pops the send time of the last request it answers. -/
theorem Matched.pop {sent : List (SendAttempt conns)} {done reqs : Nat} {conn : TcpConnection}
    {ring : PendingTxTimestamps} (matched : Matched sent done conn ring) (positive : 0 < reqs)
    (asked : done + reqs ≤ sent.length) (bounded : sent.length < 2^32) (data : List UInt8) :
    ∃ ring' info, popPendingTxTimestamps (skipBatch ring reqs) = .next (ring',some info) ∧
      SendTime sent (done + reqs - 1) info ∧
      Matched sent (done + reqs) (answeredConn conn data reqs) ring' := by
  have small : reqs ≤ conn.pendingReqs.toNat := by have credit := matched.credit; omega
  obtain ⟨skipped,advanced⟩ := skipBatch_consumed ring reqs positive (by rw [matched.consumed]; omega)
  rw [matched.consumed] at advanced
  let skip := ring.consumed + UInt32.ofNat (reqs - 1)
  have position : skip.toNat = done + reqs - 1 := by
    rw [advanced]
    omega
  have inside : skip < ring.tail := by
    rw [UInt32.lt_iff_toNat_lt,position,matched.tail]
    omega
  have ordered : skip ≤ ring.head := by
    rw [UInt32.le_iff_toNat_le,position,matched.head]
    omega
  have stepped : (skip + 1).toNat = done + reqs := by
    rw [toNat_succ (by rw [position]; omega),position]
    omega
  have remaining := answeredConn_pending data small
  refine ⟨{ring with consumed := skip + 1},ring.read skip.toNat,?_,?_,?_⟩
  · rw [skipped]
    exact popPendingTxTimestamps_some ordered inside
  · rw [position]
    exact matched.times _ (by omega) (by omega)
  · refine ⟨matched.head,matched.tail,stepped,?_,?_,rfl,?_⟩
    · rw [remaining,← matched.credit]
      omega
    · rw [remaining]
      exact (Nat.sub_le _ _).trans matched.gated
    · exact matched.times.narrow (by omega) (Nat.le_refl _)

/-- The step a reply takes once its send time is known. -/
theorem reply_step {proto : ApplicationProtocol} {thread : Thread conns} {idx : Fin conns} {data : List UInt8}
    {reqs : Nat} {ring : PendingTxTimestamps} {info : TimestampInfo} (rx : Timespec)
    (emptied : (thread.connections idx).bufferIdx = 0) (fits : data.length ≤ maxPayload) (nonempty : data ≠ [])
    (whole : data.length = reqs * proto.size)
    (popped : popPendingTxTimestamps (skipBatch (thread.perConnTxTimestamps idx) reqs) = .next (ring,some info)) :
    (symmetricTcpMain proto).step thread (.epollIn idx (.bytes data) rx) = (do
      let sample ← userspaceSample rx (some info.time)
      return (setRing (creditResponses thread idx (answeredConn (thread.connections idx) data reqs) ⟨data.length,reqs⟩)
          idx ring,
        {calls := sample ++ [.throughputRx (Consumed.toPair ⟨data.length,reqs⟩)], answered := some (idx,reqs)})) := by
  have received := receive_whole false proto (thread.connections idx) data reqs emptied fits nonempty whole
  simp only [symmetricTcpMain,received,Outcome.next_bind,creditResponses,setConnection,popped]
  rfl

structure Consistent (log : List (Event conns × Effect conns)) (thread : Thread conns) (idx : Fin conns) : Prop where
  quiet : thread.errQueue idx = []
  matched : (requests idx log).length < 2^32 →
    Matched (requests idx log) (answered idx log) (thread.connections idx) (thread.perConnTxTimestamps idx)

/-- A step that leaves a connection's counters, buffer and ring alone and neither sends nor
answers on it keeps the connection consistent. -/
theorem Consistent.frame {log : List (Event conns × Effect conns)} {before after : Thread conns} {idx : Fin conns}
    (consistent : Consistent log before idx) {event : Event conns} {effect : Effect conns}
    (silent : requestOf idx (event,effect) = none) (unanswered : answeredBy idx (event,effect) = 0)
    (conn : after.connections idx = {before.connections idx with closed := (after.connections idx).closed})
    (ring : after.perConnTxTimestamps idx = before.perConnTxTimestamps idx)
    (queue : after.errQueue idx = before.errQueue idx) :
    Consistent (log ++ [(event,effect)]) after idx := by
  constructor
  · rw [queue]
    exact consistent.quiet
  · rw [requests_snoc,answered_snoc,silent,unanswered,ring,conn,Option.toList_none,List.append_nil,Nat.add_zero]
    intro bounded
    obtain ⟨head,tail,consumed,credit,gated,emptied,times⟩ := consistent.matched bounded
    exact ⟨head,tail,consumed,credit,gated,emptied,times⟩

theorem send_consistent {proto : ApplicationProtocol} {log : List (Event conns × Effect conns)}
    {before after : Thread conns} {attempt : SendAttempt conns} {effect : Effect conns}
    (consistent : ∀ idx, Consistent log before idx)
    (stepped : (symmetricTcpMain proto).step before (.send attempt) = .next (after,effect)) (idx : Fin conns) :
    Consistent (log ++ [(.send attempt,effect)]) after idx := by
  have taken : sendPath (fun ring => (pushCompleteTxTimestamp ring attempt.stamp,[.txTimestamp attempt.stamp]))
      before attempt = .next (after,effect) := stepped
  obtain ⟨rfl,rfl⟩ | ⟨chosen,picked,_,_,rfl,rfl⟩ := sendPath_cases taken
  · exact (consistent idx).frame rfl rfl rfl rfl rfl
  · by_cases same : chosen = idx
    · subst same
      constructor
      · exact (consistent chosen).quiet
      · intro bounded
        rw [requests_snoc] at bounded ⊢
        have request : requestOf chosen (.send attempt,{
            calls := [.txTimestamp attempt.stamp] ++ [.throughputTx ⟨UInt64.ofNat attempt.bytesToSend,1⟩]
            sent := some chosen}) = some attempt := if_pos rfl
        rw [request] at bounded ⊢
        have previous : (requests chosen log).length < 2^32 := by
          rw [List.length_append] at bounded
          omega
        have pushed := ((consistent chosen).matched previous).push attempt (pickConn_some picked) bounded
        rw [answered_snoc]
        simpa [creditSend,answeredBy] using pushed
    · have other : idx ≠ chosen := fun equal => same equal.symm
      apply (consistent idx).frame
      · simp [requestOf,same]
      · rfl
      · simp [creditSend,other]
      · simp [creditSend,other]
      · rfl

/-- A reply touches its own connection only. -/
theorem reply_frame {proto : ApplicationProtocol} {before after : Thread conns} {chosen : Fin conns} {recv : Recv}
    {rx : Timespec} {effect : Effect conns}
    (stepped : (symmetricTcpMain proto).step before (.epollIn chosen recv rx) = .next (after,effect)) :
    after.errQueue = before.errQueue ∧ ∀ other, other ≠ chosen →
      after.connections other = before.connections other ∧
      after.perConnTxTimestamps other = before.perConnTxTimestamps other ∧
      answeredBy other (.epollIn chosen recv rx,effect) = 0 := by
  obtain ⟨received,_,handled⟩ := Outcome.bind_next stepped
  cases received with
  | closed conn =>
    cases handled
    exact ⟨rfl,fun other different => by simp [setConnection,answeredBy,different]⟩
  | responses conn readRes =>
    obtain ⟨⟨ring,info⟩,_,handled⟩ := Outcome.bind_next handled
    obtain ⟨sample,_,handled⟩ := Outcome.bind_next handled
    cases handled
    exact ⟨rfl,fun other different => by
      simp [setRing,creditResponses,setConnection,answeredBy,different,different.symm]⟩

theorem reply_consistent {proto : ApplicationProtocol} {log : List (Event conns × Effect conns)}
    {before after : Thread conns} {chosen : Fin conns} {data : List UInt8} {rx : Timespec} {effect : Effect conns}
    (consistent : ∀ idx, Consistent log before idx) (delivers : Delivers proto log before chosen data)
    (stepped : (symmetricTcpMain proto).step before (.epollIn chosen (.bytes data) rx) = .next (after,effect))
    (idx : Fin conns) :
    Consistent (log ++ [(.epollIn chosen (.bytes data) rx,effect)]) after idx := by
  obtain ⟨queue,others⟩ := reply_frame stepped
  by_cases same : idx = chosen
  · subst same
    constructor
    · rw [queue]
      exact (consistent idx).quiet
    · intro bounded
      rw [requests_snoc] at bounded ⊢
      have silent : requestOf idx (.epollIn idx (.bytes data) rx,effect) = none := rfl
      rw [silent,Option.toList_none,List.append_nil] at bounded ⊢
      have matched := (consistent idx).matched bounded
      by_cases empty : data = []
      · subst empty
        cases stepped
        obtain ⟨head,tail,consumed,credit,gated,emptied,times⟩ := matched
        rw [answered_snoc]
        simpa [setConnection,answeredBy] using ⟨head,tail,consumed,credit,gated,emptied,times⟩
      · have fits := delivers.fits matched.emptied
        obtain ⟨ring,info,popped,_,matched'⟩ := matched.pop (delivers.positive empty) delivers.2.2 bounded data
        rw [reply_step rx matched.emptied fits empty delivers.whole popped] at stepped
        obtain ⟨sample,_,handled⟩ := Outcome.bind_next stepped
        cases handled
        rw [answered_snoc]
        simpa [setRing,creditResponses,setConnection,answeredBy] using matched'
  · obtain ⟨conn,ring,unanswered⟩ := others idx same
    exact (consistent idx).frame rfl unanswered (by rw [conn]) ring (by rw [queue])

theorem consistent_run {proto : ApplicationProtocol} {now : Int} {log : List (Event conns × Effect conns)}
    {thread : Thread conns}
    (run : (symmetricTcpMain proto).Run (Userspace proto) (throughputOpenConnections conns now) log thread) :
    ∀ idx, Consistent log thread idx := by
  induction run with
  | nil => exact fun idx => ⟨rfl,fun _ => matched_initially⟩
  | @snoc log before after event effect past allowed stepped ih =>
    intro idx
    cases event with
    | idle now =>
      cases stepped
      exact (ih idx).frame rfl rfl rfl rfl rfl
    | send attempt => exact send_consistent ih stepped idx
    | epollIn chosen recv rx =>
      obtain ⟨data,rfl,delivers⟩ := allowed
      exact reply_consistent ih delivers stepped idx
    | epollErr chosen =>
      obtain ⟨⟨thread,calls⟩,reported,returned⟩ := Outcome.bind_next stepped
      rw [readTxReport_quiet (ih chosen).quiet] at reported
      cases reported
      cases returned
      exact (ih idx).frame rfl rfl rfl rfl rfl
    | epollHup chosen => cases stepped
    | epollOther chosen =>
      cases stepped
      exact (ih idx).frame rfl rfl rfl rfl rfl
    | txReport chosen message => exact absurd allowed id

/-- On every connection of every run, head and tail agree, the credit is what is not yet
consumed and within the ring, and each reply finds the send time of the last request it
answers, with which its sample is made. -/
theorem userspace_timestamps (proto : ApplicationProtocol) (now : Int) {log : List (Event conns × Effect conns)}
    {thread : Thread conns}
    (run : (symmetricTcpMain proto).Run (Userspace proto) (throughputOpenConnections conns now) log thread)
    (idx : Fin conns) (bounded : (requests idx log).length < 2^32) :
    (thread.perConnTxTimestamps idx).head = (thread.perConnTxTimestamps idx).tail ∧
      (thread.perConnTxTimestamps idx).consumed.toNat + (thread.connections idx).pendingReqs.toNat =
        (thread.perConnTxTimestamps idx).tail.toNat ∧
      (thread.connections idx).pendingReqs.toNat ≤ maxPendingReqs ∧
      ∀ data rx, data ≠ [] → Delivers proto log thread idx data →
        ∃ reqs ring info attempt, reqs = data.length / proto.size ∧ 0 < reqs ∧
          popPendingTxTimestamps (skipBatch (thread.perConnTxTimestamps idx) reqs) = .next (ring,some info) ∧
          (requests idx log)[answered idx log + reqs - 1]? = some attempt ∧ info.time = attempt.stamp ∧
          (symmetricTcpMain proto).step thread (.epollIn idx (.bytes data) rx) = (do
            let sample ← userspaceSample rx (some attempt.stamp)
            return (setRing (creditResponses thread idx (answeredConn (thread.connections idx) data reqs)
                ⟨data.length,reqs⟩) idx ring,
              {calls := sample ++ [.throughputRx (Consumed.toPair ⟨data.length,reqs⟩)]
               answered := some (idx,reqs)})) := by
  have matched := (consistent_run run idx).matched bounded
  refine ⟨?_,?_,matched.gated,?_⟩
  · apply UInt32.toNat_inj.mp
    rw [matched.head,matched.tail]
  · rw [matched.consumed,matched.credit,matched.tail]
  · intro data rx nonempty delivers
    have positive := delivers.positive nonempty
    obtain ⟨ring,info,popped,timed,_⟩ := matched.pop positive delivers.2.2 bounded data
    obtain ⟨attempt,sent,stamped⟩ := Option.map_eq_some_iff.mp timed
    refine ⟨_,ring,info,attempt,rfl,positive,popped,sent,stamped.symm,?_⟩
    rw [stamped]
    exact reply_step rx matched.emptied (delivers.fits matched.emptied) nonempty delivers.whole popped

def requestAt (now : Int) (stamp : Timespec) : SendAttempt 1 where
  now := now
  again := false
  draws := fun _ => ⟨0,Nat.one_pos⟩
  stamp := stamp
  bytesToSend := 1
  sent := .bytes 1
  ia := 10

/-- Two requests that are answered at once: the sample is made with the second send time. -/
theorem userspace_timestamps_batch : ∃ (thread after : Thread 1) (effect : Effect 1),
    (symmetricTcpMain (.echo 1)).step thread (.epollIn 0 (.bytes [35,35]) ⟨6,9⟩) = .next (after,effect) ∧
      StatsCall.latency 1 (some ⟨6,8⟩) ∈ effect.calls := by
  have run : (symmetricTcpMain (.echo 1)).Run (Userspace (.echo 1)) (throughputOpenConnections 1 0)
      (([] ++ [(.send (requestAt 0 ⟨5,7⟩),_)]) ++ [(.send (requestAt 10 ⟨6,8⟩),_)]) _ := .snoc (.snoc .nil rfl rfl) rfl rfl
  obtain ⟨_,_,_,replies⟩ := userspace_timestamps (.echo 1) 0 run 0 (by decide)
  obtain ⟨reqs,ring,info,attempt,rfl,_,_,sent,_,stepped⟩ := replies [35,35] ⟨6,9⟩ (by decide) (by decide)
  have request : attempt = requestAt 10 ⟨6,8⟩ := by
    have second : some (requestAt 10 ⟨6,8⟩) = some attempt := sent
    exact (Option.some.inj second).symm
  rw [request] at stepped
  exact ⟨_,_,_,stepped,List.mem_append_left _ (by decide)⟩

end Lancet.UserspaceTimestamps
