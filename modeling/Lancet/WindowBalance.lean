import Lancet.AgentSystem
import Lancet.CreditBound
import Lancet.MeasureWindow
import Lancet.Foundation.Sums

/-! Requests against responses in a measurement. Whatever the threads and the manager do in
between, the first report after a START_MEASURE counts as many requests as responses, up to
the requests the connections can have open. -/
namespace Lancet.WindowBalance
open Foundation Agent Timestamping Stats AppProto CoordProto Manager TpTcp TcpHistory TcpSteps CreditBound AgentSystem

variable {conns threads : Nat}

section Calls

def txOf : StatsCall → Option ByteReqPair
  | .throughputTx txP => some txP
  | _ => none

def rxOf : StatsCall → Option ByteReqPair
  | .throughputRx rxP => some rxP
  | _ => none

/-- What a pass calls in the throughput statistics: each request and each batch of responses once. -/
structure Accounts (proto : ApplicationProtocol) (event : Event conns) (effect : Effect conns) : Prop where
  requests : effect.calls.filterMap txOf = (match event, effect.sent with
    | .send attempt, some _ => [⟨UInt64.ofNat attempt.bytesToSend,1⟩]
    | _, _ => [])
  responses : effect.calls.filterMap rxOf = (match effect.answered with
    | some (_,reqs) => [⟨UInt64.ofNat proto.size * UInt64.ofNat reqs,UInt64.ofNat reqs⟩]
    | none => [])

theorem consumed_bytes {proto : ApplicationProtocol} (positive : 0 < proto.size) {len : Nat} {readRes : Consumed}
    (consumed : consumeResponse proto len = .next readRes) : readRes.bytes = proto.size * readRes.reqs := by
  rcases Nat.lt_or_ge len proto.size with short | full
  · rcases consumeResponse_short proto len short with failed | nothing
    · rw [failed] at consumed
      cases consumed
    · rw [nothing] at consumed
      cases consumed
      rfl
  · rw [consumeResponse_full proto len positive full] at consumed
    cases consumed
    rfl

theorem received_bytes {carry : Bool} {proto : ApplicationProtocol} (positive : 0 < proto.size) {conn conn' : TcpConnection}
    {recv : Recv} {readRes : Consumed} (received : receive carry proto conn recv = .next (.responses conn' readRes)) :
    readRes.toPair = ⟨UInt64.ofNat proto.size * UInt64.ofNat readRes.reqs,UInt64.ofNat readRes.reqs⟩ := by
  have processed : ∀ ret data, processReceived carry proto conn ret data = .next (.responses conn' readRes) →
      readRes.bytes = proto.size * readRes.reqs := by
    intro ret data processed
    obtain ⟨readRes',consumed,processed⟩ := Outcome.bind_next processed
    obtain ⟨_,-,processed⟩ := Outcome.bind_next processed
    obtain ⟨_,-,processed⟩ := Outcome.bind_next processed
    cases processed
    exact consumed_bytes positive consumed
  have bytes : readRes.bytes = proto.size * readRes.reqs := by
    cases recv with
    | error wouldBlock =>
      cases wouldBlock with
      | false => cases received
      | true => exact processed _ _ received
    | bytes data =>
      cases data with
      | nil => cases received
      | cons byte rest => exact processed _ _ received
  rw [Consumed.toPair,bytes,UInt64.ofNat_mul]

theorem send_accounts {proto : ApplicationProtocol} {onSent : PendingTxTimestamps → PendingTxTimestamps × List StatsCall}
    (noTx : ∀ ring, (onSent ring).2.filterMap txOf = []) (noRx : ∀ ring, (onSent ring).2.filterMap rxOf = [])
    {before after : Thread conns} {attempt : SendAttempt conns} {effect : Effect conns}
    (taken : sendPath onSent before attempt = .next (after,effect)) : Accounts proto (.send attempt) effect := by
  obtain ⟨rfl,rfl⟩ | ⟨idx,-,-,-,rfl,rfl⟩ := sendPath_cases taken
  · exact ⟨rfl,rfl⟩
  · constructor
    · rw [List.filterMap_append,noTx]
      rfl
    · rw [List.filterMap_append,noRx]
      rfl

/-- Calls about timestamps and latencies say nothing about the throughput. -/
def Quiet (calls : List StatsCall) : Prop := calls.filterMap txOf = [] ∧ calls.filterMap rxOf = []

theorem Quiet.append {calls calls' : List StatsCall} (first : Quiet calls) (second : Quiet calls') : Quiet (calls ++ calls') := by
  constructor
  · rw [List.filterMap_append,first.1,second.1]
    rfl
  · rw [List.filterMap_append,first.2,second.2]
    rfl

theorem readTxReport_quiet {before after : Thread conns} {idx : Fin conns} {calls : List StatsCall}
    (read : readTxReport before idx = .next (after,calls)) : Quiet calls := by
  obtain ⟨tx,-,returned⟩ := Outcome.bind_next read
  cases returned
  constructor
  · rw [List.filterMap_map]
    exact List.filterMap_eq_nil_iff.mpr fun _ _ => rfl
  · rw [List.filterMap_map]
    exact List.filterMap_eq_nil_iff.mpr fun _ _ => rfl

theorem matchNicTimestamp_quiet {before after : Thread conns} {idx : Fin conns} {reqs : Nat} {tx : Option Timespec}
    {calls : List StatsCall} (matched : matchNicTimestamp before idx reqs = .next (after,tx,calls)) : Quiet calls := by
  obtain ⟨⟨ring,info⟩,-,rest⟩ := Outcome.bind_next matched
  cases info with
  | some found =>
    cases rest
    exact ⟨rfl,rfl⟩
  | none =>
    obtain ⟨⟨middle,read⟩,reading,rest⟩ := Outcome.bind_next rest
    have quiet := WindowBalance.readTxReport_quiet reading
    obtain ⟨⟨ring',info⟩,-,rest⟩ := Outcome.bind_next rest
    cases info with
    | some found =>
      cases rest
      exact quiet
    | none =>
      cases rest
      exact quiet

theorem nicSample_quiet (rx : Timespec) (tx : Option Timespec) : Quiet (nicSample rx tx) := by
  rw [nicSample]
  split
  · exact ⟨rfl,rfl⟩
  · exact ⟨rfl,rfl⟩

theorem userspaceSample_quiet {rx : Timespec} {tx : Option Timespec} {calls : List StatsCall}
    (sampled : userspaceSample rx tx = .next calls) : Quiet calls := by
  rw [userspaceSample] at sampled
  split at sampled
  next =>
    cases sampled
    exact ⟨rfl,rfl⟩
  next =>
    obtain ⟨_,-,returned⟩ := Outcome.bind_next sampled
    cases returned
    exact ⟨rfl,rfl⟩

theorem quiet_accounts {proto : ApplicationProtocol} {event : Event conns} {effect : Effect conns} (quiet : Quiet effect.calls)
    (unsent : effect.sent = none) (unanswered : effect.answered = none) : Accounts proto event effect := by
  constructor
  · rw [quiet.1,unsent]
    cases event <;> rfl
  · rw [quiet.2,unanswered]

theorem reply_accounts {carry : Bool} {proto : ApplicationProtocol} (positive : 0 < proto.size) {conn conn' : TcpConnection}
    {idx : Fin conns} {recv : Recv} {rx : Timespec} {readRes : Consumed} {calls : List StatsCall}
    (received : receive carry proto conn recv = .next (.responses conn' readRes)) (quiet : Quiet calls) :
    Accounts proto (.epollIn idx recv rx)
      ({calls := calls ++ [.throughputRx readRes.toPair], answered := some (idx,readRes.reqs)} : Effect conns) := by
  constructor
  · rw [List.filterMap_append,quiet.1]
    rfl
  · rw [List.filterMap_append,quiet.2]
    dsimp only
    rw [← received_bytes positive received]
    rfl

theorem errorQueue_accounts {proto : ApplicationProtocol} {before after : Thread conns} {idx : Fin conns}
    {effect : Effect conns} (handled : (do
      let (thread,calls) ← readTxReport before idx
      return (thread,{calls := calls}) : Outcome (Thread conns × Effect conns)) = .next (after,effect)) :
    Accounts proto (.epollErr idx) effect := by
  obtain ⟨⟨thread,calls⟩,read,returned⟩ := Outcome.bind_next handled
  cases returned
  exact quiet_accounts (WindowBalance.readTxReport_quiet read) rfl rfl

theorem throughput_accounts {proto : ApplicationProtocol} (positive : 0 < proto.size) {before after : Thread conns}
    {event : Event conns} {effect : Effect conns} (stepped : (throughputTcpMain proto).step before event = .next (after,effect)) :
    Accounts proto event effect := by
  cases event with
  | send attempt =>
    have taken : sendPath (fun ring => (ring,[])) before attempt = .next (after,effect) := stepped
    exact send_accounts (fun _ => rfl) (fun _ => rfl) taken
  | epollIn idx recv rx =>
    obtain ⟨outcome,received,handled⟩ := Outcome.bind_next stepped
    cases outcome with
    | closed conn =>
      cases handled
      exact quiet_accounts ⟨rfl,rfl⟩ rfl rfl
    | responses conn readRes =>
      cases handled
      exact @reply_accounts conns true proto positive _ conn idx recv rx readRes [] received ⟨rfl,rfl⟩
  | idle now =>
    cases stepped
    exact quiet_accounts ⟨rfl,rfl⟩ rfl rfl
  | txReport idx message =>
    cases stepped
    exact quiet_accounts ⟨rfl,rfl⟩ rfl rfl
  | epollErr idx => cases stepped
  | epollHup idx => cases stepped
  | epollOther idx => cases stepped

theorem symmetric_accounts {proto : ApplicationProtocol} (positive : 0 < proto.size) {before after : Thread conns}
    {event : Event conns} {effect : Effect conns} (stepped : (symmetricTcpMain proto).step before event = .next (after,effect)) :
    Accounts proto event effect := by
  cases event with
  | send attempt =>
    have taken : sendPath (fun ring => (pushCompleteTxTimestamp ring attempt.stamp,[.txTimestamp attempt.stamp]))
      before attempt = .next (after,effect) := stepped
    exact send_accounts (fun _ => rfl) (fun _ => rfl) taken
  | epollIn idx recv rx =>
    obtain ⟨outcome,received,handled⟩ := Outcome.bind_next stepped
    cases outcome with
    | closed conn =>
      cases handled
      exact quiet_accounts ⟨rfl,rfl⟩ rfl rfl
    | responses conn readRes =>
      obtain ⟨⟨ring,info⟩,-,handled⟩ := Outcome.bind_next handled
      obtain ⟨sample,sampled,handled⟩ := Outcome.bind_next handled
      cases handled
      exact reply_accounts positive received (userspaceSample_quiet sampled)
  | epollErr idx => exact errorQueue_accounts stepped
  | idle now =>
    cases stepped
    exact quiet_accounts ⟨rfl,rfl⟩ rfl rfl
  | epollOther idx =>
    cases stepped
    exact quiet_accounts ⟨rfl,rfl⟩ rfl rfl
  | txReport idx message =>
    cases stepped
    exact quiet_accounts ⟨rfl,rfl⟩ rfl rfl
  | epollHup idx => cases stepped

theorem symmetricNic_accounts {proto : ApplicationProtocol} (positive : 0 < proto.size) {before after : Thread conns}
    {event : Event conns} {effect : Effect conns} (stepped : (symmetricNicTcpMain proto).step before event = .next (after,effect)) :
    Accounts proto event effect := by
  cases event with
  | send attempt =>
    rw [symmetricNicTcpMain] at stepped
    dsimp only at stepped
    split at stepped
    · cases stepped
      exact quiet_accounts ⟨rfl,rfl⟩ rfl rfl
    · exact send_accounts (fun _ => rfl) (fun _ => rfl) stepped
  | epollIn idx recv rx =>
    obtain ⟨outcome,received,handled⟩ := Outcome.bind_next stepped
    cases outcome with
    | closed conn =>
      cases handled
      exact quiet_accounts ⟨rfl,rfl⟩ rfl rfl
    | responses conn readRes =>
      obtain ⟨⟨thread,tx,calls⟩,matched,handled⟩ := Outcome.bind_next handled
      cases handled
      exact reply_accounts positive received ((matchNicTimestamp_quiet matched).append (nicSample_quiet rx tx))
  | epollErr idx => exact errorQueue_accounts stepped
  | idle now =>
    cases stepped
    exact quiet_accounts ⟨rfl,rfl⟩ rfl rfl
  | epollOther idx =>
    cases stepped
    exact quiet_accounts ⟨rfl,rfl⟩ rfl rfl
  | txReport idx message =>
    cases stepped
    exact quiet_accounts ⟨rfl,rfl⟩ rfl rfl
  | epollHup idx => cases stepped

theorem step_accounts {main : TcpMain} {proto : ApplicationProtocol} (positive : 0 < proto.size) {before after : Thread conns}
    {event : Event conns} {effect : Effect conns} (stepped : (main.machine proto).step before event = .next (after,effect)) :
    Accounts proto event effect := by
  cases main with
  | throughput => exact throughput_accounts positive stepped
  | symmetric => exact symmetric_accounts positive stepped
  | symmetricNic => exact symmetricNic_accounts positive stepped

end Calls

section Workers
variable {proto : ApplicationProtocol} {requestSize : Nat}

def reqsOf (pairs : List ByteReqPair) : Nat := (pairs.map (·.reqs.toNat)).sum

/-- Requests that are recorded and whose responses are not. -/
def outstanding (worker : Worker (Thread conns)) : Int :=
  totalPending worker.loop + reqsOf (worker.calls.filterMap rxOf) - reqsOf (worker.calls.filterMap txOf)

/-- The calls a worker has still to make are about requests that are open or were until the last pass. -/
structure Queued (proto : ApplicationProtocol) (requestSize : Nat) (worker : Worker (Thread conns)) : Prop where
  owed : reqsOf (worker.calls.filterMap txOf) ≤ totalPending worker.loop
  room : totalPending worker.loop + reqsOf (worker.calls.filterMap rxOf) ≤ conns * maxPendingReqs
  requests : ∀ txP ∈ worker.calls.filterMap txOf, txP = ⟨UInt64.ofNat requestSize,1⟩
  responses : ∀ rxP ∈ worker.calls.filterMap rxOf, rxP.bytes = UInt64.ofNat proto.size * rxP.reqs

theorem totalPending_nonneg (thread : Thread conns) : 0 ≤ totalPending thread :=
  Finset.sum_nonneg fun _ _ => Int.natCast_nonneg _

theorem Balanced.pending_le {log : List (Event conns × Effect conns)} {thread : Thread conns}
    (balanced : Balanced proto log thread) : totalPending thread ≤ conns * maxPendingReqs := by
  have each : ∀ idx ∈ Finset.univ, ((thread.connections idx).pendingReqs.toNat : Int) ≤ maxPendingReqs :=
    fun idx _ => by exact_mod_cast (balanced.ledger idx).gated
  have sum := Finset.sum_le_card_nsmul Finset.univ _ _ each
  simpa [totalPending] using sum

theorem queued_idle {log : List (Event conns × Effect conns)} {thread : Thread conns} (balanced : Balanced proto log thread)
    (running : Bool) : Queued proto requestSize ⟨thread,[],running⟩ where
  owed := totalPending_nonneg thread
  room := by simpa [reqsOf] using WindowBalance.Balanced.pending_le balanced
  requests _ listed := absurd listed List.not_mem_nil
  responses _ listed := absurd listed List.not_mem_nil

/-- How a pass changes the number of open requests. -/
theorem pass_pending {main : TcpMain} {log log' : List (Event conns × Effect conns)} {before after : Thread conns}
    {event : Event conns} {effect : Effect conns} (positive : 0 < proto.size) (balanced : Balanced proto log before)
    (balanced' : Balanced proto log' after) (served : Served proto log before event)
    (stepped : (main.machine proto).step before event = .next (after,effect)) :
    (effect.sent = none ∧ effect.answered = none ∧ totalPending after = totalPending before) ∨
    (∃ attempt idx, event = .send attempt ∧ effect.sent = some idx ∧ effect.answered = none ∧
      totalPending after = totalPending before + 1) ∨
    (∃ idx reqs, effect.sent = none ∧ effect.answered = some (idx,reqs) ∧ reqs ≤ maxPayload ∧
      totalPending after = totalPending before - reqs) := by
  have total := balanced.total
  have total' := balanced'.total
  cases accounted_step stepped with
  | paused same sent answered =>
    subst same
    exact .inl ⟨sent,answered,rfl⟩
  | unsent same sent answered =>
    subst same
    exact .inl ⟨sent,answered,rfl⟩
  | @sent attempt _ idx ring picked due whole credited sent answered =>
    subst credited
    refine .inr (.inl ⟨attempt,idx,rfl,sent,answered,?_⟩)
    dsimp only [creditSend] at total'
    dsimp only [creditSend]
    omega
  | closed same sent answered =>
    subst same
    refine .inl ⟨sent,answered,?_⟩
    dsimp only [setConnection] at total'
    dsimp only [setConnection]
    omega
  | @replied idx recv rx _ conn readRes received connections availReqs nextTx sent answered =>
    refine .inr (.inr ⟨idx,readRes.reqs,sent,answered,?_,by omega⟩)
    cases recv with
    | error wouldBlock =>
      have failed : wouldBlock = false := served
      subst failed
      cases received
    | bytes data =>
      obtain ⟨count,-,-⟩ := replied_spec positive served.1 received
      rw [count]
      exact (Nat.div_le_self _ _).trans served.1
  | aside kind same =>
    have avail := same.availReqs
    exact .inl ⟨same.sent,same.answered,by omega⟩

theorem pass_queued {main : TcpMain} {log log' : List (Event conns × Effect conns)} {before after : Thread conns}
    {event : Event conns} {effect : Effect conns} (positive : 0 < proto.size) (balanced : Balanced proto log before)
    (balanced' : Balanced proto log' after) (served : Served proto log before event)
    (sized : ∀ attempt, event = .send attempt → attempt.bytesToSend = requestSize)
    (stepped : (main.machine proto).step before event = .next (after,effect)) (running : Bool) :
    Queued proto requestSize ⟨after,effect.calls,running⟩ ∧
      outstanding ⟨after,effect.calls,running⟩ = totalPending before := by
  obtain ⟨requests,responses⟩ := step_accounts positive stepped
  have bound := WindowBalance.Balanced.pending_le balanced
  have bound' := WindowBalance.Balanced.pending_le balanced'
  have nonneg := totalPending_nonneg after
  rcases pass_pending positive balanced balanced' served stepped with
    ⟨unsent,unanswered,same⟩ | ⟨attempt,idx,rfl,sent,unanswered,more⟩ | ⟨idx,reqs,unsent,answered,small,fewer⟩
  · rw [unsent] at requests
    rw [unanswered] at responses
    have noTx : effect.calls.filterMap txOf = [] := by rw [requests]; cases event <;> rfl
    refine ⟨⟨?_,?_,?_,?_⟩,?_⟩
    · rw [noTx]
      exact nonneg
    · rw [responses]
      simpa [reqsOf] using bound'
    · rw [noTx]
      exact fun _ listed => absurd listed List.not_mem_nil
    · rw [responses]
      exact fun _ listed => absurd listed List.not_mem_nil
    · simp only [outstanding,noTx,responses,reqsOf,List.map_nil,List.sum_nil]
      omega
  · rw [unanswered] at responses
    have tx : effect.calls.filterMap txOf = [⟨UInt64.ofNat requestSize,1⟩] := by
      rw [requests,sent,← sized attempt rfl]
    have one : reqsOf [⟨UInt64.ofNat requestSize,1⟩] = 1 := rfl
    refine ⟨⟨?_,?_,?_,?_⟩,?_⟩
    · rw [tx,one,more]
      have owing := totalPending_nonneg before
      omega
    · rw [responses]
      simpa [reqsOf] using bound'
    · rw [tx]
      exact fun _ only => List.mem_singleton.mp only
    · rw [responses]
      exact fun _ listed => absurd listed List.not_mem_nil
    · simp only [outstanding,tx,one,responses]
      simp only [reqsOf,List.map_nil,List.sum_nil]
      omega
  · rw [unsent] at requests
    rw [answered] at responses
    have noTx : effect.calls.filterMap txOf = [] := by rw [requests]; cases event <;> rfl
    have counted : reqsOf [⟨UInt64.ofNat proto.size * UInt64.ofNat reqs,UInt64.ofNat reqs⟩] = reqs := by
      unfold maxPayload at small
      simp only [reqsOf,List.map_singleton,List.sum_singleton]
      exact UInt64.toNat_ofNat_of_lt' (by unfold UInt64.size; omega)
    refine ⟨⟨?_,?_,?_,?_⟩,?_⟩
    · rw [noTx]
      exact nonneg
    · rw [responses]
      dsimp only
      rw [counted]
      omega
    · rw [noTx]
      exact fun _ listed => absurd listed List.not_mem_nil
    · rw [responses]
      intro rxP only
      rw [List.mem_singleton.mp only]
    · simp only [outstanding,noTx,responses,counted]
      simp only [reqsOf,List.map_nil,List.sum_nil]
      omega

/-- What a thread has counted since its counters were cleared. -/
structure Counts (proto : ApplicationProtocol) (requestSize : Nat) (stats : ThreadStats) (worker : Worker (Thread conns)) :
    Prop where
  rxBytes : stats.stats.thS.rx.bytes = UInt64.ofNat proto.size * stats.stats.thS.rx.reqs
  txBytes : stats.stats.thS.tx.bytes = UInt64.ofNat requestSize * stats.stats.thS.tx.reqs
  balance : ∃ before after : Nat, before ≤ conns * maxPendingReqs ∧ (after : Int) = outstanding worker ∧
    stats.stats.thS.tx.reqs + UInt64.ofNat before = stats.stats.thS.rx.reqs + UInt64.ofNat after

theorem Queued.outstanding_range {worker : Worker (Thread conns)} (queued : Queued proto requestSize worker) :
    0 ≤ outstanding worker ∧ outstanding worker ≤ conns * maxPendingReqs := by
  have owed := queued.owed
  have room := queued.room
  rw [outstanding]
  omega

/-- Cleared counters, whatever is open. -/
theorem counts_cleared {stats : ThreadStats} {worker : Worker (Thread conns)} (queued : Queued proto requestSize worker)
    (cleared : stats.stats.thS = .zero) : Counts proto requestSize stats worker := by
  obtain ⟨low,high⟩ := queued.outstanding_range
  refine ⟨?_,?_,(outstanding worker).toNat,(outstanding worker).toNat,by omega,Int.toNat_of_nonneg low,?_⟩
  all_goals
    rw [cleared]
    simp [ThroughputStats.zero,ByteReqPair.zero]

theorem apply_throughput {sampling : Sampling} {draw : Float} {stats stats' : ThreadStats} {call : StatsCall}
    (applied : stats.apply true sampling draw call = .next stats') : stats'.stats.thS =
      ⟨stats.stats.thS.rx.add ((rxOf call).getD .zero),stats.stats.thS.tx.add ((txOf call).getD .zero)⟩ := by
  have nothing : ∀ pair : ByteReqPair, pair.add .zero = pair := fun pair => by
    rw [ByteReqPair.add,ByteReqPair.zero,UInt64.add_zero,UInt64.add_zero]
  cases call with
  | throughputTx txP =>
    cases applied
    simp [rxOf,txOf,addThroughputTxSample,nothing]
  | throughputRx rxP =>
    cases applied
    simp [rxOf,txOf,addThroughputRxSample,nothing]
  | txTimestamp txTs =>
    cases applied
    simp [rxOf,txOf,nothing]
  | latency diff tx =>
    obtain ⟨stats'',added,returned⟩ := Outcome.bind_next applied
    cases returned
    dsimp only
    rw [addLatencySample_throughput added]
    simp [rxOf,txOf,nothing]

/-- The calls that are left after one is made. -/
theorem Queued.rest {loop : Thread conns} {call : StatsCall} {calls : List StatsCall} {running : Bool}
    (queued : Queued proto requestSize ⟨loop,call :: calls,running⟩) : Queued proto requestSize ⟨loop,calls,running⟩ := by
  obtain ⟨owed,room,requests,responses⟩ := queued
  have fewer : ∀ of : StatsCall → Option ByteReqPair, reqsOf (calls.filterMap of) ≤ reqsOf ((call :: calls).filterMap of) := by
    intro of
    rcases found : of call with _ | pair
    · rw [List.filterMap_cons_none found]
    · rw [List.filterMap_cons_some found,reqsOf,reqsOf,List.map_cons,List.sum_cons]
      exact Nat.le_add_left _ _
  have inside : ∀ of : StatsCall → Option ByteReqPair, calls.filterMap of ⊆ (call :: calls).filterMap of :=
    fun of => ((List.sublist_cons_self call calls).filterMap of).subset
  have lessTx := fewer txOf
  have lessRx := fewer rxOf
  dsimp only at owed room
  refine ⟨?_,?_,fun txP member => requests txP (inside txOf member),fun rxP member => responses rxP (inside rxOf member)⟩
  · dsimp only
    omega
  · dsimp only
    omega

theorem record_counts {loop : Thread conns} {call : StatsCall} {calls : List StatsCall} {running : Bool}
    {sampling : Sampling} {draw : Float} {stats stats' : ThreadStats} (queued : Queued proto requestSize ⟨loop,call :: calls,running⟩)
    (counts : Counts proto requestSize stats ⟨loop,call :: calls,running⟩)
    (applied : stats.apply true sampling draw call = .next stats') : Counts proto requestSize stats' ⟨loop,calls,running⟩ := by
  obtain ⟨rxBytes,txBytes,before,after,small,opened,balance⟩ := counts
  obtain ⟨low,-⟩ := queued.rest.outstanding_range
  have sums := apply_throughput applied
  rw [outstanding] at opened low
  dsimp only at opened low
  rcases request : txOf call with _ | txP
  · rcases response : rxOf call with _ | rxP
    · rw [request,response] at sums
      simp only [Option.getD_none,ByteReqPair.add,ByteReqPair.zero,UInt64.add_zero] at sums
      rw [List.filterMap_cons_none request,List.filterMap_cons_none response] at opened
      exact ⟨by rw [sums]; exact rxBytes,by rw [sums]; exact txBytes,before,after,small,opened,by rw [sums]; exact balance⟩
    · rw [request,response] at sums
      simp only [Option.getD_none,Option.getD_some,ByteReqPair.add,ByteReqPair.zero,UInt64.add_zero] at sums
      have shape : rxP.bytes = UInt64.ofNat proto.size * rxP.reqs := queued.responses rxP (by simp [response])
      rw [List.filterMap_cons_none request,List.filterMap_cons_some response,reqsOf,List.map_cons,List.sum_cons,← reqsOf] at opened
      refine ⟨?_,by rw [sums]; exact txBytes,before,after - rxP.reqs.toNat,small,?_,?_⟩
      · rw [sums,shape,rxBytes,UInt64.mul_add]
      · rw [outstanding]
        dsimp only
        omega
      · have part : UInt64.ofNat after = rxP.reqs + UInt64.ofNat (after - rxP.reqs.toNat) := by
          conv_lhs => rw [show after = rxP.reqs.toNat + (after - rxP.reqs.toNat) by omega]
          rw [UInt64.ofNat_add,UInt64.ofNat_toNat]
        rw [sums,balance,part,UInt64.add_assoc]
  · have noRx : rxOf call = none := by
      cases call with
      | throughputTx txP => rfl
      | throughputRx rxP => cases request
      | txTimestamp txTs => rfl
      | latency diff tx => rfl
    rw [request,noRx] at sums
    simp only [Option.getD_none,Option.getD_some,ByteReqPair.add,ByteReqPair.zero,UInt64.add_zero] at sums
    have shape : txP = ⟨UInt64.ofNat requestSize,1⟩ := queued.requests txP (by simp [request])
    subst shape
    rw [List.filterMap_cons_some request,List.filterMap_cons_none noRx,reqsOf,reqsOf,List.map_cons,List.sum_cons,← reqsOf,← reqsOf]
      at opened
    refine ⟨by rw [sums]; exact rxBytes,?_,before,after + 1,small,?_,?_⟩
    · rw [sums,txBytes,UInt64.mul_add,UInt64.mul_one]
    · have one : (1 : UInt64).toNat = 1 := rfl
      rw [outstanding]
      dsimp only at opened ⊢
      omega
    · have more : UInt64.ofNat (after + 1) = UInt64.ofNat after + 1 := UInt64.ofNat_add after 1
      rw [sums,more,← UInt64.add_assoc,← balance]
      dsimp only
      ac_rfl

end Workers

section Reports

/-- A number read off throughput counters that adds up with them. -/
structure Additive (reading : ThroughputStats → UInt64) : Prop where
  zero : reading .zero = 0
  add : ∀ a b : ThroughputStats, reading ⟨a.rx.add b.rx,a.tx.add b.tx⟩ = reading a + reading b

def total (reading : ThroughputStats → UInt64) (threads : List ThreadStats) : UInt64 :=
  (threads.map (fun thread => reading thread.stats.thS)).sum

variable {reading : ThroughputStats → UInt64}

theorem Additive.clear (additive : Additive reading) (atype : AgentType) (stats : LatencyStats) :
    reading (clearStats atype stats).thS = 0 := by
  have cleared : (clearStats atype stats).thS = .zero := by cases atype <;> rfl
  rw [cleared,additive.zero]

theorem Additive.throughput (additive : Additive reading) (atype : AgentType) (aggStats : LatencyStats)
    (allStats : List LatencyStats) :
    reading (aggregateThroughputStats atype aggStats allStats).thS = (allStats.map (fun stats => reading stats.thS)).sum := by
  have fold : ∀ (stats : List LatencyStats) (agg : LatencyStats), reading (stats.foldl (fun agg stats =>
      {agg with thS := ⟨agg.thS.rx.add stats.thS.rx,agg.thS.tx.add stats.thS.tx⟩}) agg).thS =
        reading agg.thS + (stats.map (fun stats => reading stats.thS)).sum := by
    intro stats
    induction stats with
    | nil => exact fun agg => (UInt64.add_zero _).symm
    | cons first stats ih =>
      intro agg
      rw [List.foldl_cons,ih,List.map_cons,List.sum_cons,← UInt64.add_assoc,← additive.add]
  rw [aggregateThroughputStats,fold,additive.clear,UInt64.zero_add]

theorem Additive.samples (additive : Additive reading) {allStats : List LatencyStats} {agg agg' : LatencyStats} {count : Nat}
    (aggregated : aggregateFrom agg count allStats = .next agg') :
    reading agg'.thS = reading agg.thS + (allStats.map (fun stats => reading stats.thS)).sum := by
  induction allStats generalizing agg count with
  | nil =>
    cases aggregated
    exact (UInt64.add_zero _).symm
  | cons stats allStats ih =>
    obtain ⟨middle,appended,rest⟩ := Outcome.bind_next aggregated
    rw [appendSamples] at appended
    split at appended
    next =>
      cases appended
      rw [ih rest,List.map_cons,List.sum_cons,← UInt64.add_assoc,← additive.add]
    next => cases appended

theorem percentiles_throughput {qsort : Qsort} {stats stats' : LatencyStats}
    (computed : computeLatencyPercentilesCi Float qsort stats = .next stats') : stats'.thS = stats.thS := by
  rw [computeLatencyPercentilesCi] at computed
  obtain ⟨_,-,computed⟩ := Outcome.bind_next computed
  obtain ⟨_,-,computed⟩ := Outcome.bind_next computed
  obtain ⟨_,-,computed⟩ := Outcome.bind_next computed
  obtain ⟨_,-,computed⟩ := Outcome.bind_next computed
  obtain ⟨_,-,computed⟩ := Outcome.bind_next computed
  cases computed
  rfl

/-- A report is the sum of the threads' counters, in both kinds of reply. -/
theorem report_sums {config : AgentConfig} {qsort : Qsort} {manager after : ManagerState} {now : Int} {reference : List UInt64}
    {type : UInt32} {reply : Reply} (handled : handle config qsort manager now reference (.reportReq type) = .next (after,reply)) :
    ∃ agg data, MeasureWindow.replyData reply = some data ∧ data.rxBytes = agg.rx.bytes ∧ data.txBytes = agg.tx.bytes ∧
      data.reqCount = agg.rx.reqs ∧ ∀ reading, Additive reading → reading agg = total reading manager.threads := by
  obtain ⟨-,threads,-⟩ := MeasureWindow.stopMeasure_kept manager now
  have all : ∀ reading : ThroughputStats → UInt64,
      ((allStats (stopMeasure manager now)).map (fun stats => reading stats.thS)).sum = total reading manager.threads := by
    intro reading
    rw [allStats,threads,List.map_map]
    rfl
  rw [handle] at handled
  dsimp only at handled
  split at handled
  next =>
    obtain ⟨agg,iaComp,rfl,rfl,rfl⟩ := replyThroughputStats_next handled
    refine ⟨_,_,rfl,rfl,rfl,rfl,fun reading additive => ?_⟩
    rw [additive.throughput]
    exact all reading
  next =>
    split at handled
    next =>
      obtain ⟨agg,kept,checks,collected,rfl,rfl⟩ := replyLatencyStats_next handled
      refine ⟨_,_,rfl,rfl,rfl,rfl,fun reading additive => ?_⟩
      obtain ⟨sums,aggregated,computed⟩ := Outcome.bind_next collected
      rw [percentiles_throughput computed,additive.samples aggregated]
      dsimp only
      rw [additive.clear,UInt64.zero_add]
      exact all reading
    next => cases handled

theorem total_cons (reading : ThroughputStats → UInt64) (thread : ThreadStats) (threads : List ThreadStats) :
    total reading (thread :: threads) = reading thread.stats.thS + total reading threads := by
  rw [total,List.map_cons,List.sum_cons,← total]

/-- What every thread has balanced, their sums have. -/
theorem total_balance {bound : Nat} {threads : List ThreadStats}
    (each : ∀ thread ∈ threads, ∃ before after : Nat, before ≤ bound ∧ after ≤ bound ∧
      thread.stats.thS.tx.reqs + UInt64.ofNat before = thread.stats.thS.rx.reqs + UInt64.ofNat after) :
    ∃ before after : Nat, before ≤ threads.length * bound ∧ after ≤ threads.length * bound ∧
      total (·.tx.reqs) threads + UInt64.ofNat before = total (·.rx.reqs) threads + UInt64.ofNat after := by
  induction threads with
  | nil => exact ⟨0,0,Nat.zero_le _,Nat.zero_le _,rfl⟩
  | cons thread threads ih =>
    obtain ⟨before,after,low,high,balance⟩ := each thread List.mem_cons_self
    obtain ⟨befores,afters,lows,highs,balances⟩ := ih fun other inside => each other (List.mem_cons_of_mem _ inside)
    refine ⟨before + befores,after + afters,?_,?_,?_⟩
    · rw [List.length_cons,Nat.succ_mul]
      omega
    · rw [List.length_cons,Nat.succ_mul]
      omega
    · have together : (thread.stats.thS.tx.reqs + UInt64.ofNat before) + (total (·.tx.reqs) threads + UInt64.ofNat befores) =
          (thread.stats.thS.rx.reqs + UInt64.ofNat after) + (total (·.rx.reqs) threads + UInt64.ofNat afters) := by
        rw [balance,balances]
      rw [total_cons,total_cons,UInt64.ofNat_add,UInt64.ofNat_add]
      calc _ = (thread.stats.thS.tx.reqs + UInt64.ofNat before) + (total (·.tx.reqs) threads + UInt64.ofNat befores) := by ac_rfl
        _ = (thread.stats.thS.rx.reqs + UInt64.ofNat after) + (total (·.rx.reqs) threads + UInt64.ofNat afters) := together
        _ = _ := by ac_rfl

theorem total_scaled {bytes reqs : ThroughputStats → UInt64} {size : UInt64} {threads : List ThreadStats}
    (each : ∀ thread ∈ threads, bytes thread.stats.thS = size * reqs thread.stats.thS) :
    total bytes threads = size * total reqs threads := by
  induction threads with
  | nil => exact (UInt64.mul_zero).symm
  | cons thread threads ih =>
    rw [total_cons,total_cons,each thread List.mem_cons_self,ih fun other inside => each other (List.mem_cons_of_mem _ inside),
      UInt64.mul_add]

end Reports

section Process
variable {proto : ApplicationProtocol} {requestSize : Nat}

/-- The last message was a START_MEASURE. -/
def freshly (fresh : Bool) : AgentEvent (TpTcp.Event conns) threads → Bool
  | .message (.startMeasure _ _) _ _ => true
  | .message _ _ _ => false
  | .resume _ | .pass _ _ | .record _ _ => fresh

abbrev Log (conns threads : Nat) := AgentLog (TpTcp.Event conns) (Effect conns) threads

def fresh (log : Log conns threads) : Bool := log.foldl (fun fresh entry => freshly fresh entry.1) false

@[simp] theorem fresh_snoc (log : Log conns threads) (entry : AgentEvent (TpTcp.Event conns) threads × AgentOutput (Effect conns)) :
    fresh (log ++ [entry]) = freshly (fresh log) entry.1 := List.foldl_concat ..

/-- A loop that finds `should_load` off only moves its schedule. -/
def Loads (shouldLoad : Bool) : TpTcp.Event conns → Prop
  | .idle _ => shouldLoad = false
  | .txReport _ _ => True
  | .send _ | .epollIn _ _ _ | .epollErr _ | .epollHup _ | .epollOther _ => shouldLoad = true

/-- The server is as in `Served`, and every request of the protocol has one size. -/
def Exchanging (proto : ApplicationProtocol) (requestSize : Nat) :
    Machine.Environment (Thread conns) (TpTcp.Event conns) (Effect conns) := fun log thread event =>
  Served proto log thread event ∧ ∀ attempt, event = .send attempt → attempt.bytesToSend = requestSize

structure Accountable (proto : ApplicationProtocol) (requestSize : Nat) (log : Log conns threads)
    (agent : AgentState (Thread conns) threads) : Prop where
  length : agent.manager.threads.length = threads
  queued : ∀ thread, Queued proto requestSize (agent.workers thread)
  measuring : fresh log = true → agent.manager.shouldMeasure = true ∧ agent.manager.reporting = false
  counts : fresh log = true → ∀ thread : Fin threads, ∀ stats, agent.manager.threads[thread.val]? = some stats →
    Counts proto requestSize stats (agent.workers thread)

theorem work_threads {manager after : ManagerState} {thread : Nat} {call : StatsCall} {draw : Float} {stats : ThreadStats}
    (held : manager.threads[thread]? = some stats) (worked : work manager thread call draw = .next after) :
    ∃ stats', stats.apply manager.shouldMeasure manager.sampling draw call = .next stats' ∧
      after = {manager with threads := manager.threads.set thread stats'} := by
  rw [work,held] at worked
  obtain ⟨stats',applied,returned⟩ := Outcome.bind_next worked
  cases returned
  exact ⟨stats',applied,rfl⟩

section Preserved
variable {log : Log conns threads} {before after : AgentState (Thread conns) threads}

theorem Accountable.message {config : AgentConfig} {qsort : Qsort} {message : Message} {now : Int} {reference : List UInt64}
    {reply : Option Reply} (accountable : Accountable proto requestSize log before) (ready : before.manager.reporting = false)
    (managed : (managerRun config qsort).step before.manager (.message message now reference) = .next (after.manager,reply))
    (workers : after.workers = before.workers) :
    Accountable proto requestSize (log ++ [(.message message now reference,.replied reply)]) after := by
  obtain ⟨length,queued,-,-⟩ := accountable
  obtain ⟨⟨manager,reply'⟩,handled,returned⟩ := Outcome.bind_next managed
  obtain ⟨same,-⟩ := Prod.mk.inj (Outcome.next.inj returned)
  rw [← workers] at queued
  cases message with
  | startLoad load =>
    obtain ⟨generators,-,rfl,-⟩ := startLoad_next handled
    refine ⟨?_,queued,fun stale => ?_,fun stale => ?_⟩
    · rw [← same,clearAllStats,List.length_map]
      exact length
    all_goals
      rw [fresh_snoc] at stale
      cases stale
  | startMeasure samples sampling =>
    obtain ⟨chosen,-,rfl,-⟩ := startMeasure_next handled
    refine ⟨?_,queued,fun _ => ?_,fun _ thread stats held => ?_⟩
    · rw [← same,clearAllStats,List.length_map]
      exact length
    · rw [← same]
      exact ⟨rfl,ready⟩
    · rw [← same] at held
      dsimp only [clearAllStats] at held
      rw [List.getElem?_map] at held
      obtain ⟨earlier,-,rfl⟩ := Option.map_eq_some_iff.mp held
      exact counts_cleared (queued thread) (by rw [clearThread]; cases config.atype <;> rfl)
  | reportReq type =>
    obtain ⟨-,-,sameThreads,-,-⟩ := MeasureWindow.report_step handled
    refine ⟨?_,queued,fun stale => ?_,fun stale => ?_⟩
    · rw [← same,sameThreads]
      exact length
    all_goals
      rw [fresh_snoc] at stale
      cases stale

theorem Accountable.resume {config : AgentConfig} {qsort : Qsort} {now : Int} {reply : Option Reply}
    (accountable : Accountable proto requestSize log before) (reporting : before.manager.reporting = true)
    (managed : (managerRun config qsort).step before.manager (.resume now) = .next (after.manager,reply))
    (workers : after.workers = before.workers) : Accountable proto requestSize (log ++ [(.resume now,.replied reply)]) after := by
  obtain ⟨length,queued,measuring,-⟩ := accountable
  obtain ⟨same,-⟩ := Prod.mk.inj (Outcome.next.inj managed)
  -- after a START_MEASURE no report is under way
  have stale : fresh log = true → False := fun fresh =>
    Bool.false_ne_true ((measuring fresh).2.symm.trans reporting)
  rw [← workers] at queued
  refine ⟨by rw [← same]; exact length,queued,fun fresh => ?_,fun fresh => ?_⟩
  all_goals
    rw [fresh_snoc] at fresh
    exact (stale fresh).elim

theorem Accountable.worker {event : AgentEvent (TpTcp.Event conns) threads} {output : AgentOutput (Effect conns)}
    {thread : Fin threads} {worker : Worker (Thread conns)} (accountable : Accountable proto requestSize log before)
    (kept : freshly (fresh log) event = fresh log) (queued : Queued proto requestSize worker)
    (unchanged : outstanding worker = outstanding (before.workers thread)) :
    Accountable proto requestSize (log ++ [(event,output)]) (setWorker before thread worker) := by
  obtain ⟨length,others,measuring,counts⟩ := accountable
  refine ⟨length,fun other => ?_,fun fresh => ?_,fun fresh other stats held => ?_⟩
  · by_cases same : other = thread
    · rw [same,setWorker_same]
      exact queued
    · rw [setWorker_other _ _ same]
      exact others other
  · rw [fresh_snoc,kept] at fresh
    exact measuring fresh
  · rw [fresh_snoc,kept] at fresh
    have counted := counts fresh other stats held
    by_cases same : other = thread
    · subst same
      rw [setWorker_same]
      obtain ⟨rxBytes,txBytes,balance⟩ := counted
      rw [← unchanged] at balance
      exact ⟨rxBytes,txBytes,balance⟩
    · rw [setWorker_other _ _ same]
      exact counted

theorem Accountable.recorded {thread : Fin threads} {draw : Float} {call : StatsCall} {rest : List StatsCall}
    {manager : ManagerState} (accountable : Accountable proto requestSize log before)
    (calling : (before.workers thread).calls = call :: rest) (worked : work before.manager thread call draw = .next manager) :
    Accountable proto requestSize (log ++ [(.record thread draw,.recorded (some call))])
      {setWorker before thread {before.workers thread with calls := rest} with manager := manager} := by
  obtain ⟨length,queued,measuring,counts⟩ := accountable
  have inside : thread.val < before.manager.threads.length := by
    rw [length]
    exact thread.isLt
  obtain ⟨stats',applied,rfl⟩ := work_threads (List.getElem?_eq_getElem inside) worked
  rcases workers : before.workers thread with ⟨loop,calls,running⟩
  rw [workers] at calling
  dsimp only at calling
  subst calling
  have own := queued thread
  rw [workers] at own
  refine ⟨?_,fun other => ?_,fun fresh => ?_,fun fresh other stats held => ?_⟩
  · dsimp only
    rw [List.length_set]
    exact length
  · by_cases same : other = thread
    · subst same
      dsimp only
      rw [setWorker_same]
      exact own.rest
    · dsimp only
      rw [setWorker_other _ _ same]
      exact queued other
  · rw [fresh_snoc] at fresh
    exact measuring fresh
  · rw [fresh_snoc] at fresh
    dsimp only at held ⊢
    by_cases same : other = thread
    · subst same
      rw [List.getElem?_set_self inside] at held
      cases held
      rw [setWorker_same]
      rw [(measuring fresh).1] at applied
      have counted := counts fresh other _ (List.getElem?_eq_getElem inside)
      rw [workers] at counted
      exact record_counts own counted applied
    · have apart : thread.val ≠ other.val := fun equal => same (Fin.ext equal.symm)
      rw [List.getElem?_set_ne apart] at held
      rw [setWorker_other _ _ same]
      exact counts fresh other stats held

end Preserved

/-- A report right after a START_MEASURE: its bytes are those of whole requests and responses, and
as many requests as responses were counted, up to `slots` that were open at either end. -/
def BalancedReport (proto : ApplicationProtocol) (requestSize slots : Nat) (output : AgentOutput (Effect conns)) : Prop :=
  ∃ reply data, output = .replied (some reply) ∧ MeasureWindow.replyData reply = some data ∧
    data.rxBytes = UInt64.ofNat proto.size * data.reqCount ∧ ∃ requests before after, before ≤ slots ∧ after ≤ slots ∧
      data.txBytes = UInt64.ofNat requestSize * requests ∧
      requests + UInt64.ofNat before = data.reqCount + UInt64.ofNat after

theorem Accountable.report {config : AgentConfig} {qsort : Qsort} {log : Log conns threads}
    {agent : AgentState (Thread conns) threads} {after : ManagerState} {type : UInt32} {now : Int} {reference : List UInt64}
    {reply : Reply} (accountable : Accountable proto requestSize log agent) (first : fresh log = true)
    (handled : handle config qsort agent.manager now reference (.reportReq type) = .next (after,reply)) :
    BalancedReport proto requestSize (threads * (conns * maxPendingReqs))
      (.replied (some reply) : AgentOutput (Effect conns)) := by
  obtain ⟨length,queued,-,counts⟩ := accountable
  obtain ⟨agg,data,replied,rxBytes,txBytes,reqCount,sums⟩ := report_sums handled
  have each : ∀ stats ∈ agent.manager.threads, ∃ thread, Counts proto requestSize stats (agent.workers thread) := by
    intro stats member
    obtain ⟨index,inside,here⟩ := List.mem_iff_getElem.mp member
    exact ⟨⟨index,length ▸ inside⟩,counts first _ stats (List.getElem?_eq_some_iff.mpr ⟨inside,here⟩)⟩
  obtain ⟨before,closing,low,high,balance⟩ := @total_balance (conns * maxPendingReqs) agent.manager.threads (by
    intro stats member
    obtain ⟨thread,-,-,before,closing,small,opened,balance⟩ := each stats member
    have range := (queued thread).outstanding_range
    exact ⟨before,closing,small,by omega,balance⟩)
  rw [length] at low high
  have rxScaled := @total_scaled (·.rx.bytes) (·.rx.reqs) (UInt64.ofNat proto.size) agent.manager.threads (by
    intro stats member
    obtain ⟨thread,counted⟩ := each stats member
    exact counted.rxBytes)
  have txScaled := @total_scaled (·.tx.bytes) (·.tx.reqs) (UInt64.ofNat requestSize) agent.manager.threads (by
    intro stats member
    obtain ⟨thread,counted⟩ := each stats member
    exact counted.txBytes)
  refine ⟨reply,data,rfl,replied,?_,total (·.tx.reqs) agent.manager.threads,before,closing,low,high,?_,?_⟩
  · rw [rxBytes,reqCount,sums (·.rx.bytes) ⟨rfl,fun _ _ => rfl⟩,sums (·.rx.reqs) ⟨rfl,fun _ _ => rfl⟩]
    exact rxScaled
  · rw [txBytes,sums (·.tx.bytes) ⟨rfl,fun _ _ => rfl⟩]
    exact txScaled
  · rw [reqCount,sums (·.rx.reqs) ⟨rfl,fun _ _ => rfl⟩]
    exact balance

variable {config : AgentConfig} {qsort : Qsort} {main : TcpMain} {generators : Generators} {stats : List ThreadStats} {aggStats : LatencyStats} {now : Int}

abbrev tcpAgent (config : AgentConfig) (qsort : Qsort) (main : TcpMain) (proto : ApplicationProtocol) :
    Machine (AgentState (Thread conns) threads) (AgentEvent (TpTcp.Event conns) threads) (AgentOutput (Effect conns)) :=
  agentProcess config qsort (main.machine proto) Effect.calls

theorem worker_balanced (positive : 0 < proto.size) {log : Log conns threads} {agent : AgentState (Thread conns) threads}
    (run : (tcpAgent config qsort main proto).Run (Hosts Loads (Exchanging proto requestSize))
      (started generators stats aggStats (throughputOpenConnections conns now)) log agent) (thread : Fin threads) :
    CreditBound.Balanced proto (workerLog thread log) (agent.workers thread).loop := by
  refine @Machine.Run.invariant _ _ _ _ _ _ (CreditBound.Balanced proto) (balanced_initially positive now) ?_ _ _
    (worker_run thread run)
  intro log before event after effect balanced exchanging stepped
  exact balanced_step positive balanced exchanging.1 stepped

theorem accountable_run (positive : 0 < proto.size) (each : stats.length = threads) {log : Log conns threads}
    {agent : AgentState (Thread conns) threads}
    (run : (tcpAgent config qsort main proto).Run (Hosts Loads (Exchanging proto requestSize))
      (started generators stats aggStats (throughputOpenConnections conns now)) log agent) : Accountable proto requestSize log agent := by
  refine @Machine.Run.invariant_of_run _ _ _ _ _ _ (Accountable proto requestSize) ?_ ?_ _ _ run
  · exact ⟨each,fun _ => queued_idle (balanced_initially positive now) true,fun flagged => absurd flagged Bool.false_ne_true,
      fun flagged => absurd flagged Bool.false_ne_true⟩
  · intro log before event after output past accountable hosted stepped
    have longer := Machine.Run.snoc past hosted stepped
    obtain ⟨scheduled,inner⟩ := hosted
    cases stepped_cases stepped with
    | message managed workers => exact accountable.message scheduled managed workers
    | resume managed workers => exact accountable.resume scheduled managed workers
    | @passed thread event state effect looped same =>
      obtain ⟨-,made,-⟩ := scheduled
      obtain ⟨served,sized⟩ := inner thread event rfl
      have balanced := worker_balanced positive past thread
      have balanced' := worker_balanced positive longer thread
      rw [same,setWorker_same] at balanced'
      obtain ⟨queued,opened⟩ := pass_queued positive balanced balanced' served sized looped true
      rw [same]
      refine accountable.worker rfl queued (opened.trans ?_)
      rw [outstanding,made]
      simp [reqsOf]
    | @returned thread event same =>
      obtain ⟨owed,room,requests,responses⟩ := accountable.queued thread
      rw [same]
      exact accountable.worker rfl ⟨owed,room,requests,responses⟩ rfl
    | idle flagged same =>
      rw [same]
      obtain ⟨length,queued,measuring,counts⟩ := accountable
      refine ⟨length,queued,?_,?_⟩
      all_goals
        rw [fresh_snoc]
      · exact measuring
      · exact counts
    | recorded calling worked same =>
      rw [same]
      exact accountable.recorded calling worked

/-- If this is the first report of a measurement, it is balanced. -/
def BalancedIfFirst (proto : ApplicationProtocol) (requestSize slots : Nat) (past : Log conns threads)
    (entry : AgentEvent (TpTcp.Event conns) threads × AgentOutput (Effect conns)) : Prop :=
  fresh past = true → ∀ type time reference, entry.1 = .message (.reportReq type) time reference →
    BalancedReport proto requestSize slots entry.2

theorem balanced_entry (positive : 0 < proto.size) (each : stats.length = threads) {log : Log conns threads}
    {agent : AgentState (Thread conns) threads}
    (run : (tcpAgent config qsort main proto).Run (Hosts Loads (Exchanging proto requestSize))
      (started generators stats aggStats (throughputOpenConnections conns now)) log agent) {past future : Log conns threads}
    {entry : AgentEvent (TpTcp.Event conns) threads × AgentOutput (Effect conns)} (split : log = past ++ entry :: future) :
    BalancedIfFirst proto requestSize (threads * (conns * maxPendingReqs)) past entry := by
  refine @Machine.Run.entries _ _ _ _ _ _ (BalancedIfFirst proto requestSize (threads * (conns * maxPendingReqs))) ?_ _ _ run
    _ _ _ split
  intro log before event after output past hosted stepped first type time reference same
  dsimp only at same
  subst same
  have accountable := accountable_run positive each past
  obtain ⟨manager,managed,returned⟩ := Outcome.bind_next stepped
  obtain ⟨⟨manager',reply⟩,handled,returned'⟩ := Outcome.bind_next managed
  cases returned'
  cases returned
  exact accountable.report first handled

/-- In every run of the agent, in any interleaving of its threads, the first report of a
measurement counts as many requests as responses, up to the slots of all connections. -/
theorem first_report_balanced (config : AgentConfig) (qsort : Qsort) (main : TcpMain) (proto : ApplicationProtocol)
    (requestSize : Nat) (positive : 0 < proto.size) (generators : Generators) (stats : List ThreadStats) (each : stats.length = threads)
    (aggStats : LatencyStats) (now : Int) (log : Log conns threads) (agent : AgentState (Thread conns) threads)
    (run : (tcpAgent config qsort main proto).Run (Hosts Loads (Exchanging proto requestSize))
      (started generators stats aggStats (throughputOpenConnections conns now)) log agent)
    (past future : Log conns threads) (type : UInt32) (time : Int) (reference : List UInt64) (output : AgentOutput (Effect conns))
    (split : log = past ++ (.message (.reportReq type) time reference,output) :: future) (first : fresh past = true) :
    BalancedReport proto requestSize (threads * (conns * maxPendingReqs)) output :=
  balanced_entry positive each run split first type time reference rfl

instance (shouldLoad : Bool) (event : TpTcp.Event conns) : Decidable (Loads shouldLoad event) :=
  match event with
  | .idle _ => inferInstanceAs (Decidable (shouldLoad = false))
  | .txReport _ _ => .isTrue trivial
  | .send _ | .epollIn _ _ _ | .epollErr _ | .epollHup _ | .epollOther _ => inferInstanceAs (Decidable (shouldLoad = true))

instance (log : List (TpTcp.Event conns × Effect conns)) (thread : Thread conns) (event : TpTcp.Event conns) :
    Decidable (Exchanging proto requestSize log thread event) :=
  match event with
  | .send attempt => decidable_of_iff (attempt.bytesToSend = requestSize)
      ⟨fun sized => ⟨trivial,fun _ same => by cases same; exact sized⟩,fun exchanging => exchanging.2 attempt rfl⟩
  | .idle now => .isTrue ⟨trivial,fun _ same => nomatch same⟩
  | .epollIn idx recv rx => decidable_of_iff (Served proto log thread (.epollIn idx recv rx))
      ⟨fun served => ⟨served,fun _ same => nomatch same⟩,And.left⟩
  | .epollErr idx => .isTrue ⟨trivial,fun _ same => nomatch same⟩
  | .epollHup idx => .isTrue ⟨trivial,fun _ same => nomatch same⟩
  | .epollOther idx => .isTrue ⟨trivial,fun _ same => nomatch same⟩
  | .txReport idx message => .isTrue ⟨trivial,fun _ same => nomatch same⟩

/-- One request before START_MEASURE whose answer is counted, and one whose answer is still out. -/
def straddling : List (AgentEvent (TpTcp.Event 1) 1) :=
  let thread : Fin 1 := ⟨0,Nat.one_pos⟩
  [.message (.startLoad 1000) 0 [],.pass thread (.send (request 0)),.record thread 0,
    .message (.startMeasure 100 20) 10 [],.pass thread (.epollIn ⟨0,Nat.one_pos⟩ (.bytes [1,2]) ⟨5,20⟩),.record thread 0,
    .pass thread (.send (request 10)),.record thread 0,.pass thread (.send (request 20)),.record thread 0,
    .message (.reportReq reportThroughputType) 1010 []]

def lastReports (log : Log 1 1) (reqCount txBytes : UInt64) : Bool :=
  match log.reverse with
  | (.message (.reportReq _) _ _,.replied (some reply)) :: past => fresh past.reverse &&
    (MeasureWindow.replyData reply).any (fun data => data.reqCount == reqCount && data.txBytes == txBytes)
  | _ => false

theorem first_report_balanced_straddling : ∃ (log : Log 1 1) (agent : AgentState (Thread 1) 1),
    (tcpAgent MeasureWindow.exampleConfig Qsort.insertion .throughput (.echo 2)).Run (Hosts Loads (Exchanging (.echo 2) 2))
      (started .exponential [⟨.zero,⟨0,fun _ => Timespec.zero⟩⟩] .zero (throughputOpenConnections 1 0)) log agent ∧ lastReports log 1 4 = true ∧
    ∃ past entry, log = past ++ [entry] ∧ BalancedReport (.echo 2) 2 16 entry.2 := by
  obtain ⟨log,agent,run,last⟩ := @Machine.run_of_follow _ _ _
    (tcpAgent MeasureWindow.exampleConfig Qsort.insertion .throughput (.echo 2)) (Hosts Loads (Exchanging (.echo 2) 2))
    (started .exponential [⟨.zero,⟨0,fun _ => Timespec.zero⟩⟩] .zero (throughputOpenConnections 1 0))
    (fun log agent event => decide (Hosts Loads (Exchanging (.echo 2) 2) log agent event)) (fun _ _ _ => of_decide_eq_true)
    straddling (fun ended => lastReports ended.1 1 4) (by decide +kernel)
  refine ⟨log,agent,run,last,?_⟩
  dsimp only at last
  rw [lastReports] at last
  split at last
  next type now reference reply past reversed =>
    have split : log = past.reverse ++ [(.message (.reportReq type) now reference,.replied (some reply))] := by
      rw [← List.reverse_reverse log,reversed,List.reverse_cons]
    refine ⟨_,_,split,?_⟩
    exact @first_report_balanced 1 1 _ _ .throughput (.echo 2) 2 Nat.two_pos _ _ rfl _ _ log agent run past.reverse [] type now reference _ split
      (Bool.and_eq_true_iff.mp last).1
  next => cases last

end Process
end Lancet.WindowBalance
