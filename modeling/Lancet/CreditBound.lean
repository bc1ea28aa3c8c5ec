import Lancet.TcpSteps
import Mathlib.Algebra.BigOperators.Fin

/-! The credit of a worker thread. The requests without an answer and the credit left add up
to the slots of all connections, and a connection's buffer never fills up. -/
namespace Lancet.CreditBound
open Foundation Timestamping Stats AppProto TpTcp TcpHistory TcpSteps

variable {conns : Nat}

def receivedBy (idx : Fin conns) : Event conns × Effect conns → Nat
  | (.epollIn other (.bytes data) _,_) => if other = idx then data.length else 0
  | _ => 0

/-- The bytes that have come in on a connection. -/
def received (idx : Fin conns) (log : List (Event conns × Effect conns)) : Nat := (log.map (receivedBy idx)).sum

theorem received_snoc (idx : Fin conns) (log : List (Event conns × Effect conns)) (event : Event conns)
    (effect : Effect conns) : received idx (log ++ [(event,effect)]) = received idx log + receivedBy idx (event,effect) := by
  simp [received]

/-- A receive returns what fits the space it is given, and the server answers only what was asked. -/
def Served (proto : ApplicationProtocol) : Machine.Environment (Thread conns) (Event conns) (Effect conns) :=
  fun log thread event =>
    match event with
    | .epollIn idx (.bytes data) _ =>
      (thread.connections idx).bufferIdx.toNat + data.length ≤ maxPayload ∧
        received idx log + data.length ≤ (requests idx log).length * proto.size
    | .epollIn _ (.error wouldBlock) _ => wouldBlock = false
    | _ => True

theorem carryOver_next {carry : Bool} {buffer buffer' : List UInt8} {bufferIdx bufferIdx' : UInt16} {consumed : Nat}
    (carried : carryOver carry buffer bufferIdx consumed = .next (buffer',bufferIdx')) :
    bufferIdx'.toNat = bufferIdx.toNat - consumed := by
  have range := bufferIdx.toNat_lt
  rw [carryOver] at carried
  split at carried
  next whole =>
    cases carried
    rw [whole,Nat.sub_self]
    rfl
  next =>
    split at carried
    next part =>
      split at carried
      next =>
        split at carried
        next => cases carried
        next =>
          cases carried
          exact UInt16.toNat_ofNat_of_lt' (by unfold UInt16.size; omega)
      next => cases carried
    next => cases carried

/-- A receive that goes through answers the whole responses held and keeps the rest. -/
theorem replied_spec {carry : Bool} {proto : ApplicationProtocol} {conn conn' : TcpConnection} {data : List UInt8}
    {readRes : Consumed} (positive : 0 < proto.size) (fits : conn.bufferIdx.toNat + data.length ≤ maxPayload)
    (replied : receive carry proto conn (.bytes data) = .next (.responses conn' readRes)) :
    readRes.reqs = (conn.bufferIdx.toNat + data.length) / proto.size ∧
      conn'.pendingReqs = conn.pendingReqs - UInt16.ofNat readRes.reqs ∧
      conn'.bufferIdx.toNat = (conn.bufferIdx.toNat + data.length) % proto.size := by
  have nonempty : data ≠ [] := by
    rintro rfl
    cases replied
  have stored : (UInt16.ofInt (conn.bufferIdx.toNat + (data.length : Int))).toNat = conn.bufferIdx.toNat + data.length := by
    unfold maxPayload at fits
    simp [UInt16.ofInt]
    omega
  rw [receive_bytes carry proto conn data nonempty] at replied
  obtain ⟨readRes',consumed,replied⟩ := Outcome.bind_next replied
  obtain ⟨⟨buffer,bufferIdx⟩,carried,replied⟩ := Outcome.bind_next replied
  obtain ⟨_,counted,replied⟩ := Outcome.bind_next replied
  cases replied
  rw [Outcome.assert_next,decide_eq_true_eq] at counted
  have left := carryOver_next carried
  rw [stored] at consumed left
  generalize conn.bufferIdx.toNat + data.length = held at consumed left ⊢
  rcases Nat.lt_or_ge held proto.size with short | full
  · rcases consumeResponse_short proto held short with failed | nothing
    · rw [failed] at consumed
      cases consumed
    · rw [nothing] at consumed
      cases consumed
      exact absurd counted (Nat.lt_irrefl 0)
  · rw [consumeResponse_full proto held positive full] at consumed
    cases consumed
    refine ⟨rfl,rfl,?_⟩
    have parts : proto.size * (held / proto.size) + held % proto.size = held := Nat.div_add_mod held proto.size
    dsimp only at left ⊢
    omega

def totalPending (thread : Thread conns) : Int := ∑ idx, ((thread.connections idx).pendingReqs.toNat : Int)

/-- What one connection has been sent, has answered and still holds. -/
structure Ledger (proto : ApplicationProtocol) (log : List (Event conns × Effect conns)) (thread : Thread conns)
    (idx : Fin conns) : Prop where
  gated : (thread.connections idx).pendingReqs.toNat ≤ maxPendingReqs
  credit : answered idx log + (thread.connections idx).pendingReqs.toNat = (requests idx log).length
  bytes : answered idx log * proto.size + (thread.connections idx).bufferIdx.toNat = received idx log
  unfinished : (thread.connections idx).bufferIdx.toNat < proto.size

structure Balanced (proto : ApplicationProtocol) (log : List (Event conns × Effect conns)) (thread : Thread conns) : Prop where
  ledger : ∀ idx, Ledger proto log thread idx
  total : totalPending thread + thread.availReqs = conns * maxPendingReqs

theorem balanced_initially {proto : ApplicationProtocol} (positive : 0 < proto.size) (now : Int) :
    Balanced proto [] (throughputOpenConnections conns now) where
  ledger _ := ⟨Nat.zero_le _,rfl,by simp [answered,received,throughputOpenConnections],positive⟩
  total := by simp [totalPending,throughputOpenConnections]

theorem totalPending_update (thread : Thread conns) (idx : Fin conns) (conn : TcpConnection) :
    totalPending (setConnection thread idx conn) =
      totalPending thread + conn.pendingReqs.toNat - (thread.connections idx).pendingReqs.toNat := by
  have updated : ∀ other, ((Function.update thread.connections idx conn other).pendingReqs.toNat : Int) =
      Function.update (fun other => ((thread.connections other).pendingReqs.toNat : Int)) idx conn.pendingReqs.toNat other := by
    intro other
    by_cases same : other = idx
    · rw [same,Function.update_self,Function.update_self]
    · rw [Function.update_of_ne same,Function.update_of_ne same]
  have changed := Finset.sum_update_of_mem (Finset.mem_univ idx)
    (fun other => ((thread.connections other).pendingReqs.toNat : Int)) (conn.pendingReqs.toNat : Int)
  have split := Finset.sum_sdiff (Finset.subset_univ {idx}) (f := fun other => ((thread.connections other).pendingReqs.toNat : Int))
  rw [Finset.sum_singleton] at split
  rw [totalPending,totalPending,setConnection]
  dsimp only
  rw [Finset.sum_congr rfl (fun other _ => updated other),changed]
  omega

/-- A step that neither sends nor answers nor receives on a connection leaves its ledger. -/
theorem Ledger.frame {proto : ApplicationProtocol} {log : List (Event conns × Effect conns)} {before after : Thread conns}
    {idx : Fin conns} (ledger : Ledger proto log before idx) {event : Event conns} {effect : Effect conns}
    (silent : requestOf idx (event,effect) = none) (unanswered : answeredBy idx (event,effect) = 0)
    (nothing : receivedBy idx (event,effect) = 0)
    (pending : (after.connections idx).pendingReqs = (before.connections idx).pendingReqs)
    (bufferIdx : (after.connections idx).bufferIdx = (before.connections idx).bufferIdx) :
    Ledger proto (log ++ [(event,effect)]) after idx := by
  obtain ⟨gated,credit,bytes,unfinished⟩ := ledger
  constructor
  · rw [pending]
    exact gated
  · rw [answered_snoc,requests_snoc,unanswered,silent,Option.toList_none,List.append_nil,pending]
    exact credit
  · rw [answered_snoc,received_snoc,unanswered,nothing,bufferIdx]
    exact bytes
  · rw [bufferIdx]
    exact unfinished

theorem pending_succ {thread : Thread conns} {draws : Fin 10 → Fin conns} {idx : Fin conns}
    (picked : pickConn thread draws = some idx) :
    ((thread.connections idx).pendingReqs + 1).toNat = (thread.connections idx).pendingReqs.toNat + 1 := by
  have room := pickConn_some picked
  rw [UInt16.toNat_add]
  exact Nat.mod_eq_of_lt (by unfold maxPendingReqs at room; change _ + 1 < 2^16; omega)

theorem Ledger.sent {proto : ApplicationProtocol} {log : List (Event conns × Effect conns)} {before : Thread conns}
    {idx : Fin conns} (ledger : Ledger proto log before idx) {attempt : SendAttempt conns} {effect : Effect conns}
    {ring : PendingTxTimestamps} (picked : pickConn before attempt.draws = some idx) (sent : effect.sent = some idx)
    (silent : effect.answered = none) :
    Ledger proto (log ++ [(.send attempt,effect)]) (creditSend before idx ring attempt.ia) idx := by
  obtain ⟨gated,credit,bytes,unfinished⟩ := ledger
  have more := pending_succ picked
  have request : requestOf idx (.send attempt,effect) = some attempt := if_pos sent
  have unanswered : answeredBy idx (.send attempt,effect) = 0 := by rw [answeredBy,silent]
  constructor
  · simp only [creditSend,Function.update_self,more]
    exact pickConn_some picked
  · simp only [creditSend,Function.update_self,more]
    rw [answered_snoc,requests_snoc,unanswered,request,List.length_append,← credit]
    rfl
  · simp only [creditSend,Function.update_self]
    rw [answered_snoc,received_snoc,unanswered]
    exact bytes
  · simp only [creditSend,Function.update_self]
    exact unfinished

theorem Ledger.replied {proto : ApplicationProtocol} {log : List (Event conns × Effect conns)} {before after : Thread conns}
    {idx : Fin conns} (positive : 0 < proto.size) (ledger : Ledger proto log before idx) {carry : Bool} {data : List UInt8}
    (rx : Timespec) {effect : Effect conns} {conn : TcpConnection} {readRes : Consumed}
    (fits : (before.connections idx).bufferIdx.toNat + data.length ≤ maxPayload)
    (asked : received idx log + data.length ≤ (requests idx log).length * proto.size)
    (replied : receive carry proto (before.connections idx) (.bytes data) = .next (.responses conn readRes))
    (connections : after.connections = Function.update before.connections idx conn)
    (credited : effect.answered = some (idx,readRes.reqs)) :
    Ledger proto (log ++ [(.epollIn idx (.bytes data) rx,effect)]) after idx ∧
      conn.pendingReqs.toNat + readRes.reqs = (before.connections idx).pendingReqs.toNat := by
  obtain ⟨gated,credit,bytes,unfinished⟩ := ledger
  obtain ⟨count,pending,left⟩ := replied_spec positive fits replied
  have parts := Nat.div_add_mod ((before.connections idx).bufferIdx.toNat + data.length) proto.size
  rw [← count,Nat.mul_comm] at parts
  -- the server owes an answer for each response that came in
  have owed : readRes.reqs ≤ (before.connections idx).pendingReqs.toNat := by
    have together : (answered idx log + readRes.reqs) * proto.size ≤
        (answered idx log + (before.connections idx).pendingReqs.toNat) * proto.size := by
      rw [credit,Nat.add_mul]
      omega
    have counts := Nat.le_of_mul_le_mul_right together positive
    omega
  have fewer : conn.pendingReqs.toNat = (before.connections idx).pendingReqs.toNat - readRes.reqs := by
    rw [pending]
    exact @answeredConn_pending (before.connections idx) readRes.reqs data owed
  have reply : answeredBy idx (.epollIn idx (.bytes data) rx,effect) = readRes.reqs := by
    rw [answeredBy,credited]
    exact if_pos rfl
  have arrived : receivedBy idx (.epollIn idx (.bytes data) rx,effect) = data.length := if_pos rfl
  have silent : requestOf idx (.epollIn idx (.bytes data) rx,effect) = none := rfl
  refine ⟨?_,by omega⟩
  constructor
  · rw [connections,Function.update_self,fewer]
    omega
  · rw [connections,Function.update_self,fewer,answered_snoc,requests_snoc,silent,reply,Option.toList_none,List.append_nil]
    omega
  · rw [connections,Function.update_self,answered_snoc,received_snoc,reply,arrived,left,Nat.add_mul]
    omega
  · rw [connections,Function.update_self,left]
    exact Nat.mod_lt _ positive

theorem Balanced.frame {proto : ApplicationProtocol} {log : List (Event conns × Effect conns)} {before after : Thread conns}
    (balanced : Balanced proto log before) {event : Event conns} {effect : Effect conns}
    (silent : ∀ idx, requestOf idx (event,effect) = none) (unanswered : effect.answered = none)
    (nothing : ∀ idx, receivedBy idx (event,effect) = 0)
    (pending : ∀ idx, (after.connections idx).pendingReqs = (before.connections idx).pendingReqs)
    (bufferIdx : ∀ idx, (after.connections idx).bufferIdx = (before.connections idx).bufferIdx)
    (availReqs : after.availReqs = before.availReqs) : Balanced proto (log ++ [(event,effect)]) after := by
  obtain ⟨ledger,total⟩ := balanced
  constructor
  · intro idx
    refine (ledger idx).frame (silent idx) ?_ (nothing idx) (pending idx) (bufferIdx idx)
    rw [answeredBy,unanswered]
  · have same : totalPending after = totalPending before :=
      Finset.sum_congr rfl fun idx _ => by rw [pending idx]
    rw [same,availReqs]
    exact total

theorem Balanced.sent {proto : ApplicationProtocol} {log : List (Event conns × Effect conns)} {before : Thread conns}
    (balanced : Balanced proto log before) {attempt : SendAttempt conns} {effect : Effect conns} {chosen : Fin conns}
    {ring : PendingTxTimestamps} (picked : pickConn before attempt.draws = some chosen) (sent : effect.sent = some chosen)
    (unanswered : effect.answered = none) :
    Balanced proto (log ++ [(.send attempt,effect)]) (creditSend before chosen ring attempt.ia) := by
  obtain ⟨ledger,total⟩ := balanced
  constructor
  · intro idx
    by_cases same : idx = chosen
    · subst same
      exact (ledger idx).sent picked sent unanswered
    · refine (ledger idx).frame ?_ ?_ rfl ?_ ?_
      · rw [requestOf,sent,if_neg]
        exact fun equal => same (Option.some.inj equal).symm
      · rw [answeredBy,unanswered]
      · simp only [creditSend,Function.update_of_ne same]
      · simp only [creditSend,Function.update_of_ne same]
  · have spent : totalPending (creditSend before chosen ring attempt.ia) = totalPending before +
        ((before.connections chosen).pendingReqs + 1).toNat - (before.connections chosen).pendingReqs.toNat :=
      totalPending_update before chosen _
    rw [spent,pending_succ picked]
    dsimp only [creditSend]
    omega

theorem Balanced.replied {proto : ApplicationProtocol} {log : List (Event conns × Effect conns)} {before after : Thread conns}
    (positive : 0 < proto.size) (balanced : Balanced proto log before) {carry : Bool} {data : List UInt8} (rx : Timespec)
    {effect : Effect conns} {chosen : Fin conns} {conn : TcpConnection} {readRes : Consumed}
    (fits : (before.connections chosen).bufferIdx.toNat + data.length ≤ maxPayload)
    (asked : received chosen log + data.length ≤ (requests chosen log).length * proto.size)
    (replied : receive carry proto (before.connections chosen) (.bytes data) = .next (.responses conn readRes))
    (connections : after.connections = Function.update before.connections chosen conn)
    (availReqs : after.availReqs = before.availReqs + readRes.reqs)
    (credited : effect.answered = some (chosen,readRes.reqs)) :
    Balanced proto (log ++ [(.epollIn chosen (.bytes data) rx,effect)]) after := by
  obtain ⟨ledger,total⟩ := balanced
  obtain ⟨own,owed⟩ := (ledger chosen).replied positive rx fits asked replied connections credited
  constructor
  · intro idx
    by_cases same : idx = chosen
    · subst same
      exact own
    · refine (ledger idx).frame rfl ?_ ?_ ?_ ?_
      · rw [answeredBy,credited]
        exact if_neg (Ne.symm same)
      · exact if_neg (Ne.symm same)
      · rw [connections,Function.update_of_ne same]
      · rw [connections,Function.update_of_ne same]
  · have changed := totalPending_update before chosen conn
    have same : totalPending after = totalPending (setConnection before chosen conn) := by
      rw [totalPending,connections]
      rfl
    rw [same,changed,availReqs]
    omega

theorem closed_frame (thread : Thread conns) (chosen idx : Fin conns) :
    ((setConnection thread chosen {thread.connections chosen with closed := true}).connections idx).pendingReqs =
        (thread.connections idx).pendingReqs ∧
      ((setConnection thread chosen {thread.connections chosen with closed := true}).connections idx).bufferIdx =
        (thread.connections idx).bufferIdx := by
  by_cases same : idx = chosen
  · subst same
    simp [setConnection]
  · simp [setConnection,Function.update_of_ne same]

theorem balanced_step {main : TcpMain} {proto : ApplicationProtocol} (positive : 0 < proto.size)
    {log : List (Event conns × Effect conns)} {before after : Thread conns} {event : Event conns} {effect : Effect conns}
    (balanced : Balanced proto log before) (served : Served proto log before event)
    (stepped : (main.machine proto).step before event = .next (after,effect)) :
    Balanced proto (log ++ [(event,effect)]) after := by
  cases accounted_step stepped with
  | paused same sent answers =>
    subst same
    exact balanced.frame (fun _ => rfl) answers (fun _ => rfl) (fun _ => rfl) (fun _ => rfl) rfl
  | unsent same sent answers =>
    subst same
    refine balanced.frame ?_ answers (fun _ => rfl) (fun _ => rfl) (fun _ => rfl) rfl
    intro idx
    rw [requestOf,sent]
    rfl
  | sent picked due whole credited sent answers =>
    subst credited
    exact balanced.sent picked sent answers
  | @closed chosen rx _ same sent answers =>
    subst same
    refine balanced.frame (fun _ => rfl) answers ?_ (fun idx => (closed_frame before chosen idx).1)
      (fun idx => (closed_frame before chosen idx).2) rfl
    intro idx
    simp [receivedBy]
  | @replied chosen recv rx _ conn readRes replied connections availReqs nextTx sent credited =>
    cases recv with
    | error wouldBlock =>
      have failed : wouldBlock = false := served
      subst failed
      cases replied
    | bytes data =>
      obtain ⟨fits,asked⟩ := served
      exact balanced.replied positive rx fits asked replied connections availReqs credited
  | aside kind same =>
    obtain ⟨connections,availReqs,nextTx,sent,answers⟩ := same
    have quiet : ∀ idx, requestOf idx (event,effect) = none ∧ receivedBy idx (event,effect) = 0 := by
      intro idx
      obtain ⟨_,rfl⟩ | ⟨_,rfl⟩ | ⟨_,_,rfl⟩ := kind.cases
      all_goals exact ⟨rfl,rfl⟩
    refine balanced.frame (fun idx => (quiet idx).1) answers (fun idx => (quiet idx).2) ?_ ?_ availReqs
    · intro idx
      rw [connections]
    · intro idx
      rw [connections]

/-- In every state the three loops reach, the credit is conserved and every receive has room. -/
theorem credit_conserved (main : TcpMain) (proto : ApplicationProtocol) (positive : 0 < proto.size)
    (small : proto.size ≤ maxPayload) (now : Int) (log : List (Event conns × Effect conns)) (thread : Thread conns)
    (run : (main.machine proto).Run (Served proto) (throughputOpenConnections conns now) log thread) :
    totalPending thread + thread.availReqs = conns * maxPendingReqs ∧
      ∀ idx, (thread.connections idx).pendingReqs.toNat ≤ maxPendingReqs ∧
        (thread.connections idx).pendingReqs.toNat + answered idx log = (requests idx log).length ∧
        (thread.connections idx).bufferIdx.toNat < proto.size ∧ 1 ≤ maxPayload - (thread.connections idx).bufferIdx.toNat := by
  have balanced : Balanced proto log thread := by
    refine @Machine.Run.invariant _ _ _ _ _ _ (Balanced proto) (balanced_initially positive now) ?_ _ _ run
    intro log before event after effect balanced served stepped
    exact balanced_step positive balanced served stepped
  refine ⟨balanced.total,fun idx => ?_⟩
  obtain ⟨gated,credit,bytes,unfinished⟩ := balanced.ledger idx
  exact ⟨gated,by omega,unfinished,by omega⟩

instance (proto : ApplicationProtocol) (log : List (Event conns × Effect conns)) (thread : Thread conns) (event : Event conns) :
    Decidable (Served proto log thread event) :=
  match event with
  | .epollIn _ (.bytes _) _ => inferInstanceAs (Decidable (_ ∧ _))
  | .epollIn _ (.error wouldBlock) _ => inferInstanceAs (Decidable (wouldBlock = false))
  | .idle _ | .send _ | .epollErr _ | .epollHup _ | .epollOther _ | .txReport _ _ => .isTrue trivial

def request (now : Int) : SendAttempt 1 := ⟨now,false,fun _ => ⟨0,Nat.one_pos⟩,⟨5,0⟩,2,.bytes 2,10⟩

/-- Two requests of `echo:2`, then one answer and a half in one receive. -/
def halfAnswered : List (Event 1) :=
  [.send (request 0),.send (request 10),.epollIn ⟨0,Nat.one_pos⟩ (.bytes [1,2,3]) ⟨5,20⟩]

theorem credit_conserved_half : ∃ log thread,
    (TcpMain.throughput.machine (.echo 2)).Run (Served (.echo 2)) (throughputOpenConnections 1 0) log thread ∧
      (thread.connections ⟨0,Nat.one_pos⟩).bufferIdx = 1 ∧ totalPending thread + thread.availReqs = (1 : Nat) * maxPendingReqs := by
  obtain ⟨log,thread,run,half⟩ := @Machine.run_of_follow _ _ _ (TcpMain.throughput.machine (.echo 2)) (Served (.echo 2))
    (throughputOpenConnections 1 0) (fun log thread event => decide (Served (.echo 2) log thread event))
    (fun _ _ _ => of_decide_eq_true) halfAnswered
    (fun ended => (ended.2.connections ⟨0,Nat.one_pos⟩).bufferIdx == 1) (by decide +kernel)
  exact ⟨log,thread,run,eq_of_beq half,(credit_conserved .throughput (.echo 2) (by decide) (by decide) 0 log thread run).1⟩

end Lancet.CreditBound
