import Lancet.TpTcp

/-! What the log of a transport loop says about one connection, and what one step of a
loop can do. -/
namespace Lancet.TcpHistory
open Foundation Timestamping Stats AppProto TpTcp

variable {conns : Nat}

def requestOf (idx : Fin conns) : Event conns × Effect conns → Option (SendAttempt conns)
  | (.send attempt,effect) => if effect.sent = some idx then some attempt else none
  | _ => none

/-- The requests sent on a connection, in their order. -/
def requests (idx : Fin conns) (log : List (Event conns × Effect conns)) : List (SendAttempt conns) :=
  log.filterMap (requestOf idx)

def answeredBy (idx : Fin conns) (entry : Event conns × Effect conns) : Nat :=
  match entry.2.answered with
  | some (other,reqs) => if other = idx then reqs else 0
  | none => 0

def answered (idx : Fin conns) (log : List (Event conns × Effect conns)) : Nat :=
  (log.map (answeredBy idx)).sum

theorem requests_snoc (idx : Fin conns) (log : List (Event conns × Effect conns)) (event : Event conns)
    (effect : Effect conns) :
    requests idx (log ++ [(event,effect)]) = requests idx log ++ (requestOf idx (event,effect)).toList := by
  simp only [requests,List.filterMap_append,List.filterMap_cons,List.filterMap_nil]
  cases requestOf idx (event,effect) with
  | none => rfl
  | some attempt => rfl

theorem answered_snoc (idx : Fin conns) (log : List (Event conns × Effect conns)) (event : Event conns)
    (effect : Effect conns) :
    answered idx (log ++ [(event,effect)]) = answered idx log + answeredBy idx (event,effect) := by
  simp [answered]

/-- The server answers in order and only what was asked, in whole responses that fit
the space `recv` is given. -/
def Delivers (proto : ApplicationProtocol) (log : List (Event conns × Effect conns)) (thread : Thread conns)
    (idx : Fin conns) (data : List UInt8) : Prop :=
  (thread.connections idx).bufferIdx.toNat + data.length ≤ maxPayload ∧
    proto.size ∣ data.length ∧ answered idx log + data.length / proto.size ≤ (requests idx log).length

instance (proto : ApplicationProtocol) (log : List (Event conns × Effect conns)) (thread : Thread conns)
    (idx : Fin conns) (data : List UInt8) : Decidable (Delivers proto log thread idx data) :=
  inferInstanceAs (Decidable (_ ∧ _))

theorem Delivers.whole {proto : ApplicationProtocol} {log : List (Event conns × Effect conns)}
    {thread : Thread conns} {idx : Fin conns} {data : List UInt8} (delivers : Delivers proto log thread idx data) :
    data.length = data.length / proto.size * proto.size :=
  (Nat.div_mul_cancel delivers.2.1).symm

theorem Delivers.positive {proto : ApplicationProtocol} {log : List (Event conns × Effect conns)}
    {thread : Thread conns} {idx : Fin conns} {data : List UInt8} (delivers : Delivers proto log thread idx data)
    (nonempty : data ≠ []) : 0 < data.length / proto.size := by
  have long : 0 < data.length := List.length_pos_iff.mpr nonempty
  exact Nat.div_pos (Nat.le_of_dvd long delivers.2.1) (Nat.pos_of_dvd_of_pos delivers.2.1 long)

theorem Delivers.fits {proto : ApplicationProtocol} {log : List (Event conns × Effect conns)}
    {thread : Thread conns} {idx : Fin conns} {data : List UInt8} (delivers : Delivers proto log thread idx data)
    (empty : (thread.connections idx).bufferIdx = 0) : data.length ≤ maxPayload := by
  have fits := delivers.1
  rw [empty] at fits
  simpa using fits

theorem pickConn_some {thread : Thread conns} {draws : Fin 10 → Fin conns} {idx : Fin conns}
    (picked : pickConn thread draws = some idx) :
    (thread.connections idx).pendingReqs.toNat < maxPendingReqs := by
  have chosen := List.find?_some picked
  simp only [Bool.and_eq_true,decide_eq_true_eq] at chosen
  exact chosen.1

theorem sendPath_cases {onSent : PendingTxTimestamps → PendingTxTimestamps × List StatsCall}
    {before after : Thread conns} {attempt : SendAttempt conns} {effect : Effect conns}
    (sent : sendPath onSent before attempt = .next (after,effect)) :
    (after = before ∧ effect = {calls := []}) ∨
      ∃ idx, pickConn before attempt.draws = some idx ∧ 0 ≤ attempt.now - before.nextTx ∧
        attempt.sent = .bytes attempt.bytesToSend ∧ after = creditSend before idx (onSent (before.perConnTxTimestamps idx)).1 attempt.ia ∧
        effect = {calls := (onSent (before.perConnTxTimestamps idx)).2 ++
          [.throughputTx ⟨UInt64.ofNat attempt.bytesToSend,1⟩],sent := some idx} := by
  unfold sendPath at sent
  split at sent
  next early =>
    cases sent
    exact .inl ⟨rfl,rfl⟩
  next due =>
    split at sent
    next none =>
      cases sent
      exact .inl ⟨rfl,rfl⟩
    next idx picked =>
      obtain ⟨_,checked,credited⟩ := Outcome.bind_next sent
      cases outcome : attempt.sent with
      | bytes count =>
        rw [outcome,checkSent,Outcome.assert_next,decide_eq_true_eq] at checked
        cases credited
        exact .inr ⟨idx,picked,Int.not_lt.mp due,by rw [checked],rfl,rfl⟩
      | error wouldBlock => cases wouldBlock <;> simp [outcome,checkSent] at checked

theorem receive_bytes (carry : Bool) (proto : ApplicationProtocol) (conn : TcpConnection) (data : List UInt8)
    (nonempty : data ≠ []) :
    receive carry proto conn (.bytes data) = processReceived carry proto conn data.length data := by
  obtain ⟨byte,rest,rfl⟩ := List.exists_cons_of_ne_nil nonempty
  rfl

def answeredConn (conn : TcpConnection) (data : List UInt8) (reqs : Nat) : TcpConnection :=
  {conn with pendingReqs := conn.pendingReqs - UInt16.ofNat reqs, bufferIdx := 0, buffer := store conn.buffer 0 data}

theorem answeredConn_pending {conn : TcpConnection} {reqs : Nat} (data : List UInt8)
    (small : reqs ≤ conn.pendingReqs.toNat) :
    (answeredConn conn data reqs).pendingReqs.toNat = conn.pendingReqs.toNat - reqs := by
  have range := conn.pendingReqs.toNat_lt
  have count : (UInt16.ofNat reqs).toNat = reqs := UInt16.toNat_ofNat_of_lt' (by unfold UInt16.size; omega)
  have below : UInt16.ofNat reqs ≤ conn.pendingReqs := by
    rw [UInt16.le_iff_toNat_le,count]
    exact small
  rw [answeredConn,UInt16.toNat_sub_of_le _ _ below,count]

/-- Whole responses into an empty buffer leave it empty. -/
theorem receive_whole (carry : Bool) (proto : ApplicationProtocol) (conn : TcpConnection) (data : List UInt8)
    (reqs : Nat) (empty : conn.bufferIdx = 0) (fits : data.length ≤ maxPayload) (nonempty : data ≠ [])
    (whole : data.length = reqs * proto.size) :
    receive carry proto conn (.bytes data) = .next (.responses (answeredConn conn data reqs) ⟨data.length,reqs⟩) := by
  have long : 0 < data.length := List.length_pos_iff.mpr nonempty
  have counted : 0 < reqs := Nat.pos_of_mul_pos_right (whole ▸ long)
  have positive : 0 < proto.size := Nat.pos_of_mul_pos_left (whole ▸ long)
  have full : proto.size ≤ data.length := by
    rw [whole]
    exact Nat.le_mul_of_pos_left _ counted
  have divided : data.length / proto.size = reqs := by rw [whole,Nat.mul_div_cancel _ positive]
  have consumed := consumeResponse_full proto data.length positive full
  rw [divided,Nat.mul_comm,← whole] at consumed
  have stored : (UInt16.ofInt (data.length : Int)).toNat = data.length := by
    unfold maxPayload at fits
    simp [UInt16.ofInt]
    omega
  rw [receive_bytes carry proto conn data nonempty]
  simp [processReceived,empty,stored,consumed,carryOver,counted,answeredConn]

theorem readTxReport_quiet {thread : Thread conns} {idx : Fin conns} (quiet : thread.errQueue idx = []) :
    readTxReport thread idx = .next (thread,[]) := by
  have unchanged : Function.update thread.errQueue idx [] = thread.errQueue := by
    rw [← quiet,Function.update_eq_self]
  simp [readTxReport,getTxTimestamp,quiet,setRing,unchanged]

theorem toNat_succ {counter : UInt32} (bounded : counter.toNat + 1 < 2^32) :
    (counter + 1).toNat = counter.toNat + 1 := by
  rw [UInt32.toNat_add]
  exact Nat.mod_eq_of_lt bounded

theorem ofInt_natCast (n : Nat) : UInt32.ofInt (n : Int) = UInt32.ofNat n := by
  apply UInt32.toNat_inj.mp
  simp [UInt32.ofInt]
  omega

theorem skipBatch_consumed (ring : PendingTxTimestamps) (reqs : Nat) (positive : 0 < reqs)
    (bounded : ring.consumed.toNat + reqs < 2^32) :
    skipBatch ring reqs = {ring with consumed := ring.consumed + UInt32.ofNat (reqs - 1)} ∧
      (ring.consumed + UInt32.ofNat (reqs - 1)).toNat = ring.consumed.toNat + (reqs - 1) := by
  constructor
  · unfold skipBatch blindSkipTxTimestamps
    by_cases several : 1 < reqs
    · have skipped : (0 : Int) < reqs - 1 := by omega
      have amount : ((reqs : Int) - 1) = ((reqs - 1 : Nat) : Int) := by omega
      rw [if_pos several,if_pos skipped,amount,ofInt_natCast]
    · have single : reqs = 1 := by omega
      subst single
      simp
  · rw [UInt32.toNat_add,UInt32.toNat_ofNat_of_lt' (show reqs - 1 < UInt32.size by unfold UInt32.size; omega)]
    exact Nat.mod_eq_of_lt (by omega)

end Lancet.TcpHistory
