import Lancet.TcpHistory

/-! Responses that arrive over several receives of the throughput agent. A part of a
response is carried over in the connection's buffer, but a receive that completes none
trips an assertion. -/
namespace Lancet.Reassembly
open Foundation Timestamping Stats AppProto TpTcp TcpHistory

variable {conns : Nat}

/-- The receives of one connection: none is empty and each fits the space left. -/
def Receivable (size carry : Nat) : List (List UInt8) → Prop
  | [] => True
  | chunk :: rest => chunk ≠ [] ∧ carry + chunk.length ≤ maxPayload ∧
      Receivable size ((carry + chunk.length) % size) rest

/-- Every receive brings the bytes held to a whole response at least. -/
def Completing (size carry : Nat) : List (List UInt8) → Prop
  | [] => True
  | chunk :: rest => size ≤ carry + chunk.length ∧ Completing size ((carry + chunk.length) % size) rest

instance decidableCompleting (size carry : Nat) : (chunks : List (List UInt8)) → Decidable (Completing size carry chunks)
  | [] => isTrue trivial
  | chunk :: rest =>
    have := decidableCompleting size ((carry + chunk.length) % size) rest
    inferInstanceAs (Decidable (_ ∧ _))

def pairOf : StatsCall → ByteReqPair
  | .throughputRx rxP => rxP
  | _ => .zero

def counted (effects : List (Effect conns)) : ByteReqPair :=
  (effects.flatMap (·.calls)).foldr (fun call rest => (pairOf call).add rest) .zero

structure Credit where
  pendingReqs : UInt16
  bufferIdx : UInt16
  availReqs : Int
  rx : ByteReqPair
  deriving DecidableEq, Repr

/-- What a sequence of receives on one connection leaves there. -/
def credit (proto : ApplicationProtocol) (thread : Thread conns) (idx : Fin conns) (rx : Timespec)
    (chunks : List (List UInt8)) : Outcome Credit := do
  let (after,effects) ← (throughputTcpMain proto).execute thread (chunks.map (fun chunk => .epollIn idx (.bytes chunk) rx))
  return ⟨(after.connections idx).pendingReqs,(after.connections idx).bufferIdx,after.availReqs,counted effects⟩

def fullCredit (proto : ApplicationProtocol) (thread : Thread conns) (idx : Fin conns) (reqs : Nat) : Credit :=
  ⟨UInt16.ofNat ((thread.connections idx).pendingReqs.toNat - reqs),0,thread.availReqs + reqs,
    ⟨UInt64.ofNat (reqs * proto.size),UInt64.ofNat reqs⟩⟩

theorem stored_length {conn : TcpConnection} {chunk : List UInt8}
    (fits : conn.bufferIdx.toNat + chunk.length ≤ maxPayload) :
    (UInt16.ofInt (conn.bufferIdx.toNat + (chunk.length : Int))).toNat = conn.bufferIdx.toNat + chunk.length := by
  unfold maxPayload at fits
  simp [UInt16.ofInt]
  omega

theorem receive_short {proto : ApplicationProtocol} {conn : TcpConnection} {chunk : List UInt8}
    (nonempty : chunk ≠ []) (fits : conn.bufferIdx.toNat + chunk.length ≤ maxPayload)
    (short : conn.bufferIdx.toNat + chunk.length < proto.size) :
    receive true proto conn (.bytes chunk) = .fault := by
  have long : 0 < chunk.length := List.length_pos_iff.mpr nonempty
  have different : ¬ 0 = conn.bufferIdx.toNat + chunk.length := by omega
  have earlier : 0 < conn.bufferIdx.toNat + chunk.length := by omega
  have inside : ¬ maxPayload < conn.bufferIdx.toNat + chunk.length := by omega
  rw [receive_bytes true proto conn chunk nonempty]
  simp only [processReceived,stored_length fits]
  rcases consumeResponse_short proto _ short with failed | nothing
  · rw [failed,Outcome.fault_bind]
  · rw [nothing,Outcome.next_bind]
    simp only [carryOver,stored_length fits,different,earlier,inside,if_true,if_false,Outcome.next_bind]
    rfl

theorem carryOver_rest (buffer : List UInt8) {bufferIdx : UInt16} {consumed : Nat}
    (inside : consumed ≤ bufferIdx.toNat) (bound : bufferIdx.toNat ≤ maxPayload) :
    ∃ buffer', carryOver true buffer bufferIdx consumed = .next (buffer',UInt16.ofNat (bufferIdx.toNat - consumed)) := by
  by_cases whole : consumed = bufferIdx.toNat
  · refine ⟨buffer,?_⟩
    rw [carryOver,if_pos whole,whole,Nat.sub_self]
    rfl
  · have earlier : consumed < bufferIdx.toNat := by omega
    exact ⟨_,by rw [carryOver,if_neg whole,if_pos earlier,if_pos rfl,if_neg (by omega)]⟩

theorem receive_complete {proto : ApplicationProtocol} {conn : TcpConnection} {chunk : List UInt8}
    (nonempty : chunk ≠ []) (fits : conn.bufferIdx.toNat + chunk.length ≤ maxPayload) (positive : 0 < proto.size)
    (full : proto.size ≤ conn.bufferIdx.toNat + chunk.length) :
    ∃ conn' : TcpConnection, receive true proto conn (.bytes chunk) = .next (.responses conn'
        ⟨proto.size * ((conn.bufferIdx.toNat + chunk.length) / proto.size),
          (conn.bufferIdx.toNat + chunk.length) / proto.size⟩) ∧
      conn'.pendingReqs = conn.pendingReqs - UInt16.ofNat ((conn.bufferIdx.toNat + chunk.length) / proto.size) ∧
      conn'.bufferIdx.toNat = (conn.bufferIdx.toNat + chunk.length) % proto.size := by
  generalize total : conn.bufferIdx.toNat + chunk.length = held at *
  have counted : 0 < held / proto.size := Nat.div_pos full positive
  have parts : proto.size * (held / proto.size) + held % proto.size = held := Nat.div_add_mod held proto.size
  have stored := stored_length (total ▸ fits)
  rw [total] at stored
  have bound : (UInt16.ofInt (conn.bufferIdx.toNat + (chunk.length : Int))).toNat ≤ maxPayload := by rw [stored]; exact fits
  have inside : proto.size * (held / proto.size) ≤ (UInt16.ofInt (conn.bufferIdx.toNat + (chunk.length : Int))).toNat := by
    rw [stored]
    omega
  obtain ⟨buffer,carried⟩ := carryOver_rest (store conn.buffer conn.bufferIdx.toNat chunk) inside bound
  refine ⟨⟨conn.closed,conn.pendingReqs - UInt16.ofNat (held / proto.size),
    UInt16.ofNat (held - proto.size * (held / proto.size)),buffer⟩,?_,rfl,?_⟩
  · rw [receive_bytes true proto conn chunk nonempty]
    simp only [processReceived,stored,consumeResponse_full proto held positive full,Outcome.next_bind,carried,
      decide_eq_true counted,Outcome.assert_true]
    rfl
  · have rest : held - proto.size * (held / proto.size) = held % proto.size := by omega
    have small := Nat.mod_lt held positive
    unfold maxPayload at fits
    rw [rest]
    exact UInt16.toNat_ofNat_of_lt' (by unfold UInt16.size; omega)

theorem throughput_reply {proto : ApplicationProtocol} {thread : Thread conns} {idx : Fin conns} {recv : Recv}
    {conn : TcpConnection} {readRes : Consumed} (rx : Timespec)
    (received : receive true proto (thread.connections idx) recv = .next (.responses conn readRes)) :
    (throughputTcpMain proto).step thread (.epollIn idx recv rx) =
      .next (creditResponses thread idx conn readRes,
        {calls := [.throughputRx readRes.toPair],answered := some (idx,readRes.reqs)}) := by
  simp only [throughputTcpMain,received,Outcome.next_bind]
  rfl

theorem credit_fault {proto : ApplicationProtocol} {thread : Thread conns} {idx : Fin conns} {chunk : List UInt8}
    (rx : Timespec) (rest : List (List UInt8))
    (received : receive true proto (thread.connections idx) (.bytes chunk) = .fault) :
    credit proto thread idx rx (chunk :: rest) = .fault := by
  have stepped : (throughputTcpMain proto).step thread (.epollIn idx (.bytes chunk) rx) = .fault := by
    simp only [throughputTcpMain,received,Outcome.fault_bind]
  simp only [credit,List.map_cons,Machine.execute_cons,stepped,Outcome.fault_bind]

theorem credit_cons {proto : ApplicationProtocol} {thread : Thread conns} {idx : Fin conns} {chunk : List UInt8}
    {conn : TcpConnection} {readRes : Consumed} (rx : Timespec) (rest : List (List UInt8))
    (received : receive true proto (thread.connections idx) (.bytes chunk) = .next (.responses conn readRes)) :
    credit proto thread idx rx (chunk :: rest) = (do
      let later ← credit proto (creditResponses thread idx conn readRes) idx rx rest
      return {later with rx := readRes.toPair.add later.rx}) := by
  have stepped := throughput_reply rx received
  simp only [credit,List.map_cons,Machine.execute_cons_next _ stepped]
  cases (throughputTcpMain proto).execute (creditResponses thread idx conn readRes)
      (rest.map (fun chunk => .epollIn idx (.bytes chunk) rx)) with
  | next result => rfl
  | halt => rfl
  | fault => rfl

theorem remaining_bytes {size held reqs rest : Nat} (balanced : held + rest = reqs * size) :
    held / size ≤ reqs ∧ held % size + rest = (reqs - held / size) * size := by
  have parts : size * (held / size) + held % size = held := Nat.div_add_mod held size
  have below : held / size ≤ reqs := Nat.div_le_of_le_mul (by rw [Nat.mul_comm]; omega)
  refine ⟨below,?_⟩
  rw [Nat.sub_mul,Nat.mul_comm (held / size) size]
  omega

theorem credit_completing {proto : ApplicationProtocol} (positive : 0 < proto.size) (idx : Fin conns) (rx : Timespec)
    {chunks : List (List UInt8)} {thread : Thread conns} {carry reqs : Nat}
    (held : (thread.connections idx).bufferIdx.toNat = carry) (part : carry < proto.size)
    (receivable : Receivable proto.size carry chunks) (completing : Completing proto.size carry chunks)
    (balanced : carry + (chunks.map List.length).sum = reqs * proto.size) :
    credit proto thread idx rx chunks = .next ⟨(thread.connections idx).pendingReqs - UInt16.ofNat reqs,0,
      thread.availReqs + reqs,⟨UInt64.ofNat (reqs * proto.size),UInt64.ofNat reqs⟩⟩ := by
  induction chunks generalizing thread carry reqs with
  | nil =>
    have zero : reqs = 0 := by
      by_contra remains
      have least := Nat.le_mul_of_pos_left proto.size (Nat.pos_of_ne_zero remains)
      simp at balanced
      omega
    subst zero
    have emptied : (thread.connections idx).bufferIdx = 0 := by
      apply UInt16.toNat_inj.mp
      rw [held]
      simpa using balanced
    simp [credit,emptied,counted,ByteReqPair.zero]
  | cons chunk rest ih =>
    obtain ⟨nonempty,fits,later⟩ := receivable
    obtain ⟨full,completing⟩ := completing
    rw [← held] at fits full
    obtain ⟨conn,received,pending,carried⟩ := receive_complete nonempty fits positive full
    rw [held] at received pending carried
    have total : carry + chunk.length + (rest.map List.length).sum = reqs * proto.size := by
      rw [← balanced,List.map_cons,List.sum_cons,Nat.add_assoc]
    obtain ⟨below,exactly⟩ := remaining_bytes total
    have next := @ih (creditResponses thread idx conn
        ⟨proto.size * ((carry + chunk.length) / proto.size),(carry + chunk.length) / proto.size⟩) _ _
      (by simpa [creditResponses,setConnection] using carried) (Nat.mod_lt _ positive) later completing exactly
    rw [credit_cons rx rest received,next]
    generalize (carry + chunk.length) / proto.size = now at *
    obtain ⟨more,rfl⟩ := Nat.exists_eq_add_of_le below
    have credited : (thread.connections idx).pendingReqs - UInt16.ofNat now - UInt16.ofNat more =
        (thread.connections idx).pendingReqs - UInt16.ofNat (now + more) := by
      rw [UInt16.ofNat_add]
      grind
    have available : thread.availReqs + now + more = thread.availReqs + (now + more : Nat) := by
      omega
    have bytes : UInt64.ofNat (proto.size * now) + UInt64.ofNat (more * proto.size) =
        UInt64.ofNat ((now + more) * proto.size) := by
      rw [← UInt64.ofNat_add,Nat.mul_comm,← Nat.add_mul]
    have answers : UInt64.ofNat now + UInt64.ofNat more = UInt64.ofNat (now + more) := (UInt64.ofNat_add now more).symm
    simp only [creditResponses,setConnection,Function.update_self,pending,Nat.add_sub_cancel_left,credited,available,
      ByteReqPair.add,Consumed.toPair,bytes,answers,Outcome.next_bind,Outcome.pure_eq]

theorem credit_stalled {proto : ApplicationProtocol} (positive : 0 < proto.size) (idx : Fin conns) (rx : Timespec)
    {chunks : List (List UInt8)} {thread : Thread conns} {carry : Nat}
    (held : (thread.connections idx).bufferIdx.toNat = carry)
    (receivable : Receivable proto.size carry chunks) (stalled : ¬ Completing proto.size carry chunks) :
    credit proto thread idx rx chunks = .fault := by
  induction chunks generalizing thread carry with
  | nil => exact absurd trivial stalled
  | cons chunk rest ih =>
    obtain ⟨nonempty,fits,later⟩ := receivable
    rw [← held] at fits
    rcases Nat.lt_or_ge ((thread.connections idx).bufferIdx.toNat + chunk.length) proto.size with short | full
    · exact credit_fault rx rest (receive_short nonempty fits short)
    · obtain ⟨conn,received,_,carried⟩ := receive_complete nonempty fits positive full
      rw [held] at received carried full
      have stalledLater : ¬ Completing proto.size ((carry + chunk.length) % proto.size) rest :=
        fun completing => stalled ⟨full,completing⟩
      rw [credit_cons rx rest received,ih (by simpa [creditResponses,setConnection] using carried) later stalledLater,
        Outcome.fault_bind]

/-- The receives credit every outstanding response, as one receive of all the bytes does. -/
def Reassembled (proto : ApplicationProtocol) (thread : Thread conns) (idx : Fin conns) (rx : Timespec) (reqs : Nat)
    (chunks : List (List UInt8)) : Prop :=
  credit proto thread idx rx chunks = .next (fullCredit proto thread idx reqs) ∧
    (0 < reqs → reqs * proto.size ≤ maxPayload →
      credit proto thread idx rx [chunks.flatten] = credit proto thread idx rx chunks)

theorem credit_whole {proto : ApplicationProtocol} (positive : 0 < proto.size) (thread : Thread conns) (idx : Fin conns)
    (rx : Timespec) {reqs : Nat} {bytes : List UInt8} (empty : (thread.connections idx).bufferIdx = 0)
    (wanted : 0 < reqs) (fits : reqs * proto.size ≤ maxPayload) (whole : bytes.length = reqs * proto.size) :
    credit proto thread idx rx [bytes] = .next ⟨(thread.connections idx).pendingReqs - UInt16.ofNat reqs,0,
      thread.availReqs + reqs,⟨UInt64.ofNat (reqs * proto.size),UInt64.ofNat reqs⟩⟩ := by
  have long : 0 < bytes.length := by
    rw [whole]
    exact Nat.mul_pos wanted positive
  have least : proto.size ≤ 0 + bytes.length := by
    rw [whole,Nat.zero_add]
    exact Nat.le_mul_of_pos_left _ wanted
  have inside : 0 + bytes.length ≤ maxPayload := by rw [whole,Nat.zero_add]; exact fits
  apply credit_completing positive idx rx (by rw [empty]; rfl) positive
  · exact ⟨List.length_pos_iff.mp long,inside,trivial⟩
  · exact ⟨least,trivial⟩
  · simpa using whole

/-- Exactly when every receive brings the held bytes to a whole response does the loop
process the receives as it would process all the bytes at once. -/
theorem reassembled_iff_completing (proto : ApplicationProtocol) (thread : Thread conns) (idx : Fin conns) (rx : Timespec)
    (reqs : Nat) (chunks : List (List UInt8)) (positive : 0 < proto.size)
    (empty : (thread.connections idx).bufferIdx = 0) (outstanding : reqs ≤ (thread.connections idx).pendingReqs.toNat)
    (receivable : Receivable proto.size 0 chunks) (bytes : chunks.flatten.length = reqs * proto.size) :
    Reassembled proto thread idx rx reqs chunks ↔ Completing proto.size 0 chunks := by
  have held : (thread.connections idx).bufferIdx.toNat = 0 := by rw [empty]; rfl
  constructor
  · intro reassembled
    by_contra stalled
    have failed := credit_stalled positive idx rx held receivable stalled
    rw [reassembled.1] at failed
    cases failed
  · intro completing
    have balanced : 0 + (chunks.map List.length).sum = reqs * proto.size := by rw [← bytes,List.length_flatten,Nat.zero_add]
    have credited := credit_completing positive idx rx held positive receivable completing balanced
    have difference : (thread.connections idx).pendingReqs - UInt16.ofNat reqs =
        UInt16.ofNat ((thread.connections idx).pendingReqs.toNat - reqs) := by
      rw [UInt16.ofNat_sub outstanding,UInt16.ofNat_toNat]
    refine ⟨?_,?_⟩
    · rw [credited,difference]
      rfl
    · intro wanted fits
      rw [credited]
      exact credit_whole positive thread idx rx empty wanted fits bytes

def oneOutstanding : Thread 1 :=
  {throughputOpenConnections 1 0 with
    connections := fun _ => ⟨false,1,0,List.replicate maxPayload 0⟩
    availReqs := 15}

/-- A response of two bytes that arrives byte by byte. -/
theorem split_response_fails : (oneOutstanding.connections 0).bufferIdx = 0 ∧
    (oneOutstanding.connections 0).pendingReqs = 1 ∧ Receivable 2 0 [[35],[35]] ∧
    ¬ Reassembled (.echo 2) oneOutstanding 0 .zero 1 [[35],[35]] := by
  refine ⟨rfl,rfl,⟨by decide,by decide,by decide,by decide,trivial⟩,?_⟩
  intro reassembled
  have failed : credit (.echo 2) oneOutstanding 0 .zero [[35],[35]] = .fault :=
    credit_stalled (by decide) 0 .zero rfl ⟨by decide,by decide,by decide,by decide,trivial⟩ (by decide)
  rw [reassembled.1] at failed
  cases failed

theorem reassembled_two_receives : Reassembled (.echo 2) {oneOutstanding with
    connections := fun _ => ⟨false,2,0,List.replicate maxPayload 0⟩} 0 .zero 2 [[35,35,35],[35]] :=
  (reassembled_iff_completing (.echo 2) _ 0 .zero 2 [[35,35,35],[35]] (by decide) rfl (by decide)
    ⟨by decide,by decide,by decide,by decide,trivial⟩ (by decide)).mpr (by decide)

end Lancet.Reassembly
