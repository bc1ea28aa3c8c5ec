import Lancet.TcpSteps

/-! What a would-block result does to the epoll loops, which let `EWOULDBLOCK` through: a
send trips the assertion on the byte count, a receive goes on with -1 as its count. -/
namespace Lancet.WouldBlock
open Foundation Timestamping Stats AppProto TpTcp TcpHistory TcpSteps

variable {conns : Nat}

/-- The loop goes on, and neither the connections, the credit and the rings nor the statistics change. -/
def Harmless (main : TcpMain) (proto : ApplicationProtocol) (thread : Thread conns) (event : Event conns) : Prop :=
  ∃ after effect, (main.machine proto).step thread event = .next (after,effect) ∧
    after.connections = thread.connections ∧ after.availReqs = thread.availReqs ∧
    after.perConnTxTimestamps = thread.perConnTxTimestamps ∧ effect.calls = []

/-- The pass gets as far as the call that sends. -/
def Attempted (main : TcpMain) (thread : Thread conns) (attempt : SendAttempt conns) : Prop :=
  thread.nextTx ≤ attempt.now ∧ (pickConn thread attempt.draws).isSome = true ∧
    (main = .symmetricNic → attempt.again = true ∨ thread.availReqs ≠ 0)

theorem sendPath_blocked {onSent : PendingTxTimestamps → PendingTxTimestamps × List StatsCall} {thread : Thread conns}
    {attempt : SendAttempt conns} (due : thread.nextTx ≤ attempt.now) (picked : (pickConn thread attempt.draws).isSome = true)
    (blocked : attempt.sent = .error true) : sendPath onSent thread attempt = .fault := by
  obtain ⟨idx,picked⟩ := Option.isSome_iff_exists.mp picked
  rw [sendPath,if_neg (by omega),picked,blocked]
  rfl

theorem send_blocked {main : TcpMain} {proto : ApplicationProtocol} {thread : Thread conns} {attempt : SendAttempt conns}
    (attempted : Attempted main thread attempt) (blocked : attempt.sent = .error true) :
    (main.machine proto).step thread (.send attempt) = .fault := by
  obtain ⟨due,picked,loading⟩ := attempted
  cases main with
  | throughput =>
    change sendPath (fun ring => (ring,[])) thread attempt = .fault
    exact sendPath_blocked due picked blocked
  | symmetric =>
    change sendPath (fun ring => (pushCompleteTxTimestamp ring attempt.stamp,[.txTimestamp attempt.stamp])) thread attempt = .fault
    exact sendPath_blocked due picked blocked
  | symmetricNic =>
    have enters : ¬(!attempt.again && thread.availReqs = 0) = true := by
      rcases loading rfl with again | credit
      · rw [again]
        simp
      · simp [credit]
    change (if (!attempt.again && thread.availReqs = 0) = true then _ else _) = _
    rw [if_neg enters]
    exact sendPath_blocked due picked blocked

/-- A receive that goes through answers at least one request. -/
theorem replied_some {carry : Bool} {proto : ApplicationProtocol} {conn conn' : TcpConnection} {recv : Recv} {readRes : Consumed}
    (replied : receive carry proto conn recv = .next (.responses conn' readRes)) : 0 < readRes.reqs := by
  have counted : ∀ ret data, processReceived carry proto conn ret data = .next (.responses conn' readRes) → 0 < readRes.reqs := by
    intro ret data processed
    obtain ⟨_,-,processed⟩ := Outcome.bind_next processed
    obtain ⟨_,-,processed⟩ := Outcome.bind_next processed
    obtain ⟨_,counted,processed⟩ := Outcome.bind_next processed
    cases processed
    rw [Outcome.assert_next,decide_eq_true_eq] at counted
    exact counted
  cases recv with
  | error wouldBlock =>
    cases wouldBlock with
    | false => cases replied
    | true => exact counted _ _ replied
  | bytes data =>
    cases data with
    | nil => cases replied
    | cons byte rest => exact counted _ _ replied

theorem receive_blocked {main : TcpMain} {proto : ApplicationProtocol} {thread : Thread conns} {idx : Fin conns} {rx : Timespec} :
    ¬Harmless main proto thread (.epollIn idx (.error true) rx) := by
  rintro ⟨after,effect,stepped,connections,same,rings,quiet⟩
  cases accounted_step stepped with
  | replied replied updated availReqs nextTx sent answered =>
    have credited := replied_some replied
    omega
  | aside kind accounts => exact kind

theorem would_block_harmful (main : TcpMain) (proto : ApplicationProtocol) (thread : Thread conns) :
    (∀ idx rx, ¬Harmless main proto thread (.epollIn idx (.error true) rx)) ∧
      ∀ attempt, Attempted main thread attempt → attempt.sent = .error true → ¬Harmless main proto thread (.send attempt) := by
  refine ⟨fun idx rx => receive_blocked,?_⟩
  intro attempt attempted blocked
  rintro ⟨after,effect,stepped,-⟩
  rw [send_blocked attempted blocked] at stepped
  cases stepped

/-- A receive that would block, on the idle connection of a thread of `echo:1`, counts 65535 responses. -/
theorem would_block_credited : ∃ after effect,
    (TcpMain.throughput.machine (.echo 1)).step (throughputOpenConnections 1 0) (.epollIn ⟨0,Nat.one_pos⟩ (.error true) ⟨5,0⟩) =
      .next (after,effect) ∧ after.availReqs = 16 + 65535 ∧ effect.calls = [.throughputRx ⟨65535,65535⟩] ∧
    ¬Harmless .throughput (.echo 1) (throughputOpenConnections 1 0) (.epollIn ⟨0,Nat.one_pos⟩ (.error true) ⟨5,0⟩) := by
  refine ⟨_,_,rfl,rfl,rfl,?_⟩
  rintro ⟨after,effect,stepped,-,same,-⟩
  cases stepped
  exact absurd same (by decide)

end Lancet.WouldBlock
