import Lancet.TcpHistory

/-! What a step of the epoll loops does to the credit and to the schedule. The three loops
differ in what they do with half responses, in the timestamps and in the statistics. -/
namespace Lancet.TcpSteps
open Foundation Timestamping Stats AppProto TpTcp TcpHistory

variable {conns : Nat}

inductive TcpMain where
  | throughput
  | symmetric
  | symmetricNic
  deriving DecidableEq, Repr

/-- Whether the loop keeps half a response for the next receive. -/
def TcpMain.carries : TcpMain → Bool
  | throughput => true
  | symmetric | symmetricNic => false

def TcpMain.machine (proto : ApplicationProtocol) : TcpMain → Machine (Thread conns) (Event conns) (Effect conns)
  | throughput => throughputTcpMain proto
  | symmetric => symmetricTcpMain proto
  | symmetricNic => symmetricNicTcpMain proto

/-- The events that neither load nor move data. -/
def Aside : Event conns → Prop
  | .epollErr _ | .epollOther _ | .txReport _ _ => True
  | .idle _ | .send _ | .epollIn _ _ _ | .epollHup _ => False

theorem Aside.cases {event : Event conns} (kind : Aside event) :
    (∃ idx, event = .epollErr idx) ∨ (∃ idx, event = .epollOther idx) ∨ ∃ idx message, event = .txReport idx message := by
  cases event with
  | idle now => cases kind
  | send attempt => cases kind
  | epollIn idx recv rx => cases kind
  | epollErr idx => exact .inl ⟨idx,rfl⟩
  | epollHup idx => cases kind
  | epollOther idx => exact .inr (.inl ⟨idx,rfl⟩)
  | txReport idx message => exact .inr (.inr ⟨idx,message,rfl⟩)

structure SameAccounts (before after : Thread conns) (effect : Effect conns) : Prop where
  connections : after.connections = before.connections
  availReqs : after.availReqs = before.availReqs
  nextTx : after.nextTx = before.nextTx
  sent : effect.sent = none
  answered : effect.answered = none

inductive Accounted (carry : Bool) (proto : ApplicationProtocol) (before after : Thread conns) :
    Event conns → Effect conns → Prop
  | paused {now : Int} {effect : Effect conns} (same : after = {before with nextTx := now}) (sent : effect.sent = none)
      (answered : effect.answered = none) : Accounted carry proto before after (.idle now) effect
  | unsent {attempt : SendAttempt conns} {effect : Effect conns} (same : after = before) (sent : effect.sent = none)
      (answered : effect.answered = none) : Accounted carry proto before after (.send attempt) effect
  | sent {attempt : SendAttempt conns} {effect : Effect conns} {idx : Fin conns} {ring : PendingTxTimestamps}
      (picked : pickConn before attempt.draws = some idx) (due : before.nextTx ≤ attempt.now)
      (whole : attempt.sent = .bytes attempt.bytesToSend) (credited : after = creditSend before idx ring attempt.ia)
      (sent : effect.sent = some idx) (answered : effect.answered = none) :
      Accounted carry proto before after (.send attempt) effect
  | closed {idx : Fin conns} {rx : Timespec} {effect : Effect conns}
      (same : after = setConnection before idx {before.connections idx with closed := true}) (sent : effect.sent = none)
      (answered : effect.answered = none) : Accounted carry proto before after (.epollIn idx (.bytes []) rx) effect
  | replied {idx : Fin conns} {recv : Recv} {rx : Timespec} {effect : Effect conns} {conn : TcpConnection} {readRes : Consumed}
      (received : receive carry proto (before.connections idx) recv = .next (.responses conn readRes))
      (connections : after.connections = Function.update before.connections idx conn)
      (availReqs : after.availReqs = before.availReqs + readRes.reqs) (nextTx : after.nextTx = before.nextTx)
      (sent : effect.sent = none) (answered : effect.answered = some (idx,readRes.reqs)) :
      Accounted carry proto before after (.epollIn idx recv rx) effect
  | aside {event : Event conns} {effect : Effect conns} (kind : Aside event) (same : SameAccounts before after effect) :
      Accounted carry proto before after event effect

theorem send_accounted {carry : Bool} {proto : ApplicationProtocol}
    {onSent : PendingTxTimestamps → PendingTxTimestamps × List StatsCall} {before after : Thread conns}
    {attempt : SendAttempt conns} {effect : Effect conns} (taken : sendPath onSent before attempt = .next (after,effect)) :
    Accounted carry proto before after (.send attempt) effect := by
  obtain ⟨rfl,rfl⟩ | ⟨idx,picked,due,whole,rfl,rfl⟩ := sendPath_cases taken
  · exact .unsent rfl rfl rfl
  · exact .sent picked (by omega) whole rfl rfl rfl

theorem receive_closed {carry : Bool} {proto : ApplicationProtocol} {conn conn' : TcpConnection} {recv : Recv}
    (received : receive carry proto conn recv = .next (.closed conn')) :
    recv = .bytes [] ∧ conn' = {conn with closed := true} := by
  have never : ∀ ret data, processReceived carry proto conn ret data ≠ .next (.closed conn') := by
    intro ret data processed
    obtain ⟨_,-,processed⟩ := Outcome.bind_next processed
    obtain ⟨_,-,processed⟩ := Outcome.bind_next processed
    obtain ⟨_,-,processed⟩ := Outcome.bind_next processed
    cases processed
  cases recv with
  | error wouldBlock =>
    cases wouldBlock with
    | false => cases received
    | true => exact absurd received (never _ _)
  | bytes data =>
    cases data with
    | nil =>
      cases received
      exact ⟨rfl,rfl⟩
    | cons byte rest => exact absurd received (never _ _)

theorem readTxReport_accounts {before after : Thread conns} {idx : Fin conns} {calls : List StatsCall}
    (read : readTxReport before idx = .next (after,calls)) :
    after.connections = before.connections ∧ after.availReqs = before.availReqs ∧ after.nextTx = before.nextTx := by
  obtain ⟨tx,-,returned⟩ := Outcome.bind_next read
  cases returned
  exact ⟨rfl,rfl,rfl⟩

theorem matchNicTimestamp_accounts {before after : Thread conns} {idx : Fin conns} {reqs : Nat} {tx : Option Timespec}
    {calls : List StatsCall} (matched : matchNicTimestamp before idx reqs = .next (after,tx,calls)) :
    after.connections = before.connections ∧ after.availReqs = before.availReqs ∧ after.nextTx = before.nextTx := by
  obtain ⟨⟨ring,info⟩,-,rest⟩ := Outcome.bind_next matched
  cases info with
  | some found =>
    cases rest
    exact ⟨rfl,rfl,rfl⟩
  | none =>
    obtain ⟨⟨middle,read⟩,reading,rest⟩ := Outcome.bind_next rest
    have same := readTxReport_accounts reading
    obtain ⟨⟨ring',info⟩,-,rest⟩ := Outcome.bind_next rest
    cases info with
    | some found =>
      cases rest
      exact same
    | none =>
      cases rest
      exact same

theorem throughput_accounted {proto : ApplicationProtocol} {before after : Thread conns} {event : Event conns}
    {effect : Effect conns} (stepped : (throughputTcpMain proto).step before event = .next (after,effect)) :
    Accounted true proto before after event effect := by
  cases event with
  | idle now =>
    cases stepped
    exact .paused rfl rfl rfl
  | send attempt =>
    have taken : sendPath (fun ring => (ring,[])) before attempt = .next (after,effect) := stepped
    exact send_accounted taken
  | epollIn idx recv rx =>
    obtain ⟨outcome,received,handled⟩ := Outcome.bind_next stepped
    cases outcome with
    | closed conn =>
      obtain ⟨rfl,rfl⟩ := receive_closed received
      cases handled
      exact .closed rfl rfl rfl
    | responses conn readRes =>
      cases handled
      exact .replied received rfl rfl rfl rfl rfl
  | epollErr idx => cases stepped
  | epollHup idx => cases stepped
  | epollOther idx => cases stepped
  | txReport idx message =>
    cases stepped
    exact .aside trivial ⟨rfl,rfl,rfl,rfl,rfl⟩

theorem errorQueue_accounted {carry : Bool} {proto : ApplicationProtocol} {before after : Thread conns} {idx : Fin conns}
    {effect : Effect conns} (handled : (do
      let (thread,calls) ← readTxReport before idx
      return (thread,{calls := calls}) : Outcome (Thread conns × Effect conns)) = .next (after,effect)) :
    Accounted carry proto before after (.epollErr idx) effect := by
  obtain ⟨⟨thread,calls⟩,read,returned⟩ := Outcome.bind_next handled
  obtain ⟨connections,availReqs,nextTx⟩ := readTxReport_accounts read
  cases returned
  exact .aside trivial ⟨connections,availReqs,nextTx,rfl,rfl⟩

theorem symmetric_accounted {proto : ApplicationProtocol} {before after : Thread conns} {event : Event conns}
    {effect : Effect conns} (stepped : (symmetricTcpMain proto).step before event = .next (after,effect)) :
    Accounted false proto before after event effect := by
  cases event with
  | idle now =>
    cases stepped
    exact .paused rfl rfl rfl
  | send attempt =>
    have taken : sendPath (fun ring => (pushCompleteTxTimestamp ring attempt.stamp,[.txTimestamp attempt.stamp]))
      before attempt = .next (after,effect) := stepped
    exact send_accounted taken
  | epollIn idx recv rx =>
    obtain ⟨outcome,received,handled⟩ := Outcome.bind_next stepped
    cases outcome with
    | closed conn =>
      obtain ⟨rfl,rfl⟩ := receive_closed received
      cases handled
      exact .closed rfl rfl rfl
    | responses conn readRes =>
      obtain ⟨⟨ring,info⟩,-,handled⟩ := Outcome.bind_next handled
      obtain ⟨sample,-,handled⟩ := Outcome.bind_next handled
      cases handled
      exact .replied received rfl rfl rfl rfl rfl
  | epollErr idx => exact errorQueue_accounted stepped
  | epollHup idx => cases stepped
  | epollOther idx =>
    cases stepped
    exact .aside trivial ⟨rfl,rfl,rfl,rfl,rfl⟩
  | txReport idx message =>
    cases stepped
    exact .aside trivial ⟨rfl,rfl,rfl,rfl,rfl⟩

theorem symmetricNic_accounted {proto : ApplicationProtocol} {before after : Thread conns} {event : Event conns}
    {effect : Effect conns} (stepped : (symmetricNicTcpMain proto).step before event = .next (after,effect)) :
    Accounted false proto before after event effect := by
  cases event with
  | idle now =>
    cases stepped
    exact .paused rfl rfl rfl
  | send attempt =>
    rw [symmetricNicTcpMain] at stepped
    dsimp only at stepped
    split at stepped
    · cases stepped
      exact .unsent rfl rfl rfl
    · exact send_accounted stepped
  | epollIn idx recv rx =>
    obtain ⟨outcome,received,handled⟩ := Outcome.bind_next stepped
    cases outcome with
    | closed conn =>
      obtain ⟨rfl,rfl⟩ := receive_closed received
      cases handled
      exact .closed rfl rfl rfl
    | responses conn readRes =>
      obtain ⟨⟨thread,tx,calls⟩,matched,handled⟩ := Outcome.bind_next handled
      obtain ⟨connections,availReqs,nextTx⟩ := matchNicTimestamp_accounts matched
      cases handled
      exact .replied received connections availReqs nextTx rfl rfl
  | epollErr idx => exact errorQueue_accounted stepped
  | epollHup idx => cases stepped
  | epollOther idx =>
    cases stepped
    exact .aside trivial ⟨rfl,rfl,rfl,rfl,rfl⟩
  | txReport idx message =>
    cases stepped
    exact .aside trivial ⟨rfl,rfl,rfl,rfl,rfl⟩

theorem accounted_step {main : TcpMain} {proto : ApplicationProtocol} {before after : Thread conns} {event : Event conns}
    {effect : Effect conns} (stepped : (main.machine proto).step before event = .next (after,effect)) :
    Accounted main.carries proto before after event effect := by
  cases main with
  | throughput => exact throughput_accounted stepped
  | symmetric => exact symmetric_accounted stepped
  | symmetricNic => exact symmetricNic_accounted stepped

end Lancet.TcpSteps
