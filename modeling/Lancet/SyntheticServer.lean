import Lancet.AppProto
import Lancet.Foundation.Wire
import Mathlib.Logic.Function.Basic

/-! One thread of the synthetic server (servers/linux-synthetic.c). It serves a connection
that is readable by reading a `long`, spinning for that many microseconds and writing a `long`. -/
namespace Lancet.SyntheticServer
open Foundation Wire AppProto

def replyLong : UInt64 := 42

structure ServerThread (κ : Type) where
  -- the sockets in the thread's epoll instance
  watched : κ → Bool
  -- the socket whose request the thread has read and not answered
  spinning : Option κ

inductive ServerEvent (κ : Type) where
  | accept (socket : κ)
  -- what the `read` of a `long` returns
  | readable (socket : κ) (data : List UInt8)
  | spun (written : Int)
  | hangup (socket : κ)
  deriving DecidableEq, Repr

inductive ServerOutput (κ : Type) where
  | quiet
  | toSpin (socket : κ) (usecs : Int64)
  | replied (socket : κ) (bytes : List UInt8)
  deriving DecidableEq, Repr

def longOf (data : List UInt8) : Int64 := (UInt64.ofNat (decode data)).toInt64

variable {κ : Type} [DecidableEq κ]

/-- The loop of a thread; `process_req` is the read and, once the time is over, the write. -/
def tcpThreadMain : Machine (ServerThread κ) (ServerEvent κ) (ServerOutput κ) where
  step thread
    | .accept socket => return ({thread with watched := Function.update thread.watched socket true},.quiet)
    | .readable socket data => do
      Outcome.assert (data.length = sizeofLong)
      return ({thread with spinning := some socket},.toSpin socket (longOf data))
    | .spun written =>
      match thread.spinning with
      | none => return (thread,.quiet)
      | some socket => do
        Outcome.assert (written = sizeofLong)
        return ({thread with spinning := none},.replied socket (u64Bytes replyLong))
    | .hangup socket => return ({thread with watched := Function.update thread.watched socket false},.quiet)

/-- Events come from the thread's own epoll instance, one request at a time. -/
def Epolled (thread : ServerThread κ) : ServerEvent κ → Prop
  | .accept _ => thread.spinning = none
  | .readable socket data => thread.watched socket = true ∧ thread.spinning = none ∧ data.length ≤ sizeofLong
  | .spun _ => thread.spinning ≠ none
  | .hangup socket => thread.watched socket = true ∧ thread.spinning = none

instance (thread : ServerThread κ) (event : ServerEvent κ) : Decidable (Epolled thread event) :=
  match event with
  | .accept _ => inferInstanceAs (Decidable (thread.spinning = none))
  | .readable _ _ => inferInstanceAs (Decidable (_ ∧ _))
  | .spun _ => inferInstanceAs (Decidable (thread.spinning ≠ none))
  | .hangup _ => inferInstanceAs (Decidable (_ ∧ _))

/-- What a thread does with a request, in its two steps. -/
inductive Served (before after : ServerThread κ) : ServerEvent κ → ServerOutput κ → Prop
  | accepted {socket : κ} (same : after = {before with watched := Function.update before.watched socket true}) :
      Served before after (.accept socket) .quiet
  | read {socket : κ} {data : List UInt8} (whole : data.length = sizeofLong) (same : after = {before with spinning := some socket}) :
      Served before after (.readable socket data) (.toSpin socket (longOf data))
  | idle {written : Int} (absent : before.spinning = none) (same : after = before) : Served before after (.spun written) .quiet
  | wrote {socket : κ} (spinning : before.spinning = some socket) (same : after = {before with spinning := none}) :
      Served before after (.spun sizeofLong) (.replied socket (u64Bytes replyLong))
  | closed {socket : κ} (same : after = {before with watched := Function.update before.watched socket false}) :
      Served before after (.hangup socket) .quiet

theorem served_cases {before after : ServerThread κ} {event : ServerEvent κ} {output : ServerOutput κ}
    (stepped : tcpThreadMain.step before event = .next (after,output)) : Served before after event output := by
  cases event with
  | accept socket =>
    cases stepped
    exact .accepted rfl
  | readable socket data =>
    obtain ⟨_,whole,returned⟩ := Outcome.bind_next stepped
    rw [Outcome.assert_next,decide_eq_true_eq] at whole
    cases returned
    exact .read whole rfl
  | spun written =>
    rw [tcpThreadMain] at stepped
    dsimp only at stepped
    split at stepped
    next absent =>
      cases stepped
      exact .idle absent rfl
    next socket spinning =>
      obtain ⟨_,whole,returned⟩ := Outcome.bind_next stepped
      rw [Outcome.assert_next,decide_eq_true_eq] at whole
      cases returned
      rw [whole]
      exact .wrote spinning rfl
  | hangup socket =>
    cases stepped
    exact .closed rfl

end Lancet.SyntheticServer
