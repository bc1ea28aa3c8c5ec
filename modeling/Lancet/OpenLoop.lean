import Lancet.TcpSteps
import Lancet.Foundation.Arrivals

/-! The four transport loops as open-loop generators. Each sends when the time of its next
request has come and then moves that time by one draw, except that the latency loop does
not when the peer closes the connection instead of answering. -/
namespace Lancet.OpenLoop
open Foundation Foundation.Arrivals Timestamping Stats AppProto TpTcp TcpHistory TcpSteps

variable {conns : Nat}

def markOf : Event conns × Effect conns → Mark
  | (.idle now,_) => .restarted now
  | (.send attempt,effect) => if effect.sent.isSome then .departed attempt.now true else .other
  | _ => .other

def latencyMarkOf : LatencyEvent conns × Effect conns → Mark
  | (.idle now,_) => .restarted now
  | (.pass pass,effect) => if effect.sent.isSome then .departed pass.now effect.answered.isSome else .other

/-- The gap a pass would draw is the next one of the arrival process. -/
def Drawing (draws : Nat → Int) (now : Int) : Machine.Environment (Thread conns) (Event conns) (Effect conns) :=
  fun log _ event =>
    match event with
    | .send attempt => attempt.ia = draws (scheduleOf now (log.map markOf)).drawn
    | _ => True

def LatencyDrawing (draws : Nat → Int) (now : Int) :
    Machine.Environment (Thread conns) (LatencyEvent conns) (Effect conns) :=
  fun log _ event =>
    match event with
    | .idle _ => True
    | .pass pass => pass.ia = draws (scheduleOf now (log.map latencyMarkOf)).drawn

/-- No peer closes the connection on which the latency loop waits for an answer. -/
def Answering (draws : Nat → Int) (now : Int) : Machine.Environment (Thread conns) (LatencyEvent conns) (Effect conns) :=
  fun log thread event => LatencyDrawing draws now log thread event ∧
    match event with
    | .idle _ => True
    | .pass pass => pass.recv ≠ .bytes []

theorem accounted_follows {carry : Bool} {proto : ApplicationProtocol} {before after : Thread conns} {event : Event conns}
    {effect : Effect conns} {gap : Int} (accounted : Accounted carry proto before after event effect)
    (drawn : ∀ attempt, event = .send attempt → attempt.ia = gap) :
    Follows gap before.nextTx after.nextTx (markOf (event,effect)) := by
  cases accounted with
  | paused same sent answered =>
    subst same
    rfl
  | unsent same sent answered =>
    subst same
    rw [markOf,sent]
    rfl
  | sent picked due whole credited sent answered =>
    subst credited
    rw [markOf,sent]
    refine ⟨due,rfl,?_⟩
    dsimp only [creditSend]
    rw [drawn _ rfl]
  | closed same sent answered =>
    subst same
    rfl
  | replied replied connections availReqs nextTx sent answered => exact nextTx
  | aside kind same =>
    have silent : markOf (event,effect) = .other := by
      obtain ⟨_,rfl⟩ | ⟨_,rfl⟩ | ⟨_,_,rfl⟩ := kind.cases
      all_goals rfl
    rw [silent]
    exact same.nextTx

/-- What a pass of the latency loop does to its schedule when no peer closes. -/
theorem latency_follows {proto : ApplicationProtocol} {before after : Thread conns} {event : LatencyEvent conns}
    {effect : Effect conns} {gap : Int} (stepped : (latencyTcpMain proto).step before event = .next (after,effect))
    (drawn : ∀ pass, event = .pass pass → pass.ia = gap ∧ pass.recv ≠ .bytes []) :
    Follows gap before.nextTx after.nextTx (latencyMarkOf (event,effect)) := by
  cases event with
  | idle now =>
    cases stepped
    rfl
  | pass pass =>
    obtain ⟨ia,opened⟩ := drawn pass rfl
    rw [latencyTcpMain] at stepped
    dsimp only at stepped
    split at stepped
    next early =>
      cases stepped
      rfl
    next due =>
      split at stepped
      next =>
        cases stepped
        rfl
      next idx picked =>
        obtain ⟨_,-,replied⟩ := Outcome.bind_next stepped
        rw [awaitReply] at replied
        dsimp only at replied
        split at replied
        next => cases replied
        next closed => exact absurd closed opened
        next data nonempty received =>
          obtain ⟨readRes,-,replied⟩ := Outcome.bind_next replied
          obtain ⟨_,-,replied⟩ := Outcome.bind_next replied
          cases replied
          refine ⟨Int.not_lt.mp due,rfl,?_⟩
          dsimp only
          rw [ia]

theorem requests_on_schedule (proto : ApplicationProtocol) (draws : Nat → Int) (now : Int) :
    (∀ (main : TcpMain) (log : List (Event conns × Effect conns)) (thread : Thread conns),
      (main.machine proto).Run (Drawing draws now) (throughputOpenConnections conns now) log thread →
        OnTime draws now (log.map markOf)) ∧
      ∀ (log : List (LatencyEvent conns × Effect conns)) (thread : Thread conns),
        (latencyTcpMain proto).Run (Answering draws now) (latencyOpenConnections conns now) log thread →
          OnTime draws now (log.map latencyMarkOf) := by
  constructor
  · intro main log thread run
    refine onTime_run markOf Thread.nextTx rfl ?_ run
    intro log before event after effect drawing stepped
    refine accounted_follows (accounted_step stepped) ?_
    rintro attempt rfl
    exact drawing
  · intro log thread run
    refine onTime_run latencyMarkOf Thread.nextTx rfl ?_ run
    intro log before event after effect answering stepped
    refine latency_follows stepped ?_
    rintro pass rfl
    exact answering

instance (draws : Nat → Int) (now : Int) (log : List (Event conns × Effect conns)) (thread : Thread conns) (event : Event conns) :
    Decidable (Drawing draws now log thread event) :=
  match event with
  | .send attempt => inferInstanceAs (Decidable (attempt.ia = _))
  | .idle _ | .epollIn _ _ _ | .epollErr _ | .epollHup _ | .epollOther _ | .txReport _ _ => .isTrue trivial

instance (draws : Nat → Int) (now : Int) (log : List (LatencyEvent conns × Effect conns)) (thread : Thread conns)
    (event : LatencyEvent conns) : Decidable (LatencyDrawing draws now log thread event) :=
  match event with
  | .idle _ => .isTrue trivial
  | .pass pass => inferInstanceAs (Decidable (pass.ia = _))

def everyThousand : Nat → Int := fun _ => 1000

def sendAt (now : Int) : Event 1 := .send ⟨now,false,fun _ => ⟨0,Nat.one_pos⟩,⟨5,0⟩,1,.bytes 1,1000⟩

theorem requests_on_schedule_twice : ∃ log thread,
    (TcpMain.symmetric.machine (.echo 1)).Run (Drawing everyThousand 0) (throughputOpenConnections 1 0) log thread ∧
      log.map markOf = [.departed 0 true,.departed 1500 true] ∧ OnTime everyThousand 0 (log.map markOf) := by
  obtain ⟨log,thread,run,marks⟩ := @Machine.run_of_follow _ _ _ (TcpMain.symmetric.machine (.echo 1)) (Drawing everyThousand 0)
    (throughputOpenConnections 1 0) (fun log thread event => decide (Drawing everyThousand 0 log thread event))
    (fun _ _ _ => of_decide_eq_true) [sendAt 0,sendAt 1500]
    (fun ended => ended.1.map markOf == [.departed 0 true,.departed 1500 true]) (by decide +kernel)
  exact ⟨log,thread,run,eq_of_beq marks,(requests_on_schedule (.echo 1) everyThousand 0).1 .symmetric log thread run⟩

def passOn (idx : Fin 2) (recv : Recv) : LatencyEvent 2 := .pass ⟨0,fun _ => idx,0,1,.bytes 1,recv,0,1000⟩

/-- The peer of the first request closes: the second goes out in the same nanosecond. -/
theorem closed_request_unscheduled : ∃ log thread,
    (latencyTcpMain (.echo 1)).Run (LatencyDrawing everyThousand 0) (latencyOpenConnections 2 0) log thread ∧
      ¬OnTime everyThousand 0 (log.map latencyMarkOf) := by
  obtain ⟨log,thread,run,marks⟩ := @Machine.run_of_follow _ _ _ (latencyTcpMain (.echo 1)) (LatencyDrawing everyThousand 0)
    (latencyOpenConnections 2 0) (fun log thread event => decide (LatencyDrawing everyThousand 0 log thread event))
    (fun _ _ _ => of_decide_eq_true) [passOn ⟨0,by decide⟩ (.bytes []),passOn ⟨1,by decide⟩ (.bytes [7])]
    (fun ended => ended.1.map latencyMarkOf == [.departed 0 false,.departed 0 true]) (by decide +kernel)
  refine ⟨log,thread,run,fun onTime => ?_⟩
  have second := onTime [.departed 0 false] 0 true [] (eq_of_beq marks)
  exact absurd second (by decide)

end Lancet.OpenLoop
