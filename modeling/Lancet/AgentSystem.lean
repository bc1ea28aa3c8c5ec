import Lancet.Foundation.Composition
import Lancet.Manager
import Mathlib.Logic.Function.Basic

/-! One agent process (agent.c): the manager thread and the worker threads, each in a loop of
the transport protocol, in any interleaving. What a pass of a loop calls in the statistics is
recorded call by call, and the manager may act between any two of them. -/
namespace Lancet.AgentSystem
open Foundation Agent Stats Manager

structure Worker (σ : Type) where
  loop : σ
  -- the calls of the last pass that are still to be made
  calls : List StatsCall
  -- `tp_main` has not returned
  running : Bool

structure AgentState (σ : Type) (threads : Nat) where
  manager : ManagerState
  workers : Fin threads → Worker σ

inductive AgentEvent (ε : Type) (threads : Nat) where
  | message (message : Message) (now : Int) (reference : List UInt64)
  | resume (now : Int)
  | pass (thread : Fin threads) (event : ε)
  | record (thread : Fin threads) (draw : Float)

inductive AgentOutput (ω : Type) where
  | replied (reply : Option Reply)
  | passed (effect : ω)
  | returned
  | recorded (call : Option StatsCall)

variable {σ ε ω : Type} {threads : Nat}

def setWorker (agent : AgentState σ threads) (thread : Fin threads) (worker : Worker σ) : AgentState σ threads :=
  {agent with workers := Function.update agent.workers thread worker}

@[simp] theorem setWorker_manager (agent : AgentState σ threads) (thread : Fin threads) (worker : Worker σ) :
    (setWorker agent thread worker).manager = agent.manager := rfl

@[simp] theorem setWorker_same (agent : AgentState σ threads) (thread : Fin threads) (worker : Worker σ) :
    (setWorker agent thread worker).workers thread = worker := Function.update_self ..

theorem setWorker_other (agent : AgentState σ threads) {thread other : Fin threads} (worker : Worker σ)
    (apart : other ≠ thread) : (setWorker agent thread worker).workers other = agent.workers other :=
  Function.update_of_ne apart ..

def pass (loop : Machine σ ε ω) (calls : ω → List StatsCall) (agent : AgentState σ threads) (thread : Fin threads)
    (event : ε) : Outcome (AgentState σ threads × AgentOutput ω) :=
  match loop.step (agent.workers thread).loop event with
  | .next (after,effect) => .next (setWorker agent thread ⟨after,calls effect,true⟩,.passed effect)
  -- only this thread ends
  | .halt => .next (setWorker agent thread {agent.workers thread with running := false},.returned)
  | .fault => .fault

def record (agent : AgentState σ threads) (thread : Fin threads) (draw : Float) :
    Outcome (AgentState σ threads × AgentOutput ω) :=
  match (agent.workers thread).calls with
  | [] => return (agent,.recorded none)
  | call :: calls => do
    let manager ← work agent.manager thread call draw
    return ({setWorker agent thread {agent.workers thread with calls := calls} with manager := manager},.recorded (some call))

/-- `main` once the threads run. The loop is the `tp_main` of the agent's type. -/
def agentProcess (config : AgentConfig) (qsort : Qsort) (loop : Machine σ ε ω) (calls : ω → List StatsCall) :
    Machine (AgentState σ threads) (AgentEvent ε threads) (AgentOutput ω) where
  step agent
    | .message message now reference => do
      let (manager,reply) ← (managerRun config qsort).step agent.manager (.message message now reference)
      return ({agent with manager := manager},.replied reply)
    | .resume now => do
      let (manager,reply) ← (managerRun config qsort).step agent.manager (.resume now)
      return ({agent with manager := manager},.replied reply)
    | .pass thread event => pass loop calls agent thread event
    | .record thread draw => record agent thread draw

def started (generators : Generators) (stats : List ThreadStats) (aggStats : LatencyStats) (loop : σ) : AgentState σ threads where
  manager := initially generators stats aggStats
  workers _ := ⟨loop,[],true⟩

abbrev AgentLog (ε ω : Type) (threads : Nat) := List (AgentEvent ε threads × AgentOutput ω)

def passOf (thread : Fin threads) : AgentEvent ε threads × AgentOutput ω → Option (ε × ω)
  | (.pass other event,.passed effect) => if other = thread then some (event,effect) else none
  | _ => none

/-- The run of one worker's loop. -/
def workerLog (thread : Fin threads) (log : AgentLog ε ω threads) : List (ε × ω) := log.filterMap (passOf thread)

/-- A thread makes the calls of a pass before its next one and sees `should_load` when it
starts one; the manager reads a message after it has turned measuring on again. -/
def Scheduled (loads : Bool → ε → Prop) (agent : AgentState σ threads) : AgentEvent ε threads → Prop
  | .message _ _ _ => agent.manager.reporting = false
  | .resume _ => agent.manager.reporting = true
  | .pass thread event => (agent.workers thread).running = true ∧ (agent.workers thread).calls = [] ∧
      loads agent.manager.shouldLoad event
  | .record thread _ => (agent.workers thread).calls ≠ []

/-- A schedule on which every worker's loop runs as in its own environment. -/
def Hosts (loads : Bool → ε → Prop) (environment : Machine.Environment σ ε ω) :
    Machine.Environment (AgentState σ threads) (AgentEvent ε threads) (AgentOutput ω) := fun log agent event =>
  Scheduled loads agent event ∧
    ∀ thread inner, event = .pass thread inner → environment (workerLog thread log) (agent.workers thread).loop inner

instance {loads : Bool → ε → Prop} [∀ shouldLoad event, Decidable (loads shouldLoad event)] (agent : AgentState σ threads)
    (event : AgentEvent ε threads) : Decidable (Scheduled loads agent event) :=
  match event with
  | .message _ _ _ => inferInstanceAs (Decidable (agent.manager.reporting = false))
  | .resume _ => inferInstanceAs (Decidable (agent.manager.reporting = true))
  | .pass _ _ => inferInstanceAs (Decidable (_ ∧ _))
  | .record thread _ => inferInstanceAs (Decidable ((agent.workers thread).calls ≠ []))

instance {loads : Bool → ε → Prop} [∀ shouldLoad event, Decidable (loads shouldLoad event)]
    {environment : Machine.Environment σ ε ω} [∀ log state event, Decidable (environment log state event)]
    (log : AgentLog ε ω threads) (agent : AgentState σ threads) (event : AgentEvent ε threads) :
    Decidable (Hosts loads environment log agent event) :=
  match event with
  | .pass thread inner =>
    decidable_of_iff (Scheduled loads agent (.pass thread inner) ∧ environment (workerLog thread log) (agent.workers thread).loop inner)
      ⟨fun hosted => ⟨hosted.1,fun _ _ same => by cases same; exact hosted.2⟩,fun hosted => ⟨hosted.1,hosted.2 _ _ rfl⟩⟩
  | .message message now reference =>
    decidable_of_iff (Scheduled loads agent (.message message now reference)) ⟨fun hosted => ⟨hosted,fun _ _ same => nomatch same⟩,And.left⟩
  | .resume now => decidable_of_iff (Scheduled loads agent (.resume now)) ⟨fun hosted => ⟨hosted,fun _ _ same => nomatch same⟩,And.left⟩
  | .record thread draw =>
    decidable_of_iff (Scheduled loads agent (.record thread draw)) ⟨fun hosted => ⟨hosted,fun _ _ same => nomatch same⟩,And.left⟩

section Steps
variable {loop : Machine σ ε ω} {calls : ω → List StatsCall} {config : AgentConfig} {qsort : Qsort}

/-- What a step of the process is to its parts. -/
inductive Stepped (config : AgentConfig) (qsort : Qsort) (loop : Machine σ ε ω) (calls : ω → List StatsCall)
    (before after : AgentState σ threads) : AgentEvent ε threads → AgentOutput ω → Prop
  | message {message : Message} {now : Int} {reference : List UInt64} {reply : Option Reply}
      (managed : (managerRun config qsort).step before.manager (.message message now reference) = .next (after.manager,reply))
      (workers : after.workers = before.workers) :
      Stepped config qsort loop calls before after (.message message now reference) (.replied reply)
  | resume {now : Int} {reply : Option Reply}
      (managed : (managerRun config qsort).step before.manager (.resume now) = .next (after.manager,reply))
      (workers : after.workers = before.workers) : Stepped config qsort loop calls before after (.resume now) (.replied reply)
  | passed {thread : Fin threads} {event : ε} {state : σ} {effect : ω}
      (looped : loop.step (before.workers thread).loop event = .next (state,effect))
      (same : after = setWorker before thread ⟨state,calls effect,true⟩) :
      Stepped config qsort loop calls before after (.pass thread event) (.passed effect)
  | returned {thread : Fin threads} {event : ε}
      (same : after = setWorker before thread {before.workers thread with running := false}) :
      Stepped config qsort loop calls before after (.pass thread event) .returned
  | idle {thread : Fin threads} {draw : Float} (empty : (before.workers thread).calls = []) (same : after = before) :
      Stepped config qsort loop calls before after (.record thread draw) (.recorded none)
  | recorded {thread : Fin threads} {draw : Float} {call : StatsCall} {rest : List StatsCall} {manager : ManagerState}
      (queued : (before.workers thread).calls = call :: rest) (worked : work before.manager thread call draw = .next manager)
      (same : after = {setWorker before thread {before.workers thread with calls := rest} with manager := manager}) :
      Stepped config qsort loop calls before after (.record thread draw) (.recorded (some call))

theorem stepped_cases {before after : AgentState σ threads} {event : AgentEvent ε threads} {output : AgentOutput ω}
    (stepped : (agentProcess config qsort loop calls).step before event = .next (after,output)) :
    Stepped config qsort loop calls before after event output := by
  cases event with
  | message message now reference =>
    obtain ⟨⟨manager,reply⟩,managed,returned⟩ := Outcome.bind_next stepped
    cases returned
    exact .message managed rfl
  | resume now =>
    obtain ⟨⟨manager,reply⟩,managed,returned⟩ := Outcome.bind_next stepped
    cases returned
    exact .resume managed rfl
  | pass thread event =>
    have passed : pass loop calls before thread event = .next (after,output) := stepped
    rw [pass] at passed
    split at passed
    next state effect looped =>
      cases passed
      exact .passed looped rfl
    next =>
      cases passed
      exact .returned rfl
    next => cases passed
  | record thread draw =>
    have recorded : record before thread draw = .next (after,output) := stepped
    rw [record] at recorded
    split at recorded
    next empty =>
      cases recorded
      exact .idle empty rfl
    next call rest queued =>
      obtain ⟨manager,worked,returned⟩ := Outcome.bind_next recorded
      cases returned
      exact .recorded queued worked rfl

variable {loads : Bool → ε → Prop} {environment : Machine.Environment σ ε ω} {start : AgentState σ threads}

/-- To a worker's loop the rest of the process is not there. -/
theorem projects_worker (config : AgentConfig) (qsort : Qsort) (thread : Fin threads) :
    Machine.Projects (agentProcess config qsort loop calls) loop (Hosts loads environment) environment start
      (fun agent => (agent.workers thread).loop) (passOf thread) := by
  constructor
  · intro log before event after output event' output' _ hosted stepped shown
    cases stepped_cases stepped with
    | @passed other inner state effect looped same =>
      rw [passOf] at shown
      split at shown
      next here =>
        cases shown
        subst here same
        refine ⟨hosted.2 _ _ rfl,?_⟩
        rw [setWorker_same]
        exact looped
      next => cases shown
    | message managed workers => cases shown
    | resume managed workers => cases shown
    | returned same => cases shown
    | idle empty same => cases shown
    | recorded queued worked same => cases shown
  · intro log before event after output _ hosted stepped shown
    cases stepped_cases stepped with
    | message managed workers => rw [workers]
    | resume managed workers => rw [workers]
    | @passed other inner state effect looped same =>
      have apart : thread ≠ other := by
        rintro rfl
        rw [passOf,if_pos rfl] at shown
        cases shown
      rw [same,setWorker_other _ _ apart]
    | @returned other inner same =>
      rw [same]
      by_cases here : thread = other
      · rw [here,setWorker_same]
      · rw [setWorker_other _ _ here]
    | idle empty same => rw [same]
    | @recorded other draw call rest manager queued worked same =>
      rw [same]
      dsimp only
      by_cases here : thread = other
      · rw [here,setWorker_same]
      · rw [setWorker_other _ _ here]

/-- A run of the process is a run of each worker's loop. -/
theorem worker_run {agent : AgentState σ threads} {log : AgentLog ε ω threads} (thread : Fin threads)
    (run : (agentProcess config qsort loop calls).Run (Hosts loads environment) start log agent) :
    loop.Run environment (start.workers thread).loop (workerLog thread log) (agent.workers thread).loop :=
  run.project (projects_worker config qsort thread)

end Steps
end Lancet.AgentSystem
