import Lancet.MeasureWindow
import Lancet.MessageStream

/-! The coordinator's network with the agents behind it. Between two calls of the coordinator
the agents make progress in any order, as a schedule says. A message and a reply arrive in one
piece; a call may fail at any time. The trace keeps what was written, handled and read. -/
namespace Lancet.Deployment
open Foundation Agent Stats CoordProto Proto Manager MessageStream MeasureWindow

/-- An agent and the two directions of its connection. -/
structure Remote where
  manager : ManagerState
  running : Bool
  inbox : MessageStream.Segments
  outbox : List UInt8

inductive Entry where
  | wrote (a : Conn) (msg : List UInt8) (time : Int)
  | agent (a : Conn) (event : Event) (output : Option Reply) (time : Int)
  | received (a : Conn) (chunk : List UInt8) (time : Int)
  | failed (a : Conn)

structure Site where
  remotes : Conn → Remote
  -- the microseconds of `time_us`
  clock : Int
  calls : Nat
  trace : List Entry

/-- What happens at the agents; `handle` is the manager's next turn of its loop. -/
inductive Happening where
  | tick (elapsed : Nat)
  | handle (a : Conn) (reference : List UInt64)
  | resume (a : Conn)
  | worker (a : Conn) (thread : Nat) (call : StatsCall) (draw : Float)

structure Turn where
  happenings : List Happening
  -- the connection is reset
  fails : Bool

structure Fleet where
  config : Conn → AgentConfig
  generators : Conn → Generators
  threads : Conn → List ThreadStats
  aggStats : Conn → LatencyStats
  qsort : Qsort
  schedule : Nat → Turn

namespace Fleet
variable (fleet : Fleet)

def start (a : Conn) : ManagerState := initially (fleet.generators a) (fleet.threads a) (fleet.aggStats a)

def deployed (clock : Int) : Site where
  remotes a := ⟨fleet.start a,true,[],[]⟩
  clock := clock
  calls := 0
  trace := []

def update (site : Site) (a : Conn) (remote : Remote) : Site := {site with remotes := Function.update site.remotes a remote}

/-- A step of an agent; one that faults or leaves the loop ends the process. -/
def act (site : Site) (a : Conn) (inbox : MessageStream.Segments) (event : Event) : Site :=
  let remote := site.remotes a
  match (managerRun (fleet.config a) fleet.qsort).step remote.manager event with
  | .next (manager,output) =>
    {update site a ⟨manager,true,inbox,remote.outbox ++ (output.map Reply.bytes).getD []⟩ with
      trace := site.trace ++ [.agent a event output site.clock]}
  | .halt | .fault => update site a {remote with running := false}

def happen (site : Site) : Happening → Site
  | .tick elapsed => {site with clock := site.clock + elapsed}
  | .handle a reference =>
    let remote := site.remotes a
    if remote.running = true ∧ remote.manager.reporting = false ∧ remote.inbox ≠ [] then
      match readMessage remote.inbox with
      | .next (some (message,rest)) => fleet.act site a rest (.message message site.clock reference)
      | .next none | .halt | .fault => update site a {remote with running := false}
    else site
  | .resume a =>
    let remote := site.remotes a
    if remote.running = true ∧ remote.manager.reporting = true then fleet.act site a remote.inbox (.resume site.clock)
    else site
  | .worker a thread call draw =>
    let remote := site.remotes a
    if remote.running = true ∧ thread < remote.manager.threads.length then
      fleet.act site a remote.inbox (.worker thread call draw)
    else site

def turn (site : Site) : Turn := fleet.schedule site.calls

def elapse (site : Site) : Site :=
  {(fleet.turn site).happenings.foldl fleet.happen site with calls := site.calls + 1}

def fail (site : Site) (a : Conn) : Site := {site with trace := site.trace ++ [.failed a]}

def write (a : Conn) (msg : List UInt8) (site : Site) : Except String Nat × Site :=
  let later := fleet.elapse site
  let remote := later.remotes a
  if (fleet.turn site).fails = true ∨ remote.running = false then (.error "broken pipe",fail later a)
  else (.ok msg.length,
    {update later a {remote with inbox := remote.inbox ++ [msg]} with trace := later.trace ++ [.wrote a msg later.clock]})

/-- One read, which gets what is there before its deadline. -/
def read (a : Conn) (timeOut capacity : Nat) (site : Site) : Except String (List UInt8) × Site :=
  let later := fleet.elapse site
  let remote := later.remotes a
  if (fleet.turn site).fails = true then (.error "connection reset by peer",fail later a)
  else if remote.outbox = [] ∨ site.clock + 1000 * timeOut < later.clock then (.error "i/o timeout",fail later a)
  else (.ok (remote.outbox.take capacity),
    {update later a {remote with outbox := remote.outbox.drop capacity} with
      trace := later.trace ++ [.received a (remote.outbox.take capacity) later.clock]})

def sleep (seconds : Int) (site : Site) : Site :=
  let later := fleet.elapse site
  {later with clock := max later.clock (site.clock + 1000000 * seconds)}

def net : Net Site := ⟨fleet.write,fleet.read,fleet.sleep⟩

end Fleet

/-- The log of an agent's own machine. -/
def agentLog (a : Conn) (trace : List Entry) : Log := trace.filterMap (fun
  | .agent b event output _ => if b = a then some (event,output) else none
  | .wrote _ _ _ | .received _ _ _ | .failed _ => none)

/-- An entry is about a message of this connection or about its reply. -/
def Entry.concerns (a : Conn) : Entry → Bool
  | .wrote b _ _ | .received b _ _ => b == a
  | .agent b (.message _ _ _) _ _ => b == a
  | .agent _ (.resume _) _ _ | .agent _ (.worker _ _ _) _ _ | .failed _ => false

def conversation (a : Conn) (trace : List Entry) : List Entry := trace.filter (Entry.concerns a)

def Entry.isFailed : Entry → Bool
  | .failed _ => true
  | .wrote _ _ _ | .agent _ _ _ _ | .received _ _ _ => false

/-- The trace up to the first call that failed. -/
def sound (trace : List Entry) : List Entry := trace.takeWhile (fun entry => !entry.isFailed)

def Entry.time : Entry → Option Int
  | .wrote _ _ time | .agent _ _ _ time | .received _ _ time => some time
  | .failed _ => none

def times (trace : List Entry) : List Int := trace.filterMap Entry.time

theorem agentLog_append (a : Conn) (trace entries : List Entry) :
    agentLog a (trace ++ entries) = agentLog a trace ++ agentLog a entries := List.filterMap_append ..

theorem agentLog_own (a : Conn) (trace : List Entry) (event : Event) (output : Option Reply) (time : Int) :
    agentLog a (trace ++ [.agent a event output time]) = agentLog a trace ++ [(event,output)] := by
  rw [agentLog_append]
  simp [agentLog]

theorem conversation_snoc (a : Conn) (trace : List Entry) (entry : Entry) :
    conversation a (trace ++ [entry]) = conversation a trace ++ conversation a [entry] := List.filter_append ..

theorem times_snoc (trace : List Entry) (entry : Entry) : times (trace ++ [entry]) = times trace ++ times [entry] :=
  List.filterMap_append ..

/-- The steps that the agent's own machine can make here, with what is left to read. -/
def Offers (site : Site) (a : Conn) : Event → MessageStream.Segments → Prop
  | .message message now _, inbox => now = site.clock ∧ (site.remotes a).manager.reporting = false ∧
    readMessage (site.remotes a).inbox = .next (some (message,inbox))
  | .resume _, inbox => (site.remotes a).manager.reporting = true ∧ inbox = (site.remotes a).inbox
  | .worker thread _ _, inbox => thread < (site.remotes a).manager.threads.length ∧ inbox = (site.remotes a).inbox

/-- Nothing that concerns this agent. -/
structure Untouched (a : Conn) (site after : Site) : Prop where
  manager : (after.remotes a).manager = (site.remotes a).manager
  inbox : (after.remotes a).inbox = (site.remotes a).inbox
  outbox : (after.remotes a).outbox = (site.remotes a).outbox
  log : agentLog a after.trace = agentLog a site.trace
  conversed : conversation a after.trace = conversation a site.trace
  clock : site.clock ≤ after.clock

structure Stepped (fleet : Fleet) (a : Conn) (site after : Site) (event : Event) (output : Option Reply)
    (inbox : MessageStream.Segments) : Prop where
  offers : Offers site a event inbox
  step : (managerRun (fleet.config a) fleet.qsort).step (site.remotes a).manager event = .next ((after.remotes a).manager,output)
  inbox : (after.remotes a).inbox = inbox
  outbox : (after.remotes a).outbox = (site.remotes a).outbox ++ (output.map Reply.bytes).getD []
  trace : after.trace = site.trace ++ [.agent a event output site.clock]
  clock : after.clock = site.clock

def Effect (fleet : Fleet) (a : Conn) (site after : Site) : Prop :=
  Untouched a site after ∨ ∃ event output inbox, Stepped fleet a site after event output inbox

section Happenings
variable {fleet : Fleet} {site : Site}

theorem Untouched.refl (a : Conn) : Untouched a site site := ⟨rfl,rfl,rfl,rfl,rfl,Int.le_refl _⟩

theorem ended_untouched (a b : Conn) (running : Bool) :
    Untouched a site (Fleet.update site b {site.remotes b with running := running}) := by
  by_cases same : a = b
  · subst same
    exact ⟨by simp [Fleet.update],by simp [Fleet.update],by simp [Fleet.update],rfl,rfl,Int.le_refl _⟩
  · exact ⟨by simp [Fleet.update,same],by simp [Fleet.update,same],by simp [Fleet.update,same],rfl,rfl,Int.le_refl _⟩

theorem act_effect (a : Conn) {b : Conn} {event : Event} {inbox : MessageStream.Segments} (offers : Offers site b event inbox) :
    Effect fleet a site (fleet.act site b inbox event) := by
  rw [Fleet.act]
  dsimp only
  split
  next manager output stepped =>
    by_cases same : a = b
    · subst same
      refine .inr ⟨event,output,inbox,offers,?_,?_,?_,rfl,rfl⟩
      · simpa [Fleet.update] using stepped
      · simp [Fleet.update]
      · simp [Fleet.update]
    · have other : ¬b = a := fun equal => same equal.symm
      refine .inl ⟨by simp [Fleet.update,same],by simp [Fleet.update,same],by simp [Fleet.update,same],?_,?_,Int.le_refl _⟩
      · rw [agentLog_append]
        simp [agentLog,other]
      · rw [conversation_snoc]
        cases event <;> simp [conversation,Entry.concerns,other]
  next => exact .inl (ended_untouched a b false)
  next => exact .inl (ended_untouched a b false)

/-- Whatever happens leaves an agent alone or is a step of its machine. -/
theorem happen_effect (a : Conn) (happening : Happening) : Effect fleet a site (fleet.happen site happening) := by
  cases happening with
  | tick elapsed => exact .inl ⟨rfl,rfl,rfl,rfl,rfl,Int.le_add_of_nonneg_right (Int.natCast_nonneg elapsed)⟩
  | handle b reference =>
    rw [Fleet.happen]
    split
    next guard =>
      split
      next message rest received => exact act_effect a ⟨rfl,guard.2.1,received⟩
      all_goals exact .inl (ended_untouched a b false)
    next => exact .inl (.refl a)
  | resume b =>
    rw [Fleet.happen]
    split
    next guard => exact act_effect a ⟨guard.2,rfl⟩
    next => exact .inl (.refl a)
  | worker b thread call draw =>
    rw [Fleet.happen]
    split
    next guard => exact act_effect a ⟨guard.2,rfl⟩
    next => exact .inl (.refl a)

theorem Effect.clock {a : Conn} {after : Site} (effect : Effect fleet a site after) : site.clock ≤ after.clock := by
  rcases effect with untouched | ⟨event,output,inbox,stepped⟩
  · exact untouched.clock
  · exact Int.le_of_eq stepped.clock.symm

theorem Effect.log {a : Conn} {after : Site} (effect : Effect fleet a site after) : ∃ more, agentLog a after.trace = agentLog a site.trace ++ more := by
  rcases effect with untouched | ⟨event,output,inbox,stepped⟩
  · exact ⟨[],by rw [untouched.log,List.append_nil]⟩
  · exact ⟨[(event,output)],by rw [stepped.trace,agentLog_own]⟩

/-- Time goes by, or the trace grows by what an agent does now. -/
def Grows (site after : Site) : Prop :=
  (after.trace = site.trace ∧ site.clock ≤ after.clock) ∨
    ∃ a event output, after.trace = site.trace ++ [.agent a event output after.clock] ∧ after.clock = site.clock

theorem Grows.refl : Grows site site := .inl ⟨rfl,Int.le_refl _⟩

theorem Grows.clock {after : Site} (grows : Grows site after) : site.clock ≤ after.clock := by
  rcases grows with ⟨-,later⟩ | ⟨a,event,output,-,now⟩
  · exact later
  · exact Int.le_of_eq now.symm

theorem act_grows (a : Conn) (event : Event) (inbox : MessageStream.Segments) : Grows site (fleet.act site a inbox event) := by
  rw [Fleet.act]
  dsimp only
  split
  next manager output stepped => exact .inr ⟨a,event,output,rfl,rfl⟩
  all_goals exact .inl ⟨rfl,Int.le_refl _⟩

theorem happen_grows (happening : Happening) : Grows site (fleet.happen site happening) := by
  cases happening with
  | tick elapsed => exact .inl ⟨rfl,Int.le_add_of_nonneg_right (Int.natCast_nonneg elapsed)⟩
  | handle a reference =>
    rw [Fleet.happen]
    split
    next =>
      split
      next => exact act_grows ..
      all_goals exact .inl ⟨rfl,Int.le_refl _⟩
    next => exact .refl
  | resume a =>
    rw [Fleet.happen]
    split
    next => exact act_grows ..
    next => exact .refl
  | worker a thread call draw =>
    rw [Fleet.happen]
    split
    next => exact act_grows ..
    next => exact .refl

end Happenings
end Lancet.Deployment
