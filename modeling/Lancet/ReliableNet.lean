import Lancet.Patterns
import Lancet.ReplyStream

/-! Networks on which no call to an agent fails, whatever the agents report: every write
takes the whole message and every read gets a reply that parses. -/
namespace Lancet.ReliableNet
open Foundation CoordProto Proto Patterns Manager ReplyStream

variable {σ : Type} {net : Net σ}

structure Reliable (net : Net σ) : Prop where
  write : ∀ a msg world, ∃ after, net.write a msg world = (.ok msg.length,after)
  ack : ∀ a world, ∃ after, collectFrom net ackTimeOut ackCapacity (fun _ => parseAck) a world = (.value (),after)
  throughput : ∀ a world, ∃ reply after,
    collectFrom net throughputTimeOut statsCapacity parseThroughput a world = (.value reply,after)
  latency : ∀ a world, ∃ reply after, collectFrom net latencyTimeOut statsCapacity parseLatency a world = (.value reply,after)

/-- The program returns a value, of which this holds. -/
def Total {α : Type} (program : Go σ α) (after : α → Prop) : Prop :=
  Go.Triple (fun _ => True) program (fun value _ => after value) (fun _ => False)

theorem total_of_value {α : Type} {program : Go σ α} (value : ∀ world, ∃ result after, program world = (.value result,after)) :
    Total program (fun _ => True) := by
  constructor
  intro world _
  obtain ⟨result,after,ran⟩ := value world
  rw [ran]
  trivial

theorem Total.bind {α β : Type} {program : Go σ α} {following : α → Go σ β} {middle : α → Prop} {after : β → Prop}
    (first : Total program middle) (second : ∀ value, middle value → Total (following value) after) :
    Total (program >>= following) after := by
  refine Go.triple_bind first fun value => ?_
  exact (Go.triple_given fun known => second value known).consequence (fun _ given => ⟨given,trivial⟩)
    (fun _ _ given => given) (fun _ never => never)

theorem total_pure {α : Type} {value : α} {after : α → Prop} (holds : after value) : Total (pure value : Go σ α) after :=
  Go.triple_pure value fun _ _ => holds

theorem total_forEach {α β : Type} {body : α → Go σ β} (each : ∀ item, Total (body item) (fun _ => True)) (items : List α) :
    Total (Go.forEach body items) (fun results => results.length = items.length) := by
  induction items with
  | nil => exact total_pure rfl
  | cons item items ih =>
    rw [Go.forEach]
    refine (each item).bind fun result _ => ih.bind fun results same => total_pure ?_
    rw [List.length_cons,List.length_cons,same]

theorem Reliable.broadcast (reliable : Reliable net) (msg : List UInt8) (agents : List Conn) :
    Total (broadcastMessage net msg agents) (fun _ => True) := by
  refine (total_forEach (fun a => ?_) agents).bind fun _ _ => total_pure trivial
  constructor
  intro world _
  obtain ⟨after,written⟩ := reliable.write a msg world
  have described : Go.describe (fun err => "Write to server failed: " ++ err ++ "\n") (Go.run (net.write a msg)) world =
      (.value msg.length,after) := by
    rw [Go.describe,Go.run,written]
  rw [Go.bind_value _ described,if_neg (not_not_intro rfl)]
  trivial

theorem Reliable.acks (reliable : Reliable net) (agents : List Conn) : Total (collectAcks net agents) (fun _ => True) :=
  (total_forEach (fun a => total_of_value fun world => ⟨(),reliable.ack a world⟩) agents).bind fun _ _ => total_pure trivial

theorem Reliable.startLoad (reliable : Reliable net) (agents : List Conn) (load : Int) :
    Total (startLoad net agents load) (fun _ => True) :=
  (reliable.broadcast _ agents).bind fun _ _ => reliable.acks agents

theorem Reliable.startMeasure (reliable : Reliable net) (agents : List Conn) (sampleCount : Int) (samplingRate : Float) :
    Total (startMeasure net agents sampleCount samplingRate) (fun _ => True) :=
  (reliable.broadcast _ agents).bind fun _ _ => reliable.acks agents

theorem Reliable.reportThroughput (reliable : Reliable net) (agents : List Conn) :
    Total (reportThroughput net agents) (fun results => results.result.length = agents.length) := by
  refine (reliable.broadcast _ agents).bind fun _ _ => ?_
  refine (total_forEach (fun a => total_of_value (reliable.throughput a)) agents).bind fun replies same => total_pure ?_
  rw [ThroughputResults.ofReplies,List.length_map,same]

theorem Reliable.reportLatency (reliable : Reliable net) (agents : List Conn) :
    Total (reportLatency net agents) (fun results => results.result.length = agents.length) := by
  refine (reliable.broadcast _ agents).bind fun _ _ => ?_
  refine (total_forEach (fun a => total_of_value (reliable.latency a)) agents).bind fun replies same => total_pure ?_
  rw [LatencyResults.ofReplies]
  dsimp only
  rw [List.length_map,same]

/-- How the program ends, whatever the world is. -/
def Yields {α : Type} (program : Go σ α) (ended : Returned α → Prop) : Prop := ∀ world, ended (program world).1

theorem Total.yields {α : Type} {program : Go σ α} {after : α → Prop} (total : Total program after) :
    Yields program (fun result => ∃ value, result = .value value ∧ after value) := by
  intro world
  have ended := total.ends world trivial
  rcases ran : program world with ⟨value | _ | _ | _,world'⟩
  · rw [ran] at ended
    exact ⟨value,rfl,ended⟩
  all_goals
    rw [ran] at ended
    exact ended.elim

theorem Yields.total {α : Type} {program : Go σ α} {after : α → Prop}
    (yields : Yields program (fun result => ∃ value, result = .value value ∧ after value)) : Total program after := by
  constructor
  intro world _
  obtain ⟨value,returned,holds⟩ := yields world
  rcases ran : program world with ⟨result,world'⟩
  rw [ran] at returned
  cases returned
  exact holds

theorem Total.bind_yields {α β : Type} {program : Go σ α} {following : α → Go σ β} {middle : α → Prop}
    {ended : Returned β → Prop} (first : Total program middle) (second : ∀ value, middle value → Yields (following value) ended) :
    Yields (program >>= following) ended := by
  intro world
  have called := first.ends world trivial
  rcases ran : program world with ⟨value | _ | _ | _,world'⟩
  · rw [ran] at called
    rw [Go.bind_value _ ran]
    exact second value called world'
  all_goals
    rw [ran] at called
    exact called.elim

theorem Yields.weaken {α : Type} {program : Go σ α} {ended ended' : Returned α → Prop} (yields : Yields program ended)
    (weaker : ∀ result, ended result → ended' result) : Yields program ended' :=
  fun world => weaker _ (yields world)

/-- Nothing after a panic is run. -/
theorem Yields.bind_panic {α β : Type} {program : Go σ α} {following : α → Go σ β} (yields : Yields program (· = .panic)) :
    Yields (program >>= following) (· = .panic) := by
  intro world
  have called := yields world
  rcases ran : program world with ⟨value | _ | _ | _,world'⟩
  all_goals
    rw [ran] at called
    cases called
  have unfolded : (program >>= following) world = Go.bind program following world := rfl
  rw [unfolded,Go.bind,ran]

theorem yields_crash {α : Type} : Yields (Go.crash : Go σ α) (· = .panic) := fun _ => rfl

theorem Yields.onSecond {α τ : Type} {program : Go τ α} {ended : Returned α → Prop} (yields : Yields program ended) :
    Yields (Go.onSecond program : Go (σ × τ) α) ended :=
  fun world => yields world.2

theorem Total.onSecond {α τ : Type} {program : Go τ α} {after : α → Prop} (total : Total program after) :
    Total (Go.onSecond program : Go (σ × τ) α) after := by
  constructor
  intro world _
  have ended := total.ends world.2 trivial
  rw [Go.onSecond]
  rcases ran : program world.2 with ⟨value | _ | _ | _,world'⟩
  all_goals
    rw [ran] at ended
    exact ended

/-- A call returns a value and leaves the screen as it is. -/
theorem Total.call {α : Type} {program : Go σ α} {after : α → Prop} (total : Total program after) (text : String → String)
    (kept : Screen → Prop) :
    Go.Triple (fun world => kept world.2) (Go.describe text (Go.onFirst program))
      (fun value world => (∃ before world', program before = (.value value,world')) ∧ after value ∧ kept world.2)
      (fun _ => False) := by
  refine Go.triple_describe text ?_
  constructor
  intro world given
  have ended := total.ends world.1 trivial
  rw [Go.onFirst]
  rcases ran : program world.1 with ⟨value | _ | _ | _,after⟩
  · rw [ran] at ended
    exact ⟨⟨world.1,after,ran⟩,ended,given⟩
  all_goals
    rw [ran] at ended
    exact ended

theorem sleep_total (kept : Screen → Prop) (seconds : Int) :
    Go.Triple (fun world => kept world.2) (sleep net seconds) (fun _ world => kept world.2) (fun _ => False) :=
  ⟨fun _ given => given⟩

theorem Total.describe {α : Type} {program : Go σ α} {after : α → Prop} (total : Total program after)
    (text : String → String) : Total (Go.describe text (Go.onFirst program) : Go (σ × Screen) α) after :=
  (total.call text (fun _ => True)).consequence (fun _ given => given) (fun _ _ given => given.2.1) (fun _ never => never)

theorem sleep_value (seconds : Int) : Total (sleep net seconds) (fun _ => True) := ⟨fun _ _ => trivial⟩

theorem printf_value (format : String) (args : List Value) : Total (printf format args) (fun _ => True) := ⟨fun _ _ => trivial⟩

theorem println_value (text : String) : Total (println text) (fun _ => True) := printf_value _ _

/-- A slice of agents that is not empty. -/
structure Slice (agents : List Conn) : Prop where
  nonempty : agents ≠ []
  bounded : agents.length < 2^63

theorem Slice.replies {α : Type} {agents : List Conn} (slice : Slice agents) {replies : List α}
    (each : replies.length = agents.length) : replies ≠ [] ∧ UInt64.ofNat replies.length ≠ 0 := by
  have positive : 0 < replies.length := each ▸ List.length_pos_iff.mpr slice.nonempty
  have small : replies.length < 2^64 := each ▸ Nat.lt_trans slice.bounded (by decide)
  refine ⟨List.length_pos_iff.mp positive,fun zero => ?_⟩
  have wrapped := congrArg UInt64.toNat zero
  rw [UInt64.toNat_ofNat_of_lt' small] at wrapped
  exact Nat.ne_of_gt positive wrapped

/-- What each agent has to report, which may change with every read. -/
structure Reports (σ : Type) where
  throughput : Conn → σ → ThroughputReply × Option UInt32
  latency : Conn → σ → LatencyReply × Option NicChecks
  after : σ → σ

def report (reports : Reports σ) (a : Conn) (timeOut capacity : Nat) (world : σ) : Reply :=
  if capacity = ackCapacity then .ack
  else if timeOut = throughputTimeOut then .throughput (reports.throughput a world).1 (reports.throughput a world).2
  else .latency (reports.latency a world).1 (reports.latency a world).2

/-- Agents that answer every request in one piece. -/
def reportingNet (reports : Reports σ) : Net σ where
  write _ msg world := (.ok msg.length,world)
  read a timeOut capacity world := (.ok (report reports a timeOut capacity world).bytes,reports.after world)
  sleep _ world := world

theorem collectFrom_reported {α : Type} {reports : Reports σ} {timeOut capacity : Nat} {parse : Nat → Parser α} {a : Conn}
    {world : σ} {reply : Reply} {value : α} (reported : report reports a timeOut capacity world = reply)
    (parses : ∀ rest, parse reply.bytes.length (reply.bytes ++ rest) = .ok (value,rest)) :
    collectFrom (reportingNet reports) timeOut capacity parse a world = (.value value,reports.after world) := by
  have read : Go.describe (fun err => "Read from agent failed: " ++ err ++ "\n")
      (Go.run ((reportingNet reports).read a timeOut capacity)) world = (.value reply.bytes,reports.after world) := by
    rw [← reported]
    rfl
  rw [collectFrom,Go.bind_value _ read,padded,parses]
  rfl

theorem parseAck_reply (rest : List UInt8) : parseAck (Reply.ack.bytes ++ rest) = .ok ((),rest) := by
  have bytes : Reply.ack.bytes = ackMsg.bytes := List.append_nil _
  rw [bytes,parseAck,binaryRead_run _ _ (Msg1.read_bytes _ _)]
  rfl

theorem reportingNet_reliable (reports : Reports σ) : Reliable (reportingNet reports) where
  write _ _ world := ⟨world,rfl⟩
  ack _ world := ⟨reports.after world,collectFrom_reported rfl parseAck_reply⟩
  throughput _ world := ⟨_,reports.after world,collectFrom_reported rfl (parseThroughput_reply _ _)⟩
  latency _ world := ⟨_,reports.after world,collectFrom_reported rfl (parseLatency_reply _ _)⟩

end Lancet.ReliableNet
