import Lancet.Patterns

/-! Requests and replies on the coordinator's connections. An agent answers each request once
and in order, and any reply may miss the deadline of a read; what pairs a reply with a request
is only that no other reply is outstanding. -/
namespace Lancet.ReplyPairing
open Foundation CoordProto Proto Patterns

/-- One read that returned: the reply to the request number `answered`, when `latest` was the
last request sent on the connection. -/
structure Reading where
  conn : Conn
  timeOut : Nat
  capacity : Nat
  bytes : List UInt8
  answered : Nat
  latest : Nat
  deriving DecidableEq, Repr

structure Links where
  calls : Nat
  sent : Conn → Nat
  answered : Conn → Nat
  log : List Reading

def quietLinks : Links := ⟨0,fun _ => 0,fun _ => 0,[]⟩

/-- What the agents reply to each request, and which calls go through: a write reaches the
connection, the next reply is there before the deadline of a read. -/
structure Agents where
  reply : Conn → Nat → List UInt8
  through : Nat → Bool

def send (agents : Agents) (a : Conn) (msg : List UInt8) (links : Links) : Except String Nat × Links :=
  if agents.through links.calls then
    (.ok msg.length,{links with
      calls := links.calls + 1
      sent := fun b => if b = a then links.sent b + 1 else links.sent b})
  else (.error "broken pipe",{links with calls := links.calls + 1})

def receive (agents : Agents) (a : Conn) (timeOut capacity : Nat) (links : Links) : Except String (List UInt8) × Links :=
  if agents.through links.calls ∧ links.answered a < links.sent a then
    let bytes := (agents.reply a (links.answered a)).take capacity
    (.ok bytes,{links with
      calls := links.calls + 1
      answered := fun b => if b = a then links.answered b + 1 else links.answered b
      log := links.log ++ [⟨a,timeOut,capacity,bytes,links.answered a,links.sent a - 1⟩]})
  else (.error "i/o timeout",{links with calls := links.calls + 1})

def agentNet (agents : Agents) : Net Links where
  write := send agents
  read := receive agents
  sleep _ links := links

/-- Whether the collector that reads with this deadline and buffer accepts what it got. -/
def accepted (reading : Reading) : Bool :=
  let data := padded reading.capacity reading.bytes
  if reading.capacity = ackCapacity then (parseAck data).isOk
  else if reading.timeOut = throughputTimeOut then (parseThroughput reading.bytes.length data).isOk
  else (parseLatency reading.bytes.length data).isOk

/-- Every accepted reply answers the last request sent on its connection. -/
def Paired (links : Links) : Prop := ∀ reading ∈ links.log, accepted reading = true → reading.answered = reading.latest

def Matched (links : Links) : Prop := ∀ reading ∈ links.log, reading.answered = reading.latest

/-- One unanswered request on each listed connection, and no others. -/
def Awaiting (conns : List Conn) (links : Links) : Prop := ∀ a, links.sent a = links.answered a + conns.count a

def InStep (links : Links) : Prop := Awaiting [] links ∧ Matched links

section Calls
variable (agents : Agents)

/-- While a message goes round, the connections still to come have one request less. -/
def Sending (conns rest : List Conn) (links : Links) : Prop :=
  (∀ a, links.sent a + rest.count a = links.answered a + conns.count a) ∧ Matched links

theorem write_sending (msg : List UInt8) (conns : List Conn) (a : Conn) (rest : List Conn) :
    Go.Triple (Sending conns (a :: rest)) (Go.run ((agentNet agents).write a msg))
      (fun count links => count = msg.length ∧ Sending conns rest links) Matched := by
  refine Go.triple_run (fun links count links' sending wrote => ?_) (fun links text links' sending wrote => ?_)
  · change send agents a msg links = _ at wrote
    rw [send] at wrote
    split at wrote
    · cases wrote
      refine ⟨rfl,fun b => ?_,sending.2⟩
      have balance := sending.1 b
      rw [List.count_cons] at balance
      dsimp only
      by_cases same : b = a
      · rw [if_pos same]
        rw [if_pos (beq_iff_eq.mpr same.symm)] at balance
        omega
      · rw [if_neg same]
        rw [if_neg (fun equal => same (beq_iff_eq.mp equal).symm)] at balance
        exact balance
    · cases wrote
  · change send agents a msg links = _ at wrote
    rw [send] at wrote
    split at wrote
    · cases wrote
    · cases wrote
      exact sending.2

theorem broadcast_sent (msg : List UInt8) (conns : List Conn) :
    Go.Triple InStep (broadcastMessage (agentNet agents) msg conns) (fun _ links => Awaiting conns links ∧ Matched links)
      Matched := by
  have each : ∀ a rest, Go.Triple (Sending conns (a :: rest)) (do
      let count ← Go.describe (fun err => "Write to server failed: " ++ err ++ "\n") (Go.run ((agentNet agents).write a msg))
      if count ≠ msg.length then Go.crash else return ()) (fun _ => Sending conns rest) Matched := by
    intro a rest
    refine Go.triple_bind (Go.triple_describe _ (write_sending agents msg conns a rest)) (fun count => Go.triple_given fun whole => ?_)
    rw [if_neg (not_not_intro whole)]
    exact Go.triple_pure _ (fun _ sending => sending)
  rw [broadcastMessage]
  refine Go.triple_bind ((Go.triple_forEach (Sending conns) each conns).consequence ?_ (fun _ _ given => given)
    (fun _ given => given)) (fun _ => Go.triple_pure _ ?_)
  · rintro links ⟨drained,matched⟩
    refine ⟨fun a => ?_,matched⟩
    rw [drained a,List.count_nil,Nat.add_zero]
  · rintro links ⟨balance,matched⟩
    exact ⟨fun a => balance a,matched⟩

/-- While replies are collected, the connections still to come await theirs. -/
def Collecting (rest : List Conn) (links : Links) : Prop := rest.Nodup ∧ Awaiting rest links ∧ Matched links

theorem read_collecting (timeOut capacity : Nat) (a : Conn) (rest : List Conn) :
    Go.Triple (Collecting (a :: rest)) (Go.run ((agentNet agents).read a timeOut capacity)) (fun _ => Collecting rest) Matched := by
  refine Go.triple_run (fun links data links' collecting got => ?_) (fun links text links' collecting got => ?_)
  · obtain ⟨distinct,awaiting,matched⟩ := collecting
    obtain ⟨fresh,distinct⟩ := List.nodup_cons.mp distinct
    have one : links.sent a = links.answered a + 1 := by
      rw [awaiting a,List.count_cons_self,List.count_eq_zero.mpr fresh]
    change receive agents a timeOut capacity links = _ at got
    rw [receive] at got
    split at got
    · cases got
      refine ⟨distinct,fun b => ?_,?_⟩
      · have balance := awaiting b
        dsimp only
        by_cases same : b = a
        · subst same
          rw [if_pos rfl,one,List.count_eq_zero.mpr fresh]
        · rw [List.count_cons_of_ne (Ne.symm same)] at balance
          rw [if_neg same]
          exact balance
      · intro reading member
        rcases List.mem_append.mp member with earlier | last
        · exact matched reading earlier
        · rw [List.mem_singleton.mp last]
          dsimp only
          rw [one]
          rfl
    · cases got
  · change receive agents a timeOut capacity links = _ at got
    rw [receive] at got
    split at got
    · cases got
    · cases got
      exact collecting.2.2

theorem collect_answered {α : Type} (timeOut capacity : Nat) (parse : Nat → Parser α) (conns : List Conn) (distinct : conns.Nodup) :
    Go.Triple (fun links => Awaiting conns links ∧ Matched links)
      (Go.forEach (collectFrom (agentNet agents) timeOut capacity parse) conns) (fun _ => InStep) Matched := by
  have each : ∀ a rest, Go.Triple (Collecting (a :: rest)) (collectFrom (agentNet agents) timeOut capacity parse a)
      (fun _ => Collecting rest) Matched := by
    intro a rest
    rw [collectFrom]
    refine Go.triple_bind (Go.triple_describe _ (read_collecting agents timeOut capacity a rest)) (fun data => ?_)
    split
    · exact Go.triple_pure _ (fun _ collecting => collecting)
    · exact Go.triple_fail _ (fun _ collecting => collecting.2.2)
  refine (Go.triple_forEach Collecting each conns).consequence ?_ ?_ (fun _ given => given)
  · exact fun links given => ⟨distinct,given⟩
  · exact fun _ links collecting => collecting.2

/-- A call of the coordinator that starts with no reply outstanding and ends so when it succeeds. -/
def Lockstep {α : Type} (program : Go Links α) : Prop := Go.Triple InStep program (fun _ => InStep) Matched

theorem collectAcks_answered (conns : List Conn) (distinct : conns.Nodup) :
    Go.Triple (fun links => Awaiting conns links ∧ Matched links) (collectAcks (agentNet agents) conns) (fun _ => InStep)
      Matched :=
  Go.triple_bind (collect_answered agents _ _ _ conns distinct) (fun _ => Go.triple_pure _ (fun _ given => given))

theorem startLoad_lockstep (conns : List Conn) (distinct : conns.Nodup) (load : Int) :
    Lockstep (startLoad (agentNet agents) conns load) :=
  Go.triple_bind (broadcast_sent agents _ conns) (fun _ => collectAcks_answered agents conns distinct)

theorem startMeasure_lockstep (conns : List Conn) (distinct : conns.Nodup) (sampleCount : Int) (samplingRate : Float) :
    Lockstep (startMeasure (agentNet agents) conns sampleCount samplingRate) :=
  Go.triple_bind (broadcast_sent agents _ conns) (fun _ => collectAcks_answered agents conns distinct)

theorem reportThroughput_lockstep (conns : List Conn) (distinct : conns.Nodup) :
    Lockstep (reportThroughput (agentNet agents) conns) :=
  Go.triple_bind (broadcast_sent agents _ conns) (fun _ => Go.triple_bind (collect_answered agents _ _ _ conns distinct)
    (fun _ => Go.triple_pure _ (fun _ given => given)))

theorem reportLatency_lockstep (conns : List Conn) (distinct : conns.Nodup) :
    Lockstep (reportLatency (agentNet agents) conns) :=
  Go.triple_bind (broadcast_sent agents _ conns) (fun _ => Go.triple_bind (collect_answered agents _ _ _ conns distinct)
    (fun _ => Go.triple_pure _ (fun _ given => given)))

/-- A program that starts with no reply outstanding and, when it returns no error, ends so. -/
def Steady {α : Type} (program : Go (Links × Screen) α) : Prop :=
  Go.Triple (fun world => InStep world.1) program (fun _ world => InStep world.1) (fun world => Matched world.1)

theorem InStep.matched {links : Links} (inStep : InStep links) : Matched links := inStep.2

theorem steady_pure {α : Type} (value : α) : Steady (pure value) := Go.triple_pure value (fun _ inStep => inStep)

theorem steady_fail {α : Type} (text : String) : Steady (Go.fail text : Go (Links × Screen) α) :=
  Go.triple_fail text (fun _ inStep => inStep.matched)

theorem steady_crash {α : Type} : Steady (Go.crash : Go (Links × Screen) α) :=
  Go.triple_crash (fun _ inStep => inStep.matched)

theorem Steady.bind {α β : Type} {program : Go (Links × Screen) α} {following : α → Go (Links × Screen) β}
    (first : Steady program) (second : ∀ value, Steady (following value)) : Steady (program >>= following) :=
  Go.triple_bind first second

theorem steady_call {α : Type} {program : Go Links α} (text : String → String) (call : Lockstep program) :
    Steady (Go.describe text (Go.onFirst program)) :=
  Go.triple_describe text (Go.triple_onFirst call)

theorem steady_screen {α : Type} (program : Go Screen α) : Steady (screen program) :=
  (Go.triple_onSecond program).consequence (fun _ given => given) (fun _ _ given => given) (fun _ inStep => inStep.matched)

theorem steady_sleep (seconds : Int) : Steady (sleep (agentNet agents) seconds) :=
  Go.triple_onFirst (Go.triple_change (fun _ inStep => inStep))

theorem iteration_steady (plan : Plan) (distinct : plan.agents.Nodup) (loop : Loop) :
    Steady (iteration (agentNet agents) plan loop) := by
  rw [iteration]
  split
  · split
    · refine (steady_call _ (startMeasure_lockstep agents _ distinct _ _)).bind fun _ => ?_
      refine (steady_screen _).bind fun _ => (steady_sleep agents _).bind fun _ => ?_
      refine (steady_call _ (reportThroughput_lockstep agents _ distinct)).bind fun results => ?_
      exact (steady_screen _).bind fun loop' => steady_pure _
    · refine (steady_call _ (startMeasure_lockstep agents _ distinct _ _)).bind fun _ => ?_
      refine (steady_screen _).bind fun _ => (steady_screen _).bind fun _ => (steady_screen _).bind fun _ => ?_
      refine (steady_sleep agents _).bind fun _ => ?_
      refine (steady_call _ (reportLatency_lockstep agents _ distinct)).bind fun results => ?_
      exact (steady_screen _).bind fun loop' => steady_pure _
    · exact steady_pure _
  · exact steady_fail _

theorem loop_steady {α β : Type} {body : α → Go (Links × Screen) (α ⊕ β)} (each : ∀ state, Steady (body state)) (passes : Nat)
    (state : α) : Steady (Go.loop body passes state) := by
  refine Go.triple_loop (fun _ (world : Links × Screen) => InStep world.1) (fun state => ?_) (fun _ _ inStep => inStep.matched) passes state
  refine (each state).consequence (fun _ given => given) (fun result world inStep => ?_) (fun _ given => given)
  cases result with
  | inl state' => exact inStep
  | inr value => exact inStep

theorem symAgents_distinct (c : Coordinator) : c.symAgents.Nodup := (List.nodup_append.mp c.separate).2.1

theorem asymAgents_distinct (c : Coordinator) : (c.thAgents ++ c.ltAgents).Nodup := (List.nodup_append.mp c.separate).1

theorem fixedSymPattern_steady (passes : Nat) (c : Coordinator) (loadRate ciSize : Int) :
    Steady (fixedSymPattern (agentNet agents) passes c loadRate ciSize) := by
  rw [fixedSymPattern]
  split
  · exact steady_crash
  · refine (steady_call _ (startLoad_lockstep agents _ (symAgents_distinct c) _)).bind fun _ => ?_
    refine (steady_sleep agents _).bind fun _ => ?_
    exact loop_steady (iteration_steady agents _ (symAgents_distinct c)) passes _

theorem testSymPattern_steady (c : Coordinator) (loadRate : Int) : Steady (testSymPattern (agentNet agents) c loadRate) := by
  have distinct := symAgents_distinct c
  rw [testSymPattern]
  split
  · exact steady_crash
  · refine (steady_call _ (startLoad_lockstep agents _ distinct _)).bind fun _ => (steady_sleep agents _).bind fun _ => ?_
    refine (steady_screen _).bind fun _ => (steady_screen _).bind fun _ => (steady_screen _).bind fun _ => ?_
    refine (steady_call _ (startMeasure_lockstep agents _ distinct _ _)).bind fun _ => (steady_screen _).bind fun _ => ?_
    refine (steady_sleep agents _).bind fun _ => ?_
    refine (steady_call _ (reportLatency_lockstep agents _ distinct)).bind fun results => ?_
    exact (steady_sleep agents _).bind fun _ => steady_screen _

theorem testAsymPattern_steady (c : Coordinator) (loadRate latencyRate : Int) :
    Steady (testAsymPattern (agentNet agents) c loadRate latencyRate) := by
  have both := asymAgents_distinct c
  have first : Steady (loadThAgents (agentNet agents) c loadRate) := by
    rw [loadThAgents]
    split
    · exact steady_call _ (startLoad_lockstep agents _ (List.nodup_append.mp both).1 _)
    · exact steady_pure _
  rw [testAsymPattern]
  refine first.bind fun _ => (steady_call _ (startLoad_lockstep agents _ (List.nodup_append.mp both).2.1 _)).bind fun _ => ?_
  refine (steady_sleep agents _).bind fun _ => (steady_call _ (startMeasure_lockstep agents _ both _ _)).bind fun _ => ?_
  refine (steady_screen _).bind fun _ => (steady_sleep agents _).bind fun _ => ?_
  refine (steady_call _ (reportThroughput_lockstep agents _ (List.nodup_append.mp both).1)).bind fun throughput => ?_
  refine (steady_call _ (reportLatency_lockstep agents _ (List.nodup_append.mp both).2.1)).bind fun latency => ?_
  exact steady_screen _

theorem stepPattern_steady (passes : Nat) (c : Coordinator) (startLoad endLoad step latencyRate : Int) :
    Steady (stepPattern (agentNet agents) passes c startLoad endLoad step latencyRate) := by
  refine loop_steady (fun loadRate => ?_) passes startLoad
  rw [stepIteration]
  split
  · exact (testAsymPattern_steady agents c _ _).bind fun _ => (steady_screen _).bind fun _ => steady_pure _
  · exact steady_pure _

end Calls

section Correlation
variable {σ : Type}

/-- The worlds in which the tests of the `corr` pattern start. -/
def testStarts (net : Net σ) (c : Coordinator) (loadRate : Int) : List Float → σ × Screen → List (σ × Screen)
  | [], _ => []
  | r :: rates, world => world :: (match corrTest net c loadRate r world with
    | (.value _,after) => testStarts net c loadRate rates after
    | _ => [])

def corrStarts (net : Net σ) (agents : Coordinator) (pattern : List Char) (world : σ × Screen) : List (σ × Screen) :=
  let patternAgs := split ':' pattern
  match patternAgs[1]?.bind atoi, patternAgs[2]?.bind atoi with
  | some loadRate, some samples =>
    if patternAgs.headD [] = ['c','o','r','r'] then
      testStarts net {agents with samples := samples, samplingRate := initialSamplingRate} loadRate smallRates world
    else []
  | _, _ => []

/-- Whether every test of the `corr` pattern returns without an error. -/
def testsSucceed (net : Net σ) (c : Coordinator) (loadRate : Int) : List Float → σ × Screen → Bool
  | [], _ => true
  | r :: rates, world => match corrTest net c loadRate r world, testSymPattern net {c with samplingRate := r} loadRate
      (screen (printf "Sampling Rate = %v/100\n" [.float r]) world).2 with
    | (.value _,after), (.value _,_) => testsSucceed net c loadRate rates after
    | _, _ => false

theorem parsePart_triple {before : σ → Prop} (patternAgs : List (List Char)) (index : Nat) (reason : String) :
    Go.Triple before (parsePart patternAgs index reason : Go σ Int)
      (fun value world => patternAgs[index]?.bind atoi = some value ∧ before world) before := by
  rw [parsePart]
  cases patternAgs[index]? with
  | none => exact Go.triple_crash (fun _ given => given)
  | some part =>
    dsimp only [Option.bind_some]
    cases atoi part with
    | none => exact Go.triple_fail _ (fun _ given => given)
    | some value => exact Go.triple_pure _ (fun _ given => ⟨rfl,given⟩)

end Correlation

theorem corrTest_matched (agents : Agents) (c : Coordinator) (loadRate : Int) (r : Float) :
    Go.Triple (fun world => InStep world.1) (corrTest (agentNet agents) c loadRate r) (fun _ world => Matched world.1)
      (fun world => Matched world.1) := by
  refine Go.triple_bind (steady_screen _) (fun _ => Go.triple_ignoreError ?_)
  exact (testSymPattern_steady agents _ _).consequence (fun _ given => given) (fun _ _ inStep => inStep.matched)
    (fun _ given => given)

/-- One test after the other: what was read is matched as long as each starts with nothing outstanding. -/
theorem corrTests_matched (agents : Agents) (c : Coordinator) (loadRate : Int) (rates : List Float) (world : Links × Screen)
    (matched : Matched world.1) (quiet : ∀ start ∈ testStarts (agentNet agents) c loadRate rates world, Awaiting [] start.1) :
    Matched (Go.forEach (corrTest (agentNet agents) c loadRate) rates world).2.1 := by
  induction rates generalizing world with
  | nil => exact matched
  | cons r rates ih =>
    rw [testStarts] at quiet
    have inStep : InStep world.1 := ⟨quiet world List.mem_cons_self,matched⟩
    have ended := (corrTest_matched agents c loadRate r).ends world inStep
    have unfolded : Go.forEach (corrTest (agentNet agents) c loadRate) (r :: rates) world =
      Go.bind (corrTest (agentNet agents) c loadRate r) _ world := rfl
    rw [unfolded,Go.bind]
    rcases ran : corrTest (agentNet agents) c loadRate r world with ⟨value | _ | _ | _,after⟩
    · rw [ran] at ended quiet
      have later := ih after ended (fun start member => quiet start (List.mem_cons_of_mem _ member))
      dsimp only
      rw [Go.bind_pure_world]
      exact later
    all_goals
      rw [ran] at ended
      exact ended

/-- A test that succeeds leaves nothing outstanding for the next one. -/
theorem quiet_of_success (agents : Agents) (c : Coordinator) (loadRate : Int) (rates : List Float) (world : Links × Screen)
    (inStep : InStep world.1) (success : testsSucceed (agentNet agents) c loadRate rates world = true) :
    ∀ start ∈ testStarts (agentNet agents) c loadRate rates world, Awaiting [] start.1 := by
  induction rates generalizing world with
  | nil => exact fun _ member => nomatch member
  | cons r rates ih =>
    intro start member
    rw [testStarts] at member
    rcases List.mem_cons.mp member with here | later
    · rw [here]
      exact inStep.1
    · rw [testsSucceed] at success
      have printed : (screen (printf "Sampling Rate = %v/100\n" [.float r]) : Go (Links × Screen) Unit) world =
          (.value (),(screen (printf "Sampling Rate = %v/100\n" [.float r]) world).2) := rfl
      have kept := (testSymPattern_steady agents {c with samplingRate := r} loadRate).ends
        (screen (printf "Sampling Rate = %v/100\n" [.float r]) world).2 inStep
      have called : corrTest (agentNet agents) c loadRate r world = Go.ignoreError
          (testSymPattern (agentNet agents) {c with samplingRate := r} loadRate)
          (screen (printf "Sampling Rate = %v/100\n" [.float r]) world).2 := Go.bind_value _ printed
      rw [Go.ignoreError] at called
      rcases ran : testSymPattern (agentNet agents) {c with samplingRate := r} loadRate
        (screen (printf "Sampling Rate = %v/100\n" [.float r]) world).2 with ⟨value | _ | _ | _,after⟩
      all_goals
        rw [ran] at called kept success
        rw [called] at success later
      · exact ih after kept success start later
      all_goals cases success

theorem runExp_matched (agents : Agents) (c : Coordinator) (passes : Nat) (pattern : List Char) (latencyRate ciSize : Int)
    (start : Links × Screen) (inStep : InStep start.1)
    (quiet : ∀ test ∈ corrStarts (agentNet agents) c pattern start, Awaiting [] test.1) :
    Go.Triple (fun world => world = start) (runExp (agentNet agents) passes c pattern latencyRate ciSize)
      (fun _ world => Matched world.1) (fun world => Matched world.1) := by
  have begins : ∀ world, world = start → InStep world.1 := by
    rintro world rfl
    exact inStep
  have matched : ∀ world, world = start → Matched world.1 := fun world same => (begins world same).matched
  have steady : ∀ {program : Go (Links × Screen) Unit}, Steady program →
      Go.Triple (fun world => world = start) program (fun _ world => Matched world.1) (fun world => Matched world.1) :=
    fun holds => holds.consequence begins (fun _ _ ended => ended.matched) (fun _ given => given)
  have part := fun patternAgs index reason =>
    (@parsePart_triple (Links × Screen) (fun world => world = start) patternAgs index reason).consequence
      (fun _ given => given) (fun _ _ given => given) matched
  rw [runExp]
  dsimp only
  split
  · split
    · exact Go.triple_fail _ matched
    · exact Go.triple_bind (part _ _ _) (fun loadRate => Go.triple_given fun _ =>
        steady (fixedSymPattern_steady agents passes _ loadRate ciSize))
  · split
    · refine Go.triple_bind (part _ _ _) (fun startLoad => Go.triple_given fun _ => ?_)
      refine Go.triple_bind (part _ _ _) (fun step => Go.triple_given fun _ => ?_)
      refine Go.triple_bind (part _ _ _) (fun endLoad => Go.triple_given fun _ => ?_)
      exact steady (stepPattern_steady agents passes _ startLoad endLoad step latencyRate)
    · split
      · refine Go.triple_bind (part _ _ _) (fun loadRate => Go.triple_given fun _ => ?_)
        refine Go.triple_bind (part _ _ _) (fun samples => Go.triple_given fun _ => ?_)
        split
        · exact steady (testSymPattern_steady agents _ loadRate)
        · exact steady (testAsymPattern_steady agents _ loadRate latencyRate)
      · split
        next corr =>
          refine Go.triple_bind (part _ _ _) (fun loadRate => Go.triple_given fun parsedLoad => ?_)
          refine Go.triple_bind (part _ _ _) (fun samples => Go.triple_given fun parsedSamples => ?_)
          rw [corrStarts,parsedLoad,parsedSamples] at quiet
          dsimp only at quiet
          rw [if_pos corr] at quiet
          constructor
          rintro world rfl
          have tests := corrTests_matched agents _ loadRate smallRates world inStep.matched quiet
          refine @Go.ends_always _ _ (fun world : Links × Screen => Matched world.1) _ ?_
          rw [corrPattern,Go.bind_pure_world]
          exact tests
        next => exact Go.triple_fail _ matched

theorem replies_paired (agents : Agents) (c : Coordinator) (passes : Nat) (pattern : List Char) (latencyRate ciSize : Int)
    (quiet : ∀ test ∈ corrStarts (agentNet agents) c pattern (quietLinks,[]), Awaiting [] test.1) :
    Paired (runExp (agentNet agents) passes c pattern latencyRate ciSize (quietLinks,[])).2.1 := by
  have inStep : InStep quietLinks := ⟨fun _ => rfl,fun _ member => nomatch member⟩
  have ended := ((runExp_matched agents c passes pattern latencyRate ciSize (quietLinks,[]) inStep quiet).ends _ rfl).always
  exact fun reading member _ => ended reading member

def oneAgent : Coordinator := ⟨[],[],[0],0,0,by decide⟩

/-- What a symmetric agent answers when every `cycle`-th request is a REPORT_REQ. -/
def exampleAgents (cycle : Nat) (through : Nat → Bool) : Agents where
  reply _ n :=
    if n % cycle = cycle - 1 then Msg1.bytes ⟨⟨replyCode,32⟩,replyStatsLatency⟩ ++
      LatencyReply.bytes ⟨⟨64000,64000,1000,1000000⟩,21,20,21,22,30,31,32,35,36,37,40,41,42⟩
    else Msg1.bytes ⟨⟨replyCode,4⟩,replyAckType⟩
  through := through

def examplePattern : List Char := ['c','o','r','r',':','1','0','0','0',':','1','0','0']

/-- The acknowledgement of the first START_LOAD comes after its deadline; the second test takes
it for its own. -/
theorem late_ack_accepted :
    let run := runExp (agentNet (exampleAgents 4 (fun call => call != 1))) 0 oneAgent
      examplePattern 0 0 (quietLinks,[])
    (∃ reading ∈ run.2.1.log, accepted reading = true ∧ reading.answered = 0 ∧ reading.latest = 1) ∧ ¬Paired run.2.1 := by
  intro run
  have late : run.2.1.log.any (fun reading => accepted reading && reading.answered == 0 && reading.latest == 1) = true := by
    decide +kernel
  obtain ⟨reading,member,found⟩ := List.any_eq_true.mp late
  simp only [Bool.and_eq_true,beq_iff_eq] at found
  obtain ⟨⟨taken,answered⟩,latest⟩ := found
  refine ⟨⟨reading,member,taken,answered,latest⟩,fun paired => ?_⟩
  have same := paired reading member taken
  rw [answered,latest] at same
  exact absurd same (by decide)

/-- With every reply in time the five tests succeed. -/
theorem replies_paired_in_time :
    Paired (runExp (agentNet (exampleAgents 3 (fun _ => true))) 0 oneAgent examplePattern 0 0 (quietLinks,[])).2.1 := by
  refine replies_paired _ oneAgent 0 examplePattern 0 0 ?_
  have inStep : InStep quietLinks := ⟨fun _ => rfl,fun _ member => nomatch member⟩
  have tests := quiet_of_success (exampleAgents 3 (fun _ => true))
    {oneAgent with samples := 100, samplingRate := initialSamplingRate} 1000 smallRates (quietLinks,[]) inStep (by decide +kernel)
  have load : (split ':' examplePattern)[1]?.bind atoi = some 1000 := by decide +kernel
  have samples : (split ':' examplePattern)[2]?.bind atoi = some 100 := by decide +kernel
  have corr : (split ':' examplePattern).headD [] = ['c','o','r','r'] := by decide +kernel
  rw [corrStarts,load,samples]
  dsimp only
  rw [if_pos corr]
  exact tests

end Lancet.ReplyPairing
