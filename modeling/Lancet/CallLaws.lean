import Lancet.Conversations
import Lancet.ReliableNet

/-! Laws of the coordinator's calls. They begin and end when no request is under way, and a
report on agents that are measuring tells what their workers have recorded. -/
namespace Lancet.CallLaws
open Foundation Agent Stats CoordProto Proto Manager MessageStream MeasureWindow ReplyStream ReliableNet Deployment Conversations

section Triples
variable {fleet : Fleet} {long : UInt32 → Int} {begun : Int} {limit : Conn → Option Int} {request : Request} {agents : List Conn}

/-- Some agents are still to be asked. -/
def asking (request : Request) (agents : List Conn) (limit : Conn → Option Int) (coming : List Conn) : Conn → Status :=
  fun a => if a ∈ agents ∧ a ∉ coming then .waiting request (limit a) else .idle (limit a)

/-- Some agents' answers are still to be collected. -/
def collecting (request : Request) (agents : List Conn) (limit : Conn → Option Int) (coming : List Conn) : Conn → Status :=
  fun a => if a ∈ coming then .waiting request (limit a) else if a ∈ agents then .served request else .idle (limit a)

theorem asking_next {a : Conn} {coming : List Conn} (known : a ∈ agents) (fresh : a ∉ coming) :
    Function.update (asking request agents limit (a :: coming)) a (.waiting request (limit a)) =
      asking request agents limit coming := by
  funext b
  by_cases same : b = a
  · subst same
    rw [Function.update_self,asking,if_pos ⟨known,fresh⟩]
  · rw [Function.update_of_ne same,asking,asking]
    simp [same]

theorem collecting_next {a : Conn} {coming : List Conn} (known : a ∈ agents) (fresh : a ∉ coming) :
    Function.update (collecting request agents limit (a :: coming)) a (.served request) =
      collecting request agents limit coming := by
  funext b
  by_cases same : b = a
  · subst same
    rw [Function.update_self,collecting,if_neg fresh,if_pos known]
  · rw [Function.update_of_ne same,collecting,collecting]
    simp [same]

theorem asking_all : asking request agents limit agents = fun a => .idle (limit a) := by
  funext a
  rw [asking,if_neg (fun both => both.2 both.1)]

theorem asking_none : asking request agents limit [] = collecting request agents limit agents := by
  funext a
  by_cases known : a ∈ agents
  · rw [asking,collecting,if_pos ⟨known,List.not_mem_nil⟩,if_pos known]
  · rw [asking,collecting,if_neg (fun both => known both.1),if_neg known,if_neg known]

/-- A loop over the agents that changes the status of one after the other. -/
theorem each_triple {β : Type} {body : Conn → Go Site β} (status : List Conn → Conn → Status) {found : Conn → β → Site → Prop}
    (distinct : agents.Nodup)
    (step : ∀ a coming, a ∈ agents → a ∉ coming →
      Go.Triple (fun site => Orderly fleet long begun site (status (a :: coming))) (body a)
        (fun result site => Orderly fleet long begun site (status coming) ∧ found a result site) (Broken long))
    (lasts : ∀ a result b, Go.Triple (found a result) (body b) (fun _ => found a result) (found a result)) :
    Go.Triple (fun site => Orderly fleet long begun site (status agents)) (Go.forEach body agents)
      (fun results site => Orderly fleet long begun site (status []) ∧
        List.Forall₂ (fun a result => found a result site) agents results) (Broken long) := by
  refine (Go.triple_forEach_each (fun coming site => ((∀ a ∈ coming, a ∈ agents) ∧ coming.Nodup) ∧
    Orderly fleet long begun site (status coming)) found (fun a coming => ?_) lasts agents).consequence
      (fun _ orderly => ⟨⟨fun _ => id,distinct⟩,orderly⟩) (fun _ _ ended => ⟨ended.1.2,ended.2⟩) (fun _ => id)
  refine Go.triple_given fun ⟨known,apart⟩ => ?_
  obtain ⟨fresh,apart⟩ := List.nodup_cons.mp apart
  refine (step a coming (known a List.mem_cons_self) fresh).consequence (fun _ => id) (fun _ _ ended => ?_) (fun _ => id)
  exact ⟨⟨⟨fun b member => known b (List.mem_cons_of_mem _ member),apart⟩,ended.1⟩,ended.2⟩

theorem write_triple {a : Conn} {coming : List Conn} (known : a ∈ agents) (fresh : a ∉ coming)
    (due : Due long (limit a) begun request) :
    Go.Triple (fun site => Orderly fleet long begun site (asking request agents limit (a :: coming)))
      (Go.run (fleet.net.write a request.bytes))
      (fun count site => count = request.bytes.length ∧ Orderly fleet long begun site (asking request agents limit coming))
      (Broken long) := by
  refine Go.triple_run (fun site count after orderly written => ?_) (fun site text after orderly failed => orderly.write_failed failed)
  have idle : asking request agents limit (a :: coming) a = .idle (limit a) := by
    rw [asking,if_neg (fun both => both.2 List.mem_cons_self)]
  have written := orderly.write idle due written
  rw [asking_next known fresh] at written
  exact written

theorem read_triple {a : Conn} {coming : List Conn} {capacity : Nat} (timeOut : Nat) (known : a ∈ agents) (fresh : a ∉ coming)
    (whole : ∀ reply, Fits request reply → reply.bytes.length ≤ capacity) :
    Go.Triple (fun site => Orderly fleet long begun site (collecting request agents limit (a :: coming)))
      (Go.run (fleet.net.read a timeOut capacity))
      (fun chunk site => ∃ reply, (Fits request reply ∧ chunk = reply.bytes) ∧
        Answers long request (limit a) reply (agentLog a site.trace) ∧
        Orderly fleet long begun site (collecting request agents limit coming)) (Broken long) := by
  refine Go.triple_run (fun site chunk after orderly read => ?_) (fun site text after orderly failed => orderly.read_failed failed)
  have waiting : collecting request agents limit (a :: coming) a = .waiting request (limit a) := by
    rw [collecting,if_pos List.mem_cons_self]
  obtain ⟨reply,fits,chunk,answers,collected⟩ := orderly.read waiting whole read
  rw [collecting_next known fresh] at collected
  exact ⟨reply,⟨fits,chunk⟩,answers,collected⟩

/-- What a trace shows, every longer one shows. -/
def Lasting (holds : Site → Prop) : Prop :=
  ∀ site after, holds site → (∃ entries, after.trace = site.trace ++ entries) → holds after

section Lasts
variable {holds : Site → Prop} (lasting : Lasting holds)
include lasting

theorem lasting_run {α : Type} {call : Site → Except String α × Site}
    (grows : ∀ site, ∃ entries, (call site).2.trace = site.trace ++ entries) :
    Go.Triple holds (Go.run call) (fun _ => holds) holds := by
  refine Go.triple_run (fun site value after held called => ?_) (fun site text after held called => ?_)
  all_goals
    have more := grows site
    rw [called] at more
    exact lasting site after held more

theorem lasting_broadcast (msg : List UInt8) (agents : List Conn) :
    Go.Triple holds (broadcastMessage fleet.net msg agents) (fun _ => holds) holds := by
  refine Go.triple_bind (Go.triple_forEach (fun _ => holds) (fun a _ => ?_) agents) fun _ => Go.triple_pure () fun _ => id
  refine Go.triple_bind (Go.triple_describe _ (lasting_run lasting (fun site => write_extends a msg site))) fun count => ?_
  split
  · exact Go.triple_crash fun _ => id
  · exact Go.triple_pure () fun _ => id

theorem lasting_collectFrom {α : Type} (timeOut capacity : Nat) (parse : Nat → Parser α) (a : Conn) :
    Go.Triple holds (collectFrom fleet.net timeOut capacity parse a) (fun _ => holds) holds := by
  refine Go.triple_bind (Go.triple_describe _ (lasting_run lasting (fun site => read_extends a timeOut capacity site))) fun data => ?_
  split
  · exact Go.triple_pure _ fun _ => id
  · exact Go.triple_fail _ fun _ => id

end Lasts

theorem broadcast_triple (distinct : agents.Nodup) (due : ∀ a ∈ agents, Due long (limit a) begun request) :
    Go.Triple (fun site => Orderly fleet long begun site (fun a => .idle (limit a)))
      (broadcastMessage fleet.net request.bytes agents)
      (fun _ site => Orderly fleet long begun site (collecting request agents limit agents)) (Broken long) := by
  rw [← asking_none,← @asking_all limit request agents]
  refine Go.triple_bind (@each_triple fleet long begun agents Unit _ (asking request agents limit) (fun _ _ _ => True) distinct
    (fun a coming known fresh => ?_) (fun _ _ _ => ⟨fun _ _ => Go.ends_always trivial⟩)) fun _ => Go.triple_pure () fun _ => And.left
  refine Go.triple_bind (Go.triple_describe _ (write_triple known fresh (due a known))) fun count => ?_
  refine Go.triple_given fun same => ?_
  rw [if_neg (not_not_intro same)]
  exact Go.triple_pure () fun _ orderly => ⟨orderly,trivial⟩

/-- The result is what the reply means, and the reply answers the request. -/
def Found (long : UInt32 → Int) (request : Request) (limit : Conn → Option Int) {α : Type} (means : Reply → α → Prop) (a : Conn)
    (result : α) (site : Site) : Prop :=
  ∃ reply, means reply result ∧ Answers long request (limit a) reply (agentLog a site.trace)

theorem lasting_found {α : Type} (means : Reply → α → Prop) (a : Conn) (result : α) :
    Lasting (Found long request limit means a result) := by
  rintro site after ⟨reply,said,answers⟩ ⟨entries,added⟩
  refine ⟨reply,said,?_⟩
  rw [added,agentLog_append]
  exact answers.extend _

theorem collect_triple {α : Type} {timeOut capacity : Nat} {parse : Nat → Parser α} {means : Reply → α → Prop} (distinct : agents.Nodup)
    (whole : ∀ reply, Fits request reply → reply.bytes.length ≤ capacity)
    (parses : ∀ reply, Fits request reply →
      ∃ result rest, parse reply.bytes.length (padded capacity reply.bytes) = .ok (result,rest) ∧ means reply result) :
    Go.Triple (fun site => Orderly fleet long begun site (collecting request agents limit agents))
      (Go.forEach (collectFrom fleet.net timeOut capacity parse) agents)
      (fun results site => Orderly fleet long begun site (collecting request agents limit []) ∧
        List.Forall₂ (fun a result => Found long request limit means a result site) agents results) (Broken long) := by
  refine each_triple (collecting request agents limit) distinct (fun a coming known fresh => ?_)
    (fun a result b => lasting_collectFrom (lasting_found means a result) timeOut capacity parse b)
  refine Go.triple_bind (Go.triple_describe _ (read_triple timeOut known fresh whole)) fun chunk => ?_
  refine Go.triple_exists fun reply => Go.triple_given fun ⟨fits,same⟩ => ?_
  obtain ⟨result,rest,parse,said⟩ := parses reply fits
  rw [same,parse]
  exact Go.triple_pure _ fun _ held => ⟨held.2,reply,said,held.1⟩

end Triples
/-- No request is under way at this time or later; an agent with a limit is measuring, and has begun until then. -/
def Still (fleet : Fleet) (long : UInt32 → Int) (floor : Int) (limit : Conn → Option Int) (site : Site) : Prop :=
  Orderly fleet long floor site (fun a => .idle (limit a))

def nowhere : Conn → Option Int := fun _ => none

def Quiet (fleet : Fleet) (long : UInt32 → Int) (site : Site) : Prop := ∃ floor, Still fleet long floor nowhere site

/-- These agents have begun to measure until this time. -/
def begun (agents : List Conn) (pivot : Int) : Conn → Option Int := fun a => if a ∈ agents then some pivot else none

/-- What is left when these agents have reported. -/
def unasked (agents : List Conn) (limit : Conn → Option Int) : Conn → Option Int := fun a => if a ∈ agents then none else limit a

/-- An agent reports what its workers have recorded in a window around this time. -/
structure Recorded (trace : List Entry) (pivot : Int) (a : Conn) (data : ThroughputReply) (window : Window) : Prop where
  reported : ∃ reply, Reports (agentLog a trace) window reply ∧ replyData reply = some data
  around : window.since ≤ pivot ∧ pivot ≤ window.now
  reqCount : data.reqCount = UInt64.ofNat (responses window.calls)
  duration : data.duration = UInt64.ofInt (window.now - window.since)

def Accounts (trace : List Entry) (pivot : Int) (agents : List Conn) (replies : List ThroughputReply) : Prop :=
  List.Forall₂ (fun a data => ∃ window, Recorded trace pivot a data window) agents replies

/-- A program that only adds to the trace, whatever it finds. -/
structure Steady {α : Type} (program : Go Site α) : Prop where
  lasts : ∀ {holds : Site → Prop}, Lasting holds → Go.Triple holds program (fun _ => holds) holds

section Remembering
variable {α : Type} {before : Site → Prop} {after : α → Site → Prop} {stopped known : Site → Prop} {program : Go Site α}

theorem Steady.remembers (steady : Steady program) (lasting : Lasting known) (sound : Go.Triple before program after stopped) :
    Go.Triple (fun site => before site ∧ known site) program (fun value site => after value site ∧ known site)
      (fun site => stopped site ∧ known site) :=
  Go.triple_and sound (steady.lasts lasting)

theorem lasting_accounts (pivot : Int) (agents : List Conn) (replies : List ThroughputReply) :
    Lasting (fun site => Accounts site.trace pivot agents replies) := by
  intro site after accounts more
  refine accounts.imp fun a data told => ?_
  obtain ⟨window,⟨reply,reports,content⟩,around,reqCount,duration⟩ := told
  obtain ⟨entries,added⟩ := more
  refine ⟨window,⟨reply,?_,content⟩,around,reqCount,duration⟩
  rw [added,agentLog_append]
  exact reports.extend _

theorem lasting_broken (long : UInt32 → Int) : Lasting (Broken long) := fun _ _ broken more => broken.extend more

end Remembering

section Calls
variable {fleet : Fleet} {long : UInt32 → Int} {floor : Int} {limit : Conn → Option Int} {agents : List Conn} {site : Site}

theorem Still.quiet (still : Still fleet long floor limit site) : Quiet fleet long site :=
  ⟨floor,still.timed,still.later,fun a => Tuned.relax (still.each a) (fun _ known => nomatch known)⟩

/-- The way of every call: a broadcast, and one read from each agent. -/
def calling {σ α β : Type} (net : Net σ) (timeOut capacity : Nat) (parse : Nat → Parser α) (convert : List α → β) (msg : List UInt8)
    (agents : List Conn) : Go σ β := do
  broadcastMessage net msg agents
  let replies ← Go.forEach (collectFrom net timeOut capacity parse) agents
  return convert replies

theorem calling_steady {α β : Type} (timeOut capacity : Nat) (parse : Nat → Parser α) (convert : List α → β) (msg : List UInt8)
    (agents : List Conn) : Steady (calling fleet.net timeOut capacity parse convert msg agents) := by
  constructor
  intro holds lasting
  refine Go.triple_bind (lasting_broadcast lasting msg agents) fun _ => ?_
  have collects := Go.triple_forEach (fun _ => holds) (fun a _ => @lasting_collectFrom fleet holds lasting α timeOut capacity parse a) agents
  exact Go.triple_bind collects fun replies => Go.triple_pure _ fun _ => id

theorem calling_triple {α β : Type} (request : Request) (timeOut : Nat) {capacity : Nat} {parse : Nat → Parser α}
    (means : Reply → α → Prop) (convert : List α → β) (distinct : agents.Nodup) (due : ∀ a ∈ agents, Due long (limit a) floor request)
    (whole : ∀ reply, Fits request reply → reply.bytes.length ≤ capacity)
    (parses : ∀ reply, Fits request reply →
      ∃ result rest, parse reply.bytes.length (padded capacity reply.bytes) = .ok (result,rest) ∧ means reply result) :
    Go.Triple (Still fleet long floor limit) (calling fleet.net timeOut capacity parse convert request.bytes agents)
      (fun result site => ∃ replies, result = convert replies ∧ Orderly fleet long floor site (collecting request agents limit []) ∧
        List.Forall₂ (fun a reply => Found long request limit means a reply site) agents replies) (Broken long) := by
  refine Go.triple_bind (broadcast_triple distinct due) fun _ => ?_
  refine Go.triple_bind (collect_triple distinct whole parses) fun replies => ?_
  exact Go.triple_pure _ fun _ collected => ⟨replies,rfl,collected⟩

theorem startLoad_calling {σ : Type} (net : Net σ) (agents : List Conn) (load : Int) : startLoad net agents load =
    calling net ackTimeOut ackCapacity (fun _ => parseAck) (fun _ => ()) (Request.startLoad load).bytes agents := rfl

theorem startMeasure_calling {σ : Type} (net : Net σ) (agents : List Conn) (sampleCount : Int) (samplingRate : Float) :
    startMeasure net agents sampleCount samplingRate =
      calling net ackTimeOut ackCapacity (fun _ => parseAck) (fun _ => ()) (Request.startMeasure sampleCount samplingRate).bytes agents := rfl

theorem reportThroughput_calling {σ : Type} (net : Net σ) (agents : List Conn) : reportThroughput net agents =
    calling net throughputTimeOut statsCapacity parseThroughput ThroughputResults.ofReplies Request.reportThroughput.bytes agents := rfl

theorem reportLatency_calling {σ : Type} (net : Net σ) (agents : List Conn) : reportLatency net agents =
    calling net latencyTimeOut statsCapacity parseLatency LatencyResults.ofReplies Request.reportLatency.bytes agents := rfl

/-- Calls that get an acknowledgement leave behind what the request does. -/
theorem acks_triple (request : Request) (distinct : agents.Nodup) (acknowledged : ∀ reply, Fits request reply → reply = .ack)
    (silent : ∀ type, request.received ≠ .reportReq type) :
    Go.Triple (Still fleet long floor limit)
      (calling fleet.net ackTimeOut ackCapacity (fun _ => parseAck) (fun _ => ()) request.bytes agents)
      (fun _ site => Orderly fleet long floor site (collecting request agents limit [])) (Broken long) := by
  refine (calling_triple request ackTimeOut (fun _ _ => True) (fun _ => ()) distinct (fun a known type report => absurd report (silent type))
    (fun reply fits => ?_) (fun reply fits => ?_)).consequence (fun _ => id) (fun _ _ ended => ?_) (fun _ => id)
  · rw [acknowledged reply fits]
    decide
  · rw [acknowledged reply fits]
    exact ⟨_,_,parseAck_reply _,trivial⟩
  · obtain ⟨replies,-,orderly,-⟩ := ended
    exact orderly

theorem startLoad_still (distinct : agents.Nodup) (load : Int) :
    Go.Triple (Still fleet long floor limit) (startLoad fleet.net agents load) (fun _ => Quiet fleet long) (Broken long) := by
  rw [startLoad_calling]
  refine (acks_triple (.startLoad load) distinct (fun _ fits => fits) (fun _ => Message.noConfusion)).consequence
    (fun _ => id) (fun _ site orderly => ?_) (fun _ => id)
  refine ⟨floor,orderly.timed,orderly.later,fun a => ?_⟩
  have held := orderly.each a
  rw [collecting,if_neg List.not_mem_nil] at held
  split at held
  next known => exact Tuned.relax held (fun _ other => nomatch other)
  next other => exact Tuned.relax held (fun _ known => nomatch known)

theorem startMeasure_still (distinct : agents.Nodup) (sampleCount : Int) (samplingRate : Float) :
    Go.Triple (Still fleet long floor limit) (startMeasure fleet.net agents sampleCount samplingRate)
      (fun _ site => ∃ pivot, Still fleet long pivot (begun agents pivot) site) (Broken long) := by
  rw [startMeasure_calling]
  refine (acks_triple (.startMeasure sampleCount samplingRate) distinct (fun _ fits => fits)
    (fun _ => Message.noConfusion)).consequence (fun _ => id) (fun _ site orderly => ?_) (fun _ => id)
  refine ⟨site.clock,orderly.timed,Int.le_refl _,fun a => ?_⟩
  have held := orderly.each a
  rw [collecting,if_neg List.not_mem_nil] at held
  rw [begun]
  split at held
  next known =>
    rw [if_pos known]
    exact held
  next other =>
    rw [if_neg other]
    exact Tuned.relax held (fun _ known => nomatch known)

/-- The replies to a request for a report account for what the workers have recorded. -/
theorem report_triple {α β : Type} (request : Request) {type : UInt32} (report : request.received = .reportReq type)
    (ends : ∀ now, leaves now request = none) (timeOut : Nat) {parse : Nat → Parser α} (convert : List α → β) (data : α → ThroughputReply)
    {pivot : Int} (distinct : agents.Nodup) (measuring : ∀ a ∈ agents, limit a = some pivot) (due : pivot + long type ≤ floor)
    (positive : 0 ≤ long type) (whole : ∀ reply, Fits request reply → reply.bytes.length ≤ statsCapacity)
    (parses : ∀ reply, Fits request reply → ∃ result rest,
      parse reply.bytes.length (padded statsCapacity reply.bytes) = .ok (result,rest) ∧ replyData reply = some (data result)) :
    Go.Triple (Still fleet long floor limit) (calling fleet.net timeOut statsCapacity parse convert request.bytes agents)
      (fun result site => ∃ replies, result = convert replies ∧ Still fleet long floor (unasked agents limit) site ∧
        Accounts site.trace pivot agents (replies.map data)) (Broken long) := by
  refine (calling_triple request timeOut (fun reply result => replyData reply = some (data result)) convert distinct
    (fun a known type' same => ?_) whole parses).consequence (fun _ => id) (fun _ site ended => ?_) (fun _ => id)
  · cases report.symm.trans same
    exact ⟨pivot,measuring a known,due⟩
  · obtain ⟨replies,converted,orderly,found⟩ := ended
    refine ⟨replies,converted,⟨orderly.timed,orderly.later,fun a => ?_⟩,?_⟩
    · have held := orderly.each a
      rw [collecting,if_neg List.not_mem_nil] at held
      rw [unasked]
      split at held
      next known =>
        rw [if_pos known]
        rw [Holds,ends] at held
        exact held
      next other =>
        rw [if_neg other]
        exact held
    · rw [Accounts,List.forall₂_map_right_iff]
      refine List.forall₂_iff_zip.mpr ⟨found.length_eq,fun {a result} paired => ?_⟩
      obtain ⟨reply,said,answers⟩ := (List.forall₂_iff_zip.mp found).2 paired
      obtain ⟨window,content,latest,reports,same,duration,reqCount,known,before,after⟩ := answers type report
      cases said.symm.trans same
      rw [measuring a (List.of_mem_zip paired).1] at known
      cases known
      exact ⟨window,⟨reply,reports,said⟩,⟨before,by omega⟩,reqCount,duration⟩

theorem reportThroughput_still {pivot : Int} (distinct : agents.Nodup) (measuring : ∀ a ∈ agents, limit a = some pivot)
    (due : pivot + long reportThroughputType ≤ floor) (positive : 0 ≤ long reportThroughputType) :
    Go.Triple (Still fleet long floor limit) (reportThroughput fleet.net agents)
      (fun results site => Still fleet long floor (unasked agents limit) site ∧ Accounts site.trace pivot agents results.result)
      (Broken long) := by
  rw [reportThroughput_calling]
  refine (report_triple .reportThroughput rfl (fun _ => rfl) throughputTimeOut ThroughputResults.ofReplies (·.1) distinct
    measuring due positive (fun reply fits => ?_) (fun reply fits => ?_)).consequence (fun _ => id) (fun results site ended => ?_) (fun _ => id)
  · obtain ⟨data,iaComp,rfl⟩ := fits
    rw [throughput_length,statsCapacity]
    split <;> decide
  · obtain ⟨data,iaComp,rfl⟩ := fits
    exact ⟨_,_,parseThroughput_reply data iaComp _,rfl⟩
  · obtain ⟨replies,rfl,still,accounts⟩ := ended
    exact ⟨still,accounts⟩

theorem reportLatency_still {pivot : Int} (distinct : agents.Nodup) (measuring : ∀ a ∈ agents, limit a = some pivot)
    (due : pivot + long reportLatencyType ≤ floor) (positive : 0 ≤ long reportLatencyType) :
    Go.Triple (Still fleet long floor limit) (reportLatency fleet.net agents)
      (fun results site => Still fleet long floor (unasked agents limit) site ∧
        Accounts site.trace pivot agents (results.result.map (·.thData))) (Broken long) := by
  rw [reportLatency_calling]
  refine (report_triple .reportLatency rfl (fun _ => rfl) latencyTimeOut LatencyResults.ofReplies (·.1.thData) distinct
    measuring due positive (fun reply fits => ?_) (fun reply fits => ?_)).consequence (fun _ => id) (fun results site ended => ?_) (fun _ => id)
  · obtain ⟨data,checks,rfl⟩ := fits
    rw [latency_length,statsCapacity]
    split <;> decide
  · obtain ⟨data,checks,rfl⟩ := fits
    exact ⟨_,_,parseLatency_reply data checks _,rfl⟩
  · obtain ⟨replies,rfl,still,accounts⟩ := ended
    refine ⟨still,?_⟩
    rw [LatencyResults.ofReplies,List.map_map]
    exact accounts

/-- A pause takes its time at least. -/
theorem sleep_still (seconds pause : Int) (short : pause ≤ max 0 (1000000 * seconds)) (still : Still fleet long floor limit site) :
    Still fleet long (floor + pause) limit (fleet.sleep seconds site) := by
  have later := still.elapse
  have clock : (fleet.sleep seconds site).clock = max (fleet.elapse site).clock (site.clock + 1000000 * seconds) := rfl
  have grown : (fleet.elapse site).clock ≤ (fleet.sleep seconds site).clock := by
    rw [clock]
    exact Int.le_max_left _ _
  have start := still.later
  have moved := later.later
  refine ⟨later.timed.later rfl grown,by omega,fun a => ?_⟩
  exact (later.each a).frame ⟨rfl,rfl,rfl,rfl,rfl,grown⟩

theorem sleep_steady (seconds : Int) : Steady (Go.change (fleet.sleep seconds)) := by
  constructor
  intro holds lasting
  exact Go.triple_change fun site held => lasting site _ held (elapse_extends site)

end Calls
end Lancet.CallLaws
