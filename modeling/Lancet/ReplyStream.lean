import Lancet.Manager
import Lancet.Proto

/-! Replies on their way to the coordinator. Each connection holds the chunks that the next
reads return; an agent's reply arrives in one chunk or split over several. -/
namespace Lancet.ReplyStream
open Foundation Wire CoordProto Proto Manager Agent

abbrev Streams := Conn → List (List UInt8)

def streamWrite (_ : Conn) (msg : List UInt8) (streams : Streams) : Except String Nat × Streams :=
  (.ok msg.length,streams)

def streamRead (a : Conn) (_ capacity : Nat) (streams : Streams) : Except String (List UInt8) × Streams :=
  match streams a with
  | [] => (.error "i/o timeout",streams)
  | chunk :: rest =>
    if chunk.length ≤ capacity then (.ok chunk,Function.update streams a rest)
    else (.ok (chunk.take capacity),Function.update streams a (chunk.drop capacity :: rest))

def streamNet : Net Streams where
  write := streamWrite
  read := streamRead
  sleep _ streams := streams

def first (streams : Streams) (a : Conn) : List UInt8 := (streams a).headD []

def consumed (streams : Streams) (agents : List Conn) : Streams := fun a =>
  if a ∈ agents then (streams a).tail else streams a

def Ready (capacity : Nat) (streams : Streams) (a : Conn) : Prop :=
  streams a ≠ [] ∧ (first streams a).length ≤ capacity

theorem streamRead_ready {capacity : Nat} {streams : Streams} {a : Conn} (timeOut : Nat) (ready : Ready capacity streams a) :
    streamRead a timeOut capacity streams = (.ok (first streams a),Function.update streams a (streams a).tail) := by
  obtain ⟨present,fits⟩ := ready
  rcases held : streams a with _ | ⟨chunk,rest⟩
  · exact absurd held present
  · rw [first,held] at fits
    rw [streamRead,held,first,held]
    exact if_pos fits

section Collect
variable {α : Type} {capacity : Nat} (timeOut : Nat) (parse : Nat → Parser α)

/-- What a collector makes of the first chunk of an agent. -/
def accepted (capacity : Nat) (streams : Streams) (a : Conn) : Except String α :=
  (parse (first streams a).length (padded capacity (first streams a))).map (·.1)

theorem collectFrom_ready {streams : Streams} {a : Conn} (ready : Ready capacity streams a) :
    collectFrom streamNet timeOut capacity parse a streams = (match accepted parse capacity streams a with
      | .ok value => (.value value,Function.update streams a (streams a).tail)
      | .error text => (.error text,Function.update streams a (streams a).tail)) := by
  have read : Go.describe (fun err => "Read from agent failed: " ++ err ++ "\n")
      (Go.run (streamNet.read a timeOut capacity)) streams =
        (.value (first streams a),Function.update streams a (streams a).tail) := by
    have returned : streamNet.read a timeOut capacity streams = _ := streamRead_ready timeOut ready
    rw [Go.describe,Go.run,returned]
  rw [collectFrom,Go.bind_value _ read,accepted]
  cases parse (first streams a).length (padded capacity (first streams a)) with
  | ok result => rfl
  | error text => rfl

theorem consumed_cons {streams : Streams} {a : Conn} {agents : List Conn} (fresh : a ∉ agents) :
    consumed (Function.update streams a (streams a).tail) agents = consumed streams (a :: agents) := by
  funext b
  by_cases same : b = a
  · subst same
    rw [consumed,consumed,if_neg fresh,if_pos List.mem_cons_self,Function.update_self]
  · simp only [consumed,Function.update_of_ne same,List.mem_cons,same,false_or]

theorem first_update {streams : Streams} {a b : Conn} (other : b ≠ a) (chunks : List (List UInt8)) :
    first (Function.update streams a chunks) b = first streams b := by
  rw [first,Function.update_of_ne other,first]

/-- A collection succeeds exactly when every first chunk parses; it then has consumed these chunks. -/
theorem forEach_collected {agents : List Conn} (distinct : agents.Nodup) {streams : Streams}
    (ready : ∀ a ∈ agents, Ready capacity streams a) (results : List α) (after : Streams) :
    Go.forEach (collectFrom streamNet timeOut capacity parse) agents streams = (.value results,after) ↔
      agents.map (accepted parse capacity streams) = results.map .ok ∧ after = consumed streams agents := by
  induction agents generalizing streams results with
  | nil =>
    have untouched : consumed streams [] = streams := by
      funext a
      simp [consumed]
    rw [Go.forEach,Go.pure_value,untouched]
    constructor
    · intro returned
      cases returned
      exact ⟨rfl,rfl⟩
    · rintro ⟨related,rfl⟩
      have empty : results = [] := List.map_eq_nil_iff.mp related.symm
      rw [empty]
  | cons a agents ih =>
    obtain ⟨fresh,distinct⟩ := List.nodup_cons.mp distinct
    have others : ∀ b ∈ agents, b ≠ a := fun b member same => fresh (same ▸ member)
    have ready' : ∀ b ∈ agents, Ready capacity (Function.update streams a (streams a).tail) b := by
      intro b member
      rw [Ready,Function.update_of_ne (others b member),first_update (others b member)]
      exact ready b (List.mem_cons_of_mem _ member)
    have same : agents.map (accepted parse capacity (Function.update streams a (streams a).tail)) =
        agents.map (accepted parse capacity streams) := by
      apply List.map_congr_left
      intro b member
      rw [accepted,first_update (others b member),accepted]
    have rest := fun results => ih distinct ready' results
    rw [same,consumed_cons fresh] at rest
    have step := collectFrom_ready timeOut parse (ready a List.mem_cons_self)
    rw [Go.forEach,List.map_cons]
    cases result : accepted parse capacity streams a with
    | error text =>
      rw [result] at step
      rw [Go.bind_error _ step]
      constructor
      · intro returned
        cases returned
      · rintro ⟨related,-⟩
        cases results with
        | nil => cases related
        | cons value values => cases related
    | ok value =>
      rw [result] at step
      rw [Go.bind_value _ step]
      constructor
      · intro returned
        obtain ⟨values,middle,called,finished⟩ := Go.value_of_bind returned
        cases finished
        obtain ⟨related,rfl⟩ := (rest values).mp called
        rw [related]
        exact ⟨rfl,rfl⟩
      · rintro ⟨related,rfl⟩
        cases results with
        | nil => cases related
        | cons value' values =>
          obtain ⟨head,tail⟩ := List.cons.inj related
          cases head
          rw [Go.bind_value _ ((rest values).mpr ⟨tail,rfl⟩)]
          rfl

end Collect

theorem parseThroughput_reply (data : ThroughputReply) (iaComp : Option UInt32) (rest : List UInt8) :
    parseThroughput (Reply.throughput data iaComp).bytes.length ((Reply.throughput data iaComp).bytes ++ rest) =
      .ok ((data,iaComp.map (fun flag => (flag.toNat : Int))),rest) := by
  have known : ¬throughputMsg.info ≠ replyStatsThroughput := not_not_intro rfl
  cases iaComp with
  | none =>
    have bytes : (Reply.throughput data none).bytes = throughputMsg.bytes ++ data.bytes := by
      simp [Reply.bytes,Reply.iov]
    have short : ¬sizeofMsg1 + sizeofThroughputReply < (throughputMsg.bytes ++ data.bytes).length := by
      rw [List.length_append,Msg1.bytes_length,ThroughputReply.bytes_length]
      exact Nat.lt_irrefl _
    rw [bytes,List.append_assoc,parseThroughput,binaryRead_run _ _ (Msg1.read_bytes _ _),if_neg known,
      binaryRead_run _ _ (ThroughputReply.read_bytes _ _),if_neg short]
    rfl
  | some flag =>
    have bytes : (Reply.throughput data (some flag)).bytes = throughputMsg.bytes ++ (data.bytes ++ (iaCompMsg flag).bytes) := by
      simp [Reply.bytes,Reply.iov]
    have long : sizeofMsg1 + sizeofThroughputReply < (throughputMsg.bytes ++ (data.bytes ++ (iaCompMsg flag).bytes)).length := by
      rw [List.length_append,List.length_append,Msg1.bytes_length,ThroughputReply.bytes_length,Msg2.bytes_length]
      decide
    rw [bytes,List.append_assoc,List.append_assoc,parseThroughput,binaryRead_run _ _ (Msg1.read_bytes _ _),if_neg known,
      binaryRead_run _ _ (ThroughputReply.read_bytes _ _),if_pos long,binaryRead_run _ _ (Msg2.read_bytes _ _)]
    rfl

theorem parseChecks_iov (checks : NicChecks) (rest : List UInt8) :
    parseChecks ((checksIov checks).flatten ++ rest) = .ok (checks,rest) := by
  have convergence : ¬convergenceMsg.info ≠ replyConvergence := not_not_intro rfl
  have iid : ¬iidMsg.info ≠ replyIid := not_not_intro rfl
  simp only [checksIov,List.flatten_cons,List.flatten_nil,List.append_nil,List.append_assoc]
  rw [parseChecks,binaryRead_run _ _ (Msg1.read_bytes _ _),if_neg convergence,binaryRead_run _ _ (u32_encoded _ _),
    binaryRead_run _ _ (Msg1.read_bytes _ _),if_neg iid,binaryRead_run _ _ (u64_encoded _ _),
    binaryRead_run _ _ (Msg2.read_bytes _ _)]
  rfl

theorem checks_length (checks : NicChecks) : (checksIov checks).flatten.length = 52 := by
  simp [checksIov,Msg1.bytes_length,Msg2.bytes_length,sizeofMsg1,sizeofMsg2]

theorem parseLatency_reply (data : LatencyReply) (checks : Option NicChecks) (rest : List UInt8) :
    parseLatency (Reply.latency data checks).bytes.length ((Reply.latency data checks).bytes ++ rest) =
      .ok ((data,checks),rest) := by
  have known : ¬latencyMsg.info ≠ replyStatsLatency := not_not_intro rfl
  cases checks with
  | none =>
    have bytes : (Reply.latency data none).bytes = latencyMsg.bytes ++ data.bytes := by
      simp [Reply.bytes,Reply.iov]
    have short : ¬sizeofMsg1 + sizeofLatencyReply < (latencyMsg.bytes ++ data.bytes).length := by
      rw [List.length_append,Msg1.bytes_length,LatencyReply.bytes_length]
      exact Nat.lt_irrefl _
    rw [bytes,List.append_assoc,parseLatency,binaryRead_run _ _ (Msg1.read_bytes _ _),if_neg known,
      binaryRead_run _ _ (LatencyReply.read_bytes _ _),if_neg short]
    rfl
  | some checks =>
    have bytes : (Reply.latency data (some checks)).bytes = latencyMsg.bytes ++ (data.bytes ++ (checksIov checks).flatten) := by
      simp [Reply.bytes,Reply.iov]
    have long : sizeofMsg1 + sizeofLatencyReply < (latencyMsg.bytes ++ (data.bytes ++ (checksIov checks).flatten)).length := by
      rw [List.length_append,List.length_append,Msg1.bytes_length,LatencyReply.bytes_length,checks_length]
      decide
    rw [bytes,List.append_assoc,List.append_assoc,parseLatency,binaryRead_run _ _ (Msg1.read_bytes _ _),if_neg known,
      binaryRead_run _ _ (LatencyReply.read_bytes _ _),if_pos long,Parser.bind_ok _ (parseChecks_iov _ _)]
    rfl

/-- The reply of an agent of some type; only the NIC-timestamping one adds its check. -/
def throughputOf (atype : AgentType) (data : ThroughputReply) (iaComp : UInt32) : Reply :=
  .throughput data (if atype = .symmetricNicTimestampAgent then some iaComp else none)

def latencyOf (atype : AgentType) (data : LatencyReply) (checks : NicChecks) : Reply :=
  .latency data (if atype = .symmetricNicTimestampAgent then some checks else none)

theorem replyThroughputStats_reply {config : AgentConfig} {qsort : Qsort} {manager after : ManagerState} {reply : Reply}
    (replied : replyThroughputStats config qsort manager = .next (after,reply)) :
    ∃ data iaComp, reply = throughputOf config.atype data iaComp := by
  obtain ⟨agg,iaComp,-,-,sent⟩ := replyThroughputStats_next replied
  exact ⟨_,iaComp,sent⟩

theorem replyLatencyStats_reply {config : AgentConfig} {qsort : Qsort} {manager after : ManagerState} {reply : Reply}
    (replied : replyLatencyStats config qsort manager = .next (after,reply)) :
    ∃ data checks, reply = latencyOf config.atype data checks := by
  obtain ⟨agg,kept,checks,-,-,sent⟩ := replyLatencyStats_next replied
  exact ⟨_,checks,sent⟩

theorem throughput_length (data : ThroughputReply) (iaComp : Option UInt32) :
    (Reply.throughput data iaComp).bytes.length = if iaComp.isSome then 60 else 44 := by
  cases iaComp with
  | none => simp [Reply.bytes,Reply.iov,Msg1.bytes_length,ThroughputReply.bytes_length,sizeofMsg1,sizeofThroughputReply]
  | some flag =>
    simp [Reply.bytes,Reply.iov,Msg1.bytes_length,Msg2.bytes_length,ThroughputReply.bytes_length,sizeofMsg1,sizeofMsg2,
      sizeofThroughputReply]

theorem latency_length (data : LatencyReply) (checks : Option NicChecks) :
    (Reply.latency data checks).bytes.length = if checks.isSome then 200 else 148 := by
  cases checks with
  | none => simp [Reply.bytes,Reply.iov,Msg1.bytes_length,LatencyReply.bytes_length,sizeofMsg1,sizeofLatencyReply]
  | some checks =>
    have joined : (checksIov checks).flatten.length = 52 := checks_length checks
    rw [List.length_flatten] at joined
    simp [Reply.bytes,Reply.iov,Msg1.bytes_length,LatencyReply.bytes_length,sizeofMsg1,sizeofLatencyReply,joined]

/-- Replies that come in one piece each are collected as they were written. -/
theorem collected_whole {α : Type} {capacity : Nat} (timeOut : Nat) {parse : Nat → Parser α} {agents : List Conn}
    (distinct : agents.Nodup) {streams : Streams} {bytes : Conn → List UInt8} {value : Conn → α}
    (arrived : ∀ a ∈ agents, streams a = [bytes a]) (fits : ∀ a, (bytes a).length ≤ capacity)
    (parses : ∀ a rest, parse (bytes a).length (bytes a ++ rest) = .ok (value a,rest)) :
    Go.forEach (collectFrom streamNet timeOut capacity parse) agents streams =
      (.value (agents.map value),consumed streams agents) := by
  have chunk : ∀ a ∈ agents, first streams a = bytes a := fun a member => by rw [first,arrived a member,List.headD_cons]
  have ready : ∀ a ∈ agents, Ready capacity streams a := by
    intro a member
    rw [Ready,arrived a member,chunk a member]
    exact ⟨List.cons_ne_nil _ _,fits a⟩
  refine (forEach_collected timeOut parse distinct ready _ _).mpr ⟨?_,rfl⟩
  rw [List.map_map]
  apply List.map_congr_left
  intro a member
  rw [accepted,chunk a member,padded,parses]
  rfl

theorem filterMap_nic {α : Type} (atype : Conn → AgentType) (value : Conn → α) (agents : List Conn) :
    agents.filterMap (fun a => if atype a = .symmetricNicTimestampAgent then some (value a) else none) =
      (agents.filter (fun a => atype a = .symmetricNicTimestampAgent)).map value := by
  rw [← List.filterMap_eq_map,List.filterMap_filter]
  simp only [decide_eq_true_eq,Function.comp_apply]

theorem replies_round_trip (agents : List Conn) (distinct : agents.Nodup) (atype : Conn → AgentType) (streams : Streams) :
    (∀ (data : Conn → ThroughputReply) (iaComp : Conn → UInt32),
      (∀ a ∈ agents, streams a = [(throughputOf (atype a) (data a) (iaComp a)).bytes]) →
      collectThroughputResults streamNet agents streams = (.value ⟨agents.map data,
        (agents.filter (fun a => atype a = .symmetricNicTimestampAgent)).map (fun a => ((iaComp a).toNat : Int))⟩,
        consumed streams agents)) ∧
    ∀ (data : Conn → LatencyReply) (checks : Conn → NicChecks),
      (∀ a ∈ agents, streams a = [(latencyOf (atype a) (data a) (checks a)).bytes]) →
      let nic := agents.filter (fun a => atype a = .symmetricNicTimestampAgent)
      collectLatencyResults streamNet agents streams = (.value ⟨agents.map data,nic.map (fun a => (checks a).iaComp),
        nic.map (fun a => (checks a).convergence),nic.map (fun a => (checks a).correlation)⟩,
        consumed streams agents) := by
  constructor
  · intro data iaComp arrived
    have fits : ∀ a, (throughputOf (atype a) (data a) (iaComp a)).bytes.length ≤ statsCapacity := by
      intro a
      rw [throughputOf,throughput_length,statsCapacity]
      split <;> simp
    have collected := collected_whole throughputTimeOut distinct arrived fits (fun a rest => parseThroughput_reply _ _ rest)
    rw [collectThroughputResults,Go.bind_value _ collected,Go.pure_value,ThroughputResults.ofReplies,List.map_map,
      List.filterMap_map,← filterMap_nic]
    simp only [Function.comp_def,apply_ite (Option.map _),Option.map_some,Option.map_none]
  · intro data checks arrived nic
    have fits : ∀ a, (latencyOf (atype a) (data a) (checks a)).bytes.length ≤ statsCapacity := by
      intro a
      rw [latencyOf,latency_length,statsCapacity]
      split <;> simp
    have collected := collected_whole latencyTimeOut distinct arrived fits (fun a rest => parseLatency_reply _ _ rest)
    have appended : (agents.map (fun a => (data a,if atype a = .symmetricNicTimestampAgent then some (checks a) else none))).filterMap
        (·.2) = nic.map checks := by
      rw [List.filterMap_map]
      exact filterMap_nic atype checks agents
    rw [collectLatencyResults,Go.bind_value _ collected,Go.pure_value,LatencyResults.ofReplies]
    simp only [appended,List.map_map,Function.comp_def]

/-- A NIC-timestamping agent and a symmetric one, each with its latency reply in one piece. -/
theorem replies_round_trip_two_agents :
    let atype : Conn → AgentType := fun a => if a = 0 then .symmetricNicTimestampAgent else .symmetricAgent
    let data : Conn → LatencyReply := fun a =>
      ⟨⟨640,640,10,UInt64.ofNat a⟩,21,18,20,22,25,27,29,30,31,32,33,34,35⟩
    let checks : Conn → NicChecks := fun _ => ⟨1,0x3fb999999999999a,1⟩
    let streams : Streams := fun a => [(latencyOf (atype a) (data a) (checks a)).bytes]
    collectLatencyResults streamNet [0,1] streams =
      (.value ⟨[data 0,data 1],[1],[1],[0x3fb999999999999a]⟩,consumed streams [0,1]) := by
  intro atype data checks streams
  exact (replies_round_trip [0,1] (by simp) atype streams).2 data checks (fun _ _ => rfl)

end Lancet.ReplyStream
