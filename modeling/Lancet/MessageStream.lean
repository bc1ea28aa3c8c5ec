import Lancet.ManagerSafety
import Lancet.Proto
import Lancet.Foundation.FloatBits
import Lancet.Foundation.Segments

/-! What the manager's loop makes of the coordinator's byte stream (the reads of
`manager_run`). Each field is one `read` that must not be short, so the messages arrive
exactly when no segment of the stream ends inside a field. -/
namespace Lancet.MessageStream
open Foundation Segments Wire CoordProto Proto Stats Manager ManagerSafety

abbrev Segments := List (List UInt8)

def readField (size : Nat) (segments : Segments) : Outcome (List UInt8 × Segments) := do
  let (bytes,rest) := Foundation.Segments.read size segments
  Outcome.assert (bytes.length == size)
  return (bytes,rest)

def intOf (bytes : List UInt8) : Int := toInt (decode bytes)

def doubleOf (bytes : List UInt8) : Float := Float.ofBits (UInt64.ofNat (decode bytes))

def messageType (hdr : List UInt8) : UInt32 := UInt32.ofNat (decode (hdr.take 4))

def readPayload (type : UInt32) (segments : Segments) : Outcome (Message × Segments) :=
  if type = startLoadCode then do
    let (payload1,rest) ← readField 4 segments
    return (.startLoad (intOf payload1),rest)
  else if type = startMeasureCode then do
    let (payload1,rest) ← readField 4 segments
    let (sampling,rest) ← readField 8 rest
    return (.startMeasure (intOf payload1) (doubleOf sampling),rest)
  else if type = reportReqCode then do
    let (payload1,rest) ← readField 4 segments
    return (.reportReq (UInt32.ofNat (decode payload1)),rest)
  else .halt

def readMessage (segments : Segments) : Outcome (Option (Message × Segments)) := do
  let (hdr,rest) := Foundation.Segments.read 8 segments
  if hdr = [] then return none
  else do
    Outcome.assert (hdr.length == 8)
    let received ← readPayload (messageType hdr) rest
    return some received

/-- The loop until the coordinator closes, with the messages it has handled. -/
def managerLoop {σ : Type} (handler : Nat → σ → Message → Outcome σ) : Nat → List Message → σ → Segments →
    Outcome (List Message × σ)
  | 0, _, _, _ => .halt
  | passes + 1, handled, state, segments => do
    match ← readMessage segments with
    | none => return (handled,state)
    | some (message,rest) => do
      let state ← handler handled.length state message
      managerLoop handler passes (handled ++ [message]) state rest

inductive Request where
  | startLoad (load : Int)
  | startMeasure (sampleCount : Int) (samplingRate : Float)
  | reportThroughput
  | reportLatency

namespace Request

def bytes : Request → List UInt8
  | .startLoad load => startLoadMsg load
  | .startMeasure sampleCount samplingRate => startMeasureMsg sampleCount samplingRate
  | .reportThroughput => reportMsg reportThroughputType
  | .reportLatency => reportMsg reportLatencyType

/-- The message in the agent's types: an `int` holds 32 bits of a Go `int`. -/
def received : Request → Message
  | .startLoad load => .startLoad (toInt load)
  | .startMeasure sampleCount samplingRate => .startMeasure (toInt sampleCount) samplingRate
  | .reportThroughput => .reportReq reportThroughputType
  | .reportLatency => .reportReq reportLatencyType

def header : Request → MsgHdr
  | .startLoad _ => ⟨startLoadCode,4⟩
  | .startMeasure _ _ => ⟨startMeasureCode,12⟩
  | .reportThroughput | .reportLatency => ⟨reportReqCode,4⟩

def payload : Request → List (List UInt8)
  | .startLoad load => [u32Bytes (UInt32.ofInt load)]
  | .startMeasure sampleCount samplingRate => [u32Bytes (UInt32.ofInt sampleCount),u64Bytes samplingRate.toBits]
  | .reportThroughput => [u32Bytes reportThroughputType]
  | .reportLatency => [u32Bytes reportLatencyType]

/-- The fields in the order the agent reads them. -/
def fields (request : Request) : List (List UInt8) := request.header.bytes :: request.payload

theorem fields_flatten (request : Request) : request.fields.flatten = request.bytes := by
  cases request <;> simp [fields,header,payload,bytes,startLoadMsg,startMeasureMsg,reportMsg,Msg1.bytes]

theorem fields_nonempty (request : Request) : ∀ field ∈ request.fields, field ≠ [] := by
  have positive : ∀ field ∈ request.fields, 0 < field.length := by
    cases request <;> simp [fields,header,payload,MsgHdr.bytes]
  exact fun field member => List.length_pos_iff.mp (positive field member)

end Request

/-- No segment of the stream ends inside a field of a message. -/
def FieldsWhole (sent : List Request) (segments : Segments) : Prop := Whole (sent.flatMap Request.fields) segments

/-- Each message's handling, from what the ones before it left, meets its own assertions. -/
def Handled {σ : Type} (handler : Nat → σ → Message → Outcome σ) : Nat → σ → List Message → Prop
  | _, _, [] => True
  | index, state, message :: messages => ∃ after, handler index state message = .next after ∧
      Handled handler (index + 1) after messages

/-- Reads that are to take the first of these parts: they yield the value of those parts, or a
segment ends inside one of them. -/
def Obtains {β : Type} (outcome : Outcome (β × Segments)) (value : β) (segments : Segments)
    (parts later : List (List UInt8)) : Prop :=
  (∃ rest, outcome = .next (value,rest) ∧ Carries rest later ∧ (Whole parts segments ↔ Whole later rest)) ∨
    (outcome = .fault ∧ ¬Whole parts segments)

theorem Obtains.bind {β γ : Type} {outcome : Outcome (β × Segments)} {value : β} {value' : γ} {segments : Segments}
    {parts middle later : List (List UInt8)} (following : β × Segments → Outcome (γ × Segments))
    (first : Obtains outcome value segments parts middle)
    (second : ∀ rest, Carries rest middle → Obtains (following (value,rest)) value' rest middle later) :
    Obtains (outcome >>= following) value' segments parts later := by
  rcases first with ⟨rest,taken,carries,same⟩ | ⟨short,split⟩
  · rw [taken,Outcome.next_bind]
    rcases second rest carries with ⟨rest',taken',carries',same'⟩ | ⟨short',split'⟩
    · exact .inl ⟨rest',taken',carries',same.trans same'⟩
    · exact .inr ⟨short',fun whole => split' (same.mp whole)⟩
  · rw [short,Outcome.fault_bind]
    exact .inr ⟨rfl,split⟩

theorem Obtains.map {β γ : Type} {outcome : Outcome (β × Segments)} {value : β} {segments : Segments}
    {parts later : List (List UInt8)} (first : Obtains outcome value segments parts later) (convert : β → γ) :
    Obtains (do
      let (value,rest) ← outcome
      return (convert value,rest)) (convert value) segments parts later :=
  first.bind _ fun rest carries => .inl ⟨rest,rfl,carries,Iff.rfl⟩

theorem readField_obtains {size : Nat} {segments : Segments} {part : List UInt8} {parts : List (List UInt8)}
    (carries : Carries segments (part :: parts)) (length : part.length = size) :
    Obtains (readField size segments) part segments (part :: parts) parts := by
  subst length
  rw [readField]
  rcases read_part carries with ⟨rest,taken,later,same⟩ | ⟨short,split⟩
  · rw [taken]
    dsimp only
    rw [beq_self_eq_true,Outcome.assert_true,Outcome.next_bind]
    exact .inl ⟨rest,rfl,later,same⟩
  · have refused : ((Foundation.Segments.read part.length segments).1.length == part.length) = false := beq_false_of_ne short
    dsimp only
    rw [refused,Outcome.assert_false,Outcome.fault_bind]
    exact .inr ⟨rfl,split⟩

theorem decode_u32Bytes (value : UInt32) : decode (u32Bytes value) = value.toNat := by
  rw [u32Bytes,decode_encode]
  exact Nat.mod_eq_of_lt value.toNat_lt

theorem decode_u64Bytes (value : UInt64) : decode (u64Bytes value) = value.toNat := by
  rw [u64Bytes,decode_encode]
  exact Nat.mod_eq_of_lt value.toNat_lt

theorem intOf_u32Bytes (value : Int) : intOf (u32Bytes (UInt32.ofInt value)) = toInt value := by
  have bits : ((UInt32.ofInt value).toNat : Int) = value % 2^32 := by
    rw [UInt32.ofInt,UInt32.toNat_ofNat']
    omega
  rw [intOf,decode_u32Bytes,bits,toInt,toInt]
  exact Int.emod_bmod value (2^32)

theorem doubleOf_u64Bytes (value : Float) : doubleOf (u64Bytes value.toBits) = value := by
  rw [doubleOf,decode_u64Bytes,UInt64.ofNat_toNat,Binary64.ofBits_toBits]

theorem messageType_bytes (hdr : MsgHdr) : messageType hdr.bytes = hdr.messageType := by
  rw [messageType,MsgHdr.bytes,List.take_left' (u32Bytes_length _),decode_u32Bytes,UInt32.ofNat_toNat]

theorem readReport_obtains (type : UInt32) {segments : Segments} {parts : List (List UInt8)}
    (carries : Carries segments (u32Bytes type :: parts)) :
    Obtains (readPayload reportReqCode segments) (.reportReq type) segments (u32Bytes type :: parts) parts := by
  have reported := (readField_obtains carries (u32Bytes_length _)).map
    (fun payload1 => Message.reportReq (UInt32.ofNat (decode payload1)))
  rw [decode_u32Bytes,UInt32.ofNat_toNat] at reported
  rw [readPayload,if_neg (by decide),if_neg (by decide),if_pos rfl]
  exact reported

theorem readPayload_obtains (request : Request) {segments : Segments} {parts : List (List UInt8)}
    (carries : Carries segments (request.payload ++ parts)) :
    Obtains (readPayload request.header.messageType segments) request.received segments (request.payload ++ parts) parts := by
  cases request with
  | startLoad load =>
    have loaded := (readField_obtains carries (u32Bytes_length _)).map (fun payload1 => Message.startLoad (intOf payload1))
    rw [intOf_u32Bytes] at loaded
    exact loaded
  | startMeasure sampleCount samplingRate =>
    refine (readField_obtains carries (u32Bytes_length _)).bind (fun (payload1,rest) => do
      let (sampling,rest) ← readField 8 rest
      return (Message.startMeasure (intOf payload1) (doubleOf sampling),rest)) fun rest later => ?_
    have sampled := (readField_obtains later (u64Bytes_length _)).map
      (fun sampling => Message.startMeasure (toInt sampleCount) (doubleOf sampling))
    rw [doubleOf_u64Bytes] at sampled
    dsimp only
    rw [intOf_u32Bytes]
    exact sampled
  | reportThroughput => exact readReport_obtains reportThroughputType carries
  | reportLatency => exact readReport_obtains reportLatencyType carries

theorem readMessage_obtains (request : Request) {segments : Segments} {parts : List (List UInt8)}
    (carries : Carries segments (request.fields ++ parts)) :
    (∃ rest, readMessage segments = .next (some (request.received,rest)) ∧ Carries rest parts ∧
      (Whole (request.fields ++ parts) segments ↔ Whole parts rest)) ∨
    (readMessage segments = .fault ∧ ¬Whole (request.fields ++ parts) segments) := by
  have eight : request.header.bytes.length = 8 := by simp [MsgHdr.bytes]
  have arrived := read_nonempty carries
  have reading := read_part carries
  rw [eight] at arrived reading
  rw [readMessage]
  dsimp only
  rw [if_neg arrived]
  rcases reading with ⟨rest,taken,later,same⟩ | ⟨short,split⟩
  · rw [taken]
    dsimp only
    rw [beq_iff_eq.mpr eight,Outcome.assert_true,Outcome.next_bind,messageType_bytes]
    rcases readPayload_obtains request later with ⟨rest',read,later',same'⟩ | ⟨short,split⟩
    · rw [read]
      exact .inl ⟨rest',rfl,later',same.trans same'⟩
    · rw [short]
      exact .inr ⟨rfl,fun whole => split (same.mp whole)⟩
  · rw [beq_false_of_ne short]
    exact .inr ⟨rfl,split⟩

theorem readMessage_closed : readMessage [] = .next none := rfl

/-- The loop on a stream of messages, by induction on the messages. -/
theorem managerLoop_iff {σ : Type} (handler : Nat → σ → Message → Outcome σ) (sent : List Request) {passes : Nat}
    (enough : sent.length < passes) (handled : List Message) (state : σ) {segments : Segments}
    (carries : Carries segments (sent.flatMap Request.fields)) :
    (∃ final, managerLoop handler passes handled state segments = .next (handled ++ sent.map Request.received,final)) ↔
      FieldsWhole sent segments ∧ Handled handler handled.length state (sent.map Request.received) := by
  induction sent generalizing passes handled state segments with
  | nil =>
    obtain ⟨passes,rfl⟩ : ∃ fewer, passes = fewer + 1 := ⟨passes - 1,by omega⟩
    obtain rfl := carries.ended
    refine iff_of_true ⟨state,?_⟩ ⟨whole_nil,trivial⟩
    rw [managerLoop,readMessage_closed,Outcome.next_bind,List.map_nil,List.append_nil]
    rfl
  | cons request sent ih =>
    obtain ⟨passes,rfl⟩ : ∃ fewer, passes = fewer + 1 := ⟨passes - 1,by omega⟩
    rw [List.flatMap_cons] at carries
    rw [managerLoop,FieldsWhole,List.flatMap_cons,List.map_cons,Handled]
    rcases readMessage_obtains request carries with ⟨rest,read,later,same⟩ | ⟨short,split⟩
    · rw [read,Outcome.next_bind,same]
      dsimp only
      cases answer : handler handled.length state request.received with
      | next after =>
        have more := ih (Nat.lt_of_succ_lt_succ enough) (handled ++ [request.received]) after later
        rw [List.append_assoc,List.singleton_append,List.length_append,List.length_singleton] at more
        rw [Outcome.next_bind,more]
        constructor
        · rintro ⟨whole,answered⟩
          exact ⟨whole,after,rfl,answered⟩
        · rintro ⟨whole,after',same,answered⟩
          cases same
          exact ⟨whole,answered⟩
      | halt =>
        refine iff_of_false ?_ ?_
        · rintro ⟨final,ended⟩
          cases ended
        · rintro ⟨-,after,same,-⟩
          cases same
      | fault =>
        refine iff_of_false ?_ ?_
        · rintro ⟨final,ended⟩
          cases ended
        · rintro ⟨-,after,same,-⟩
          cases same
    · rw [short,Outcome.fault_bind]
      refine iff_of_false ?_ (fun both => split both.1)
      rintro ⟨final,ended⟩
      cases ended

/-- What else happens around the handling of a message: the workers' calls before it, the
time and the reference distribution it draws, and, for a report, the workers' calls while
the measure flag is off. -/
structure Turn where
  before : List (Nat × StatsCall × Float)
  now : Int
  reference : List UInt64
  during : List (Nat × StatsCall × Float)
  resumed : Int

def workerEvent : Nat × StatsCall × Float → Event
  | (thread,call,draw) => .worker thread call draw

def Turn.resumption (turn : Turn) : Message → List Event
  | .startLoad _ | .startMeasure _ _ => []
  | .reportReq _ => turn.during.map workerEvent ++ [.resume turn.resumed]

def Turn.events (turn : Turn) (message : Message) : List Event :=
  turn.before.map workerEvent ++ .message message turn.now turn.reference :: turn.resumption message

def answer (config : Agent.AgentConfig) (qsort : Qsort) (turns : Nat → Turn) (index : Nat) (manager : ManagerState)
    (message : Message) : Outcome ManagerState := do
  let (manager,_) ← (managerRun config qsort).execute manager ((turns index).events message)
  return manager

/-- Every message, and every call of a worker around it, finds what it needs in the state before it. -/
def Ready (config : Agent.AgentConfig) (qsort : Qsort) (turns : Nat → Turn) : Nat → ManagerState → List Message → Prop
  | _, _, [] => True
  | index, manager, message :: messages => Prepared config qsort manager ((turns index).events message) ∧
      ∀ after, answer config qsort turns index manager message = .next after → Ready config qsort turns (index + 1) after messages

section Handling
variable {config : Agent.AgentConfig} {qsort : Qsort} {turns : Nat → Turn} {index : Nat} {manager after : ManagerState}
  {message : Message}

theorem answer_executed (answered : answer config qsort turns index manager message = .next after) :
    ∃ outputs, (managerRun config qsort).execute manager ((turns index).events message) = .next (after,outputs) := by
  obtain ⟨⟨after',outputs⟩,executed,returned⟩ := Outcome.bind_next answered
  cases returned
  exact ⟨outputs,executed⟩

theorem events_plausible (turn : Turn) (clock : ∀ call ∈ turn.before ++ turn.during, Plausible (workerEvent call))
    (request : Request) : ∀ event ∈ turn.events request.received, Plausible event := by
  have worked : ∀ calls : List (Nat × StatsCall × Float), (∀ call ∈ calls, Plausible (workerEvent call)) →
      ∀ event ∈ calls.map workerEvent, Plausible event := by
    rintro calls normal event listed
    obtain ⟨call,present,rfl⟩ := List.mem_map.mp listed
    exact normal call present
  have before := worked turn.before fun call listed => clock call (List.mem_append_left _ listed)
  have during := worked turn.during fun call listed => clock call (List.mem_append_right _ listed)
  have known : Plausible (.message request.received turn.now turn.reference) := by
    cases request with
    | startLoad load => trivial
    | startMeasure sampleCount samplingRate => trivial
    | reportThroughput => exact .inl rfl
    | reportLatency => exact .inr rfl
  have resumption : ∀ message, ∀ event ∈ turn.resumption message, Plausible event := by
    intro message event listed
    cases message with
    | startLoad load => cases listed
    | startMeasure samples sampling => cases listed
    | reportReq type =>
      rcases List.mem_append.mp listed with call | resume
      · exact during event call
      · rw [List.mem_singleton.mp resume]
        trivial
  intro event listed
  rcases List.mem_append.mp listed with call | following
  · exact before event call
  · rcases List.mem_cons.mp following with rfl | later
    · exact known
    · exact resumption _ event later

theorem handled_iff (clock : ∀ index, ∀ call ∈ (turns index).before ++ (turns index).during, Plausible (workerEvent call))
    (sent : List Request) (kept : Kept manager) :
    Handled (answer config qsort turns) index manager (sent.map Request.received) ↔
      Ready config qsort turns index manager (sent.map Request.received) := by
  induction sent generalizing index manager with
  | nil => exact Iff.rfl
  | cons request sent ih =>
    have credible := events_plausible (turns index) (clock index) request
    rw [List.map_cons,Handled,Ready,← @executed_iff config qsort manager _ kept credible]
    have next : ∀ after, answer config qsort turns index manager request.received = .next after → Kept after := by
      intro after answered
      obtain ⟨outputs,executed⟩ := answer_executed answered
      exact executed_kept kept credible executed
    constructor
    · rintro ⟨after,answered,handled⟩
      obtain ⟨outputs,executed⟩ := answer_executed answered
      refine ⟨⟨_,executed⟩,fun after' answered' => ?_⟩
      cases answered.symm.trans answered'
      exact (ih (next after answered)).mp handled
    · rintro ⟨⟨⟨after,outputs⟩,executed⟩,ready⟩
      have answered : answer config qsort turns index manager request.received = .next after := by
        rw [answer,executed]
        rfl
      exact ⟨after,answered,(ih (next after answered)).mpr (ready after answered)⟩

end Handling

theorem messages_decoded_iff (config : Agent.AgentConfig) (qsort : Qsort) (turns : Nat → Turn) (generators : Generators)
    (threads : List ThreadStats) (aggStats : LatencyStats) (sent : List Request) (segments : Segments) (passes : Nat)
    (fresh : ∀ thread ∈ threads, thread.txS.count = 0)
    (clock : ∀ index, ∀ call ∈ (turns index).before ++ (turns index).during, Plausible (workerEvent call))
    (arrived : ∀ segment ∈ segments, segment ≠ []) (stream : segments.flatten = (sent.map Request.bytes).flatten)
    (enough : sent.length < passes) :
    (∃ final, managerLoop (answer config qsort turns) passes [] (initially generators threads aggStats) segments =
        .next (sent.map Request.received,final)) ↔
      FieldsWhole sent segments ∧
        Ready config qsort turns 0 (initially generators threads aggStats) (sent.map Request.received) := by
  have parts : (sent.flatMap Request.fields).flatten = (sent.map Request.bytes).flatten := by
    rw [List.flatMap_def,List.flatten_flatten,List.map_map]
    exact congrArg List.flatten (List.map_congr_left (fun request _ => request.fields_flatten))
  have filled : ∀ field ∈ sent.flatMap Request.fields, field ≠ [] := by
    intro field member
    obtain ⟨request,-,part⟩ := List.mem_flatMap.mp member
    exact request.fields_nonempty field part
  rw [← handled_iff clock sent (kept_initially generators aggStats fresh)]
  exact managerLoop_iff (answer config qsort turns) sent enough [] _ ⟨arrived,filled,stream.trans parts.symm⟩

def oneThread : Agent.AgentConfig := ⟨1,.symmetricAgent⟩

def idleTurn : Nat → Turn := fun _ => ⟨[],0,[],[],0⟩

def headerThenLoad : Segments := [[0,0,0,0,4,0,0,0],[5,0,0,0]]

theorem messages_decoded_between_fields :
    ∃ final, managerLoop (answer oneThread .insertion idleTurn) 2 [] (initially .exponential [] .zero) headerThenLoad =
      .next ([.startLoad 5],final) :=
  (messages_decoded_iff oneThread .insertion idleTurn .exponential [] .zero [.startLoad 5] headerThenLoad 2
    (by decide) (by simp [idleTurn]) (by decide) (by decide) (by decide)).mpr
    ⟨⟨[[[0,0,0,0,4,0,0,0]],[[5,0,0,0]]],rfl,rfl⟩,⟨trivial,⟨trivial,trivial⟩,fun _ _ _ => trivial⟩,fun _ _ => trivial⟩

def splitHeader : Segments := [[0,0,0],[0,4,0,0,0,5,0,0,0]]

/-- Three bytes of the header come first, and `assert(n == (int)sizeof(struct msg_hdr))` fails. -/
theorem split_header_asserts :
    splitHeader.flatten = (Request.startLoad 5).bytes ∧
      managerLoop (answer oneThread .insertion idleTurn) 2 [] (initially .exponential [] .zero) splitHeader = .fault :=
  ⟨rfl,rfl⟩

end Lancet.MessageStream
