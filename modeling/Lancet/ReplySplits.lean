import Lancet.ReplyStream

/-! Replies that TCP splits over several reads. A collector reads once, so it sees the first
chunk followed by zeros; it notices a short chunk only by a code that is not there yet. -/
namespace Lancet.ReplySplits
open Foundation Wire CoordProto Proto Manager ReplyStream

/-- The `Info` of a `struct msg1` at the start of some bytes. -/
def info (bytes : List UInt8) : UInt32 := UInt32.ofNat (decode ((bytes.drop 8).take 4))

def Parses {α : Type} (parser : Parser α) (bytes : List UInt8) : Prop := ∃ result, parser bytes = .ok result

theorem parses_pure {α : Type} (value : α) (bytes : List UInt8) : Parses (pure value) bytes := ⟨_,rfl⟩

theorem not_parses_fail {α : Type} (text : String) (bytes : List UInt8) : ¬Parses (Parser.fail text : Parser α) bytes := by
  rintro ⟨result,parsed⟩
  cases parsed

theorem parses_taken {α β : Type} {width : Nat} {reader : Reader α} {following : α → Parser β} {bytes : List UInt8}
    {holds : Prop} (text : String) (taken : Takes width reader) (long : width ≤ bytes.length)
    (next : ∀ value, Parses (following value) (bytes.drop width) ↔ holds) :
    Parses (binaryRead reader text >>= following) bytes ↔ holds := by
  obtain ⟨value,read⟩ := taken bytes long
  rw [Parses,binaryRead_run _ _ read]
  exact next value

/-- Past a `struct msg1` whose code is checked. -/
theorem parses_checked {β : Type} {expected : UInt32} {text refused : String} {next : Parser β} {bytes : List UInt8}
    (long : sizeofMsg1 ≤ bytes.length) :
    Parses (do
      let prelude ← binaryRead Msg1.read text
      if prelude.info ≠ expected then Parser.fail refused else next) bytes ↔
        info bytes = expected ∧ Parses next (bytes.drop sizeofMsg1) := by
  obtain ⟨hdr,read⟩ := Msg1.read_long bytes long
  have here : Parses (do
      let prelude ← binaryRead Msg1.read text
      if prelude.info ≠ expected then Parser.fail refused else next) bytes ↔
        Parses (if info bytes ≠ expected then Parser.fail refused else next) (bytes.drop sizeofMsg1) := by
    rw [Parses,binaryRead_run _ _ read]
    rfl
  rw [here]
  by_cases same : info bytes = expected
  · rw [if_neg (not_not_intro same)]
    exact (and_iff_right same).symm
  · rw [if_pos same]
    exact iff_of_false (not_parses_fail _ _) (fun both => same both.1)

theorem parseAck_iff {bytes : List UInt8} (long : 12 ≤ bytes.length) : Parses parseAck bytes ↔ info bytes = replyAckType := by
  rw [parseAck,parses_checked long]
  exact and_iff_left (parses_pure _ _)

theorem parseThroughput_iff {bytes : List UInt8} (count : Nat) (long : 60 ≤ bytes.length) :
    Parses (parseThroughput count) bytes ↔ info bytes = replyStatsThroughput := by
  rw [parseThroughput,parses_checked (Nat.le_trans (by decide) long)]
  refine and_iff_left ((parses_taken _ ThroughputReply.takes ?_ (fun reply => ?_)).mpr trivial)
  · simp only [List.length_drop,sizeofThroughputReply,sizeofMsg1]
    omega
  · split
    · refine parses_taken _ Msg2.takes ?_ (fun iaReply => iff_true_intro (parses_pure _ _))
      simp only [List.length_drop,sizeofThroughputReply,sizeofMsg1,sizeofMsg2]
      omega
    · exact iff_true_intro (parses_pure _ _)

theorem parseChecks_iff {bytes : List UInt8} (long : 52 ≤ bytes.length) :
    Parses parseChecks bytes ↔ info bytes = replyConvergence ∧ info (bytes.drop 16) = replyIid := by
  have later : ∀ shift, shift ≤ 16 → 36 ≤ (bytes.drop shift).length := by
    intro shift small
    rw [List.length_drop]
    omega
  rw [parseChecks,parses_checked (Nat.le_trans (by decide) long)]
  refine and_congr_right fun _ => parses_taken _ takes_u32 (Nat.le_trans (by decide) (later _ (by decide))) (fun conv => ?_)
  rw [List.drop_drop,parses_checked (Nat.le_trans (by decide) (later _ (by decide)))]
  refine and_iff_left ((parses_taken _ takes_u64 ?_ (fun pearsonCorr => ?_)).mpr trivial)
  · simp only [List.length_drop,sizeofMsg1]
    omega
  · refine parses_taken _ Msg2.takes ?_ (fun iaReply => iff_true_intro (parses_pure _ _))
    simp only [List.length_drop,sizeofMsg1,sizeofMsg2]
    omega

theorem parses_map {α β : Type} (parser : Parser α) (convert : α → β) (bytes : List UInt8) :
    Parses (do
      let value ← parser
      return convert value) bytes ↔ Parses parser bytes := by
  constructor
  · rintro ⟨result,parsed⟩
    cases made : parser bytes with
    | ok value => exact ⟨value,made⟩
    | error text =>
      rw [Parser.bind_failed _ made] at parsed
      cases parsed
  · rintro ⟨⟨value,rest⟩,parsed⟩
    exact ⟨(convert value,rest),Parser.bind_ok _ parsed⟩

theorem parseLatency_iff {bytes : List UInt8} (count : Nat) (long : 200 ≤ bytes.length) :
    Parses (parseLatency count) bytes ↔ info bytes = replyStatsLatency ∧
      (148 < count → info (bytes.drop 148) = replyConvergence ∧ info (bytes.drop 164) = replyIid) := by
  rw [parseLatency,parses_checked (Nat.le_trans (by decide) long)]
  refine and_congr_right fun _ => parses_taken _ LatencyReply.takes ?_ (fun reply => ?_)
  · simp only [List.length_drop,sizeofLatencyReply,sizeofMsg1]
    omega
  · rw [List.drop_drop]
    split
    next more =>
      have enough : 52 ≤ (bytes.drop (sizeofMsg1 + sizeofLatencyReply)).length := by
        simp only [List.length_drop,sizeofLatencyReply,sizeofMsg1]
        omega
      rw [parses_map,parseChecks_iff enough,List.drop_drop]
      exact ⟨fun both _ => both,fun both => both more⟩
    next less => exact iff_of_true (parses_pure _ _) (fun more => absurd more less)

theorem code_zeros (code : UInt8) {bytes : List UInt8} (zeros : ∃ count more, bytes = List.replicate count 0 ++ more ∧ 3 ≤ count) :
    decode ((code :: bytes).take 4) = code.toNat := by
  obtain ⟨count,more,rfl,enough⟩ := zeros
  obtain ⟨extra,rfl⟩ := Nat.exists_eq_add_of_le enough
  have split : (code :: (List.replicate (3 + extra) 0 ++ more)).take 4 = [code,0,0,0] := by
    rw [List.replicate_add]
    rfl
  rw [split]
  simp [decode]

/-- A one-byte code is read from a padded prefix when its byte is there, and as zero otherwise. -/
theorem code_padded {capacity : Nat} (front back : List UInt8) (code : UInt8) (n : Nat) (room : front.length + 4 ≤ capacity) :
    decode (((padded capacity ((front ++ code :: 0 :: 0 :: 0 :: back).take n)).drop front.length).take 4) =
      if front.length < n then code.toNat else 0 := by
  rw [padded,List.take_append]
  by_cases reached : front.length < n
  · obtain ⟨here,rfl⟩ := Nat.exists_eq_add_of_lt reached
    have past : front.length + here + 1 - front.length = here + 1 := by omega
    have whole : front.take (front.length + here + 1) = front := List.take_of_length_le (by omega)
    rw [if_pos reached,past,whole,List.append_assoc,List.drop_left,List.take_succ_cons,List.cons_append]
    apply code_zeros
    rcases here with _ | _ | _ | here
    · refine ⟨_,[],(List.append_nil _).symm,?_⟩
      simp only [List.length_append,List.length_cons,List.take_zero,List.length_nil]
      omega
    · refine ⟨1 + _,[],by rw [List.replicate_add,List.append_nil]; rfl,?_⟩
      simp only [List.length_append,List.length_cons,List.take_succ_cons,List.take_zero,List.length_nil]
      omega
    · refine ⟨2 + _,[],by rw [List.replicate_add,List.append_nil]; rfl,?_⟩
      simp only [List.length_append,List.length_cons,List.take_succ_cons,List.take_zero,List.length_nil]
      omega
    · exact ⟨3,_,rfl,Nat.le_refl _⟩
  · have nil : n - front.length = 0 := by omega
    have short : (front.take n).length = n := List.length_take_of_le (Nat.le_of_not_lt reached)
    have gone : (front.take n).drop front.length = [] := List.drop_eq_nil_of_le (by omega)
    have enough : 4 ≤ capacity - n - (front.length - n) := by omega
    rw [if_neg reached,nil,List.take_zero,List.append_nil,short,List.drop_append,gone,short,List.nil_append,
      List.drop_replicate,List.take_replicate,Nat.min_eq_left enough]
    exact decode_zeros 4

theorem info_padded {capacity shift : Nat} (front back : List UInt8) (code : UInt8) (n : Nat)
    (offset : front.length = shift + 8) (room : shift + 12 ≤ capacity) :
    info ((padded capacity ((front ++ code :: 0 :: 0 :: 0 :: back).take n)).drop shift) =
      if shift + 8 < n then UInt32.ofNat code.toNat else 0 := by
  have room' : front.length + 4 ≤ capacity := by
    rw [offset]
    exact room
  have coded := code_padded front back code n room'
  rw [offset] at coded
  rw [info,List.drop_drop,coded,apply_ite UInt32.ofNat]
  rfl

theorem padded_length {capacity : Nat} {chunk : List UInt8} (fits : chunk.length ≤ capacity) :
    (padded capacity chunk).length = capacity := by
  rw [padded,List.length_append,List.length_replicate]
  exact Nat.add_sub_cancel' fits

theorem padded_take_length {capacity : Nat} {bytes : List UInt8} (fits : bytes.length ≤ capacity) (n : Nat) :
    (padded capacity (bytes.take n)).length = capacity :=
  padded_length (Nat.le_trans (List.length_take_le' n bytes) fits)

/-- The lengths of a first chunk that make the collector return an error. -/
def rejects : Reply → Nat → Prop
  | .ack, _ => False
  | .throughput _ _, n => n ≤ 8
  | .latency _ checks, n => n ≤ 8 ∨ checks.isSome ∧ 148 < n ∧ n ≤ 172

theorem ack_accepts (n : Nat) : Parses parseAck (padded ackCapacity (Reply.ack.bytes.take n)) := by
  have bytes : Reply.ack.bytes = ackMsg.hdr.bytes ++ 0 :: 0 :: 0 :: 0 :: [] := rfl
  have fits : Reply.ack.bytes.length ≤ ackCapacity := by decide
  have long : 12 ≤ (padded ackCapacity (Reply.ack.bytes.take n)).length := by
    rw [padded_take_length fits]
    decide
  have code := @info_padded ackCapacity 0 ackMsg.hdr.bytes [] 0 n rfl (by decide)
  rw [parseAck_iff long,bytes]
  rw [List.drop_zero] at code
  rw [code]
  split <;> rfl

theorem throughput_accepts (data : ThroughputReply) (iaComp : Option UInt32) (n : Nat) :
    Parses (parseThroughput n) (padded statsCapacity ((Reply.throughput data iaComp).bytes.take n)) ↔
      ¬rejects (.throughput data iaComp) n := by
  have fits : (Reply.throughput data iaComp).bytes.length ≤ statsCapacity := by
    rw [throughput_length,statsCapacity]
    split <;> decide
  have long : 60 ≤ (padded statsCapacity ((Reply.throughput data iaComp).bytes.take n)).length := by
    rw [padded_take_length fits]
    decide
  obtain ⟨back,bytes⟩ : ∃ back, (Reply.throughput data iaComp).bytes = throughputMsg.hdr.bytes ++ 1 :: 0 :: 0 :: 0 :: back :=
    ⟨_,rfl⟩
  have code := @info_padded statsCapacity 0 throughputMsg.hdr.bytes back 1 n rfl (by decide)
  rw [List.drop_zero] at code
  rw [parseThroughput_iff n long,bytes,code,rejects,Nat.not_le]
  constructor
  · intro known
    by_contra early
    rw [if_neg early] at known
    cases known
  · intro reached
    rw [if_pos reached]
    rfl

theorem code_seen {code expected : UInt32} {reached : Prop} [Decidable reached] (present : expected ≠ 0) (same : code = expected) :
    (if reached then code else 0) = expected ↔ reached := by
  constructor
  · intro seen
    by_contra early
    rw [if_neg early] at seen
    exact present seen.symm
  · intro seen
    rw [if_pos seen,same]

theorem latency_accepts (data : LatencyReply) (checks : Option NicChecks) (n : Nat)
    (within : n ≤ (Reply.latency data checks).bytes.length) :
    Parses (parseLatency n) (padded statsCapacity ((Reply.latency data checks).bytes.take n)) ↔
      ¬rejects (.latency data checks) n := by
  have size := latency_length data checks
  have fits : (Reply.latency data checks).bytes.length ≤ statsCapacity := by
    rw [size,statsCapacity]
    split <;> decide
  have long : 200 ≤ (padded statsCapacity ((Reply.latency data checks).bytes.take n)).length := by
    rw [padded_take_length fits]
    decide
  have start : info (padded statsCapacity ((Reply.latency data checks).bytes.take n)) = replyStatsLatency ↔ 8 < n := by
    obtain ⟨back,bytes⟩ : ∃ back, (Reply.latency data checks).bytes = latencyMsg.hdr.bytes ++ 2 :: 0 :: 0 :: 0 :: back :=
      ⟨_,rfl⟩
    have code := @info_padded statsCapacity 0 latencyMsg.hdr.bytes back 2 n rfl (by decide)
    rw [List.drop_zero] at code
    rw [bytes,code]
    exact code_seen (by decide) rfl
  rw [parseLatency_iff n long,start,rejects]
  cases checks with
  | none =>
    have short : ¬148 < n := Nat.not_lt_of_le (Nat.le_trans within (Nat.le_of_eq size))
    simp only [Option.isSome_none,Bool.false_eq_true,false_and,or_false,Nat.not_le,short,false_implies,and_true]
  | some checks =>
    have bytes : (Reply.latency data (some checks)).bytes =
        (latencyMsg.bytes ++ data.bytes ++ convergenceMsg.hdr.bytes) ++ 3 :: 0 :: 0 :: 0 ::
          (u32Bytes checks.convergence ++ (iidMsg.bytes ++ (u64Bytes checks.correlation ++ (iaCompMsg checks.iaComp).bytes))) := by
      simp only [Reply.bytes,Reply.iov,checksIov,List.flatten_cons,List.flatten_nil,List.append_nil,List.append_assoc,
        Option.map_some,Option.getD_some,List.cons_append,List.nil_append]
      rfl
    have bytes' : (Reply.latency data (some checks)).bytes =
        (latencyMsg.bytes ++ data.bytes ++ convergenceMsg.bytes ++ u32Bytes checks.convergence ++ iidMsg.hdr.bytes) ++
          5 :: 0 :: 0 :: 0 :: (u64Bytes checks.correlation ++ (iaCompMsg checks.iaComp).bytes) := by
      simp only [Reply.bytes,Reply.iov,checksIov,List.flatten_cons,List.flatten_nil,List.append_nil,List.append_assoc,
        Option.map_some,Option.getD_some,List.cons_append,List.nil_append]
      rfl
    have convergence : info ((padded statsCapacity ((Reply.latency data (some checks)).bytes.take n)).drop 148) =
        replyConvergence ↔ 156 < n := by
      rw [bytes,info_padded]
      · exact code_seen (by decide) rfl
      · simp only [List.length_append,Msg1.bytes_length,LatencyReply.bytes_length]
        rfl
      · decide
    have iid : info ((padded statsCapacity ((Reply.latency data (some checks)).bytes.take n)).drop 164) = replyIid ↔ 172 < n := by
      rw [bytes',info_padded]
      · exact code_seen (by decide) rfl
      · simp only [List.length_append,Msg1.bytes_length,LatencyReply.bytes_length,u32Bytes_length]
        rfl
      · decide
    rw [convergence,iid]
    simp only [Option.isSome_some,true_and]
    omega

/-- How TCP delivers some bytes: non-empty chunks that join to them. -/
structure SplitOf (bytes : List UInt8) (chunks : List (List UInt8)) : Prop where
  nonempty : ∀ chunk ∈ chunks, chunk ≠ []
  joined : chunks.flatten = bytes

theorem SplitOf.first {bytes : List UInt8} {streams : Streams} {a : Conn} (split : SplitOf bytes (streams a)) (nonempty : bytes ≠ []) :
    ∃ rest, streams a = first streams a :: rest ∧ (first streams a).length ≤ bytes.length ∧
      first streams a = bytes.take (first streams a).length := by
  have joined := split.joined
  rw [ReplyStream.first]
  generalize streams a = chunks at joined
  cases chunks with
  | nil => exact absurd joined.symm nonempty
  | cons chunk rest =>
    rw [List.headD_cons,← joined,List.flatten_cons,List.take_left]
    exact ⟨rest,rfl,by simp,rfl⟩

theorem SplitOf.single {bytes : List UInt8} {chunk : List UInt8} (split : SplitOf bytes [chunk]) : chunk = bytes := by
  rw [← split.joined,List.flatten_cons,List.flatten_nil,List.append_nil]

theorem all_ok {β ε α : Type} {step : β → Except ε α} {items : List β} (each : ∀ item ∈ items, ∃ value, step item = .ok value) :
    ∃ values : List α, items.map step = values.map .ok := by
  induction items with
  | nil => exact ⟨[],rfl⟩
  | cons item items ih =>
    obtain ⟨value,done⟩ := each item List.mem_cons_self
    obtain ⟨values,rest⟩ := ih (fun other member => each other (List.mem_cons_of_mem _ member))
    exact ⟨value :: values,by rw [List.map_cons,List.map_cons,done,rest]⟩

section Collection
variable {α : Type} {capacity : Nat} (timeOut : Nat) {parse : Nat → Parser α} {reply : Conn → Reply} {value : Conn → α}
  {agents : List Conn} {streams : Streams}

theorem accepted_iff {a : Conn} (split : SplitOf (reply a).bytes (streams a)) (nonempty : (reply a).bytes ≠ [])
    (accepts : ∀ n ≤ (reply a).bytes.length,
      (Parses (parse n) (padded capacity ((reply a).bytes.take n)) ↔ ¬rejects (reply a) n)) :
    (∃ value, accepted parse capacity streams a = .ok value) ↔ ¬rejects (reply a) (first streams a).length := by
  obtain ⟨rest,-,within,chunk⟩ := split.first nonempty
  have parses := accepts _ within
  rw [← chunk] at parses
  rw [← parses,accepted,Parses]
  cases parse (first streams a).length (padded capacity (first streams a)) with
  | ok result => exact iff_of_true ⟨_,rfl⟩ ⟨_,rfl⟩
  | error text =>
    refine iff_of_false ?_ ?_
    · rintro ⟨value,impossible⟩
      cases impossible
    · rintro ⟨value,impossible⟩
      cases impossible

variable (distinct : agents.Nodup) (split : ∀ a ∈ agents, SplitOf (reply a).bytes (streams a))
  (nonempty : ∀ a, (reply a).bytes ≠ []) (fits : ∀ a, (reply a).bytes.length ≤ capacity)
  (accepts : ∀ a, ∀ n ≤ (reply a).bytes.length,
    (Parses (parse n) (padded capacity ((reply a).bytes.take n)) ↔ ¬rejects (reply a) n))
include distinct split nonempty fits accepts

/-- A collection that leaves nothing unread needs a rejected chunk or replies in one piece. -/
theorem split_of_drained (drained : ∀ results after,
      Go.forEach (collectFrom streamNet timeOut capacity parse) agents streams = (.value results,after) →
        ∀ a ∈ agents, after a = []) :
    (∃ a ∈ agents, rejects (reply a) (first streams a).length) ∨ ∀ a ∈ agents, streams a = [(reply a).bytes] := by
  by_cases refused : ∃ a ∈ agents, rejects (reply a) (first streams a).length
  · exact .inl refused
  · have ready : ∀ a ∈ agents, Ready capacity streams a := by
      intro a member
      obtain ⟨rest,held,within,-⟩ := (split a member).first (nonempty a)
      refine ⟨?_,Nat.le_trans within (fits a)⟩
      rw [held]
      exact List.cons_ne_nil _ _
    have each : ∀ a ∈ agents, ∃ value, accepted parse capacity streams a = .ok value := fun a member =>
      (accepted_iff (split a member) (nonempty a) (accepts a)).mpr (fun rejected => refused ⟨a,member,rejected⟩)
    obtain ⟨values,collected⟩ := all_ok each
    have empty := drained values _ ((forEach_collected timeOut parse distinct ready _ _).mpr ⟨collected,rfl⟩)
    right
    intro a member
    obtain ⟨rest,held,-,-⟩ := (split a member).first (nonempty a)
    have nothing := empty a member
    rw [consumed,if_pos member,held,List.tail_cons] at nothing
    have alone := split a member
    rw [held,nothing] at alone
    rw [held,nothing,alone.single]

variable (whole : ∀ a rest, parse (reply a).bytes.length ((reply a).bytes ++ rest) = .ok (value a,rest))
include whole

theorem drained_of_split (pieces : (∃ a ∈ agents, rejects (reply a) (first streams a).length) ∨
      ∀ a ∈ agents, streams a = [(reply a).bytes]) {results : List α} {after : Streams}
    (collected : Go.forEach (collectFrom streamNet timeOut capacity parse) agents streams = (.value results,after)) :
    results = agents.map value ∧ ∀ a ∈ agents, after a = [] := by
  rcases pieces with ⟨a,member,rejected⟩ | arrived
  · have ready : ∀ a ∈ agents, Ready capacity streams a := by
      intro a member
      obtain ⟨rest,held,within,-⟩ := (split a member).first (nonempty a)
      refine ⟨?_,Nat.le_trans within (fits a)⟩
      rw [held]
      exact List.cons_ne_nil _ _
    obtain ⟨all,-⟩ := (forEach_collected timeOut parse distinct ready _ _).mp collected
    have one : accepted parse capacity streams a ∈ results.map .ok := by
      rw [← all]
      exact List.mem_map_of_mem member
    obtain ⟨value,-,returned⟩ := List.mem_map.mp one
    exact absurd rejected ((accepted_iff (split a member) (nonempty a) (accepts a)).mp ⟨value,returned.symm⟩)
  · rw [collected_whole timeOut distinct arrived fits whole] at collected
    cases collected
    refine ⟨rfl,fun a member => ?_⟩
    rw [consumed,if_pos member,arrived a member,List.tail_cons]

end Collection

/-- One of the three collections with what each agent encodes in its reply. -/
inductive Collection where
  | acks
  | throughput (data : Conn → ThroughputReply) (iaComp : Conn → Option UInt32)
  | latency (data : Conn → LatencyReply) (checks : Conn → Option NicChecks)

namespace Collection

def reply : Collection → Conn → Reply
  | .acks, _ => .ack
  | .throughput data iaComp, a => .throughput (data a) (iaComp a)
  | .latency data checks, a => .latency (data a) (checks a)

/-- A successful collection returns what was encoded and leaves no byte unread. -/
def Faithful (agents : List Conn) (streams : Streams) : Collection → Prop
  | .acks => ∀ after, collectAcks streamNet agents streams = (.value (),after) → ∀ a ∈ agents, after a = []
  | .throughput data iaComp => ∀ results after, collectThroughputResults streamNet agents streams = (.value results,after) →
    results = .ofReplies (agents.map (fun a => (data a,(iaComp a).map (fun flag => (flag.toNat : Int))))) ∧
      ∀ a ∈ agents, after a = []
  | .latency data checks => ∀ results after, collectLatencyResults streamNet agents streams = (.value results,after) →
    results = .ofReplies (agents.map (fun a => (data a,checks a))) ∧ ∀ a ∈ agents, after a = []

end Collection

theorem split_replies_collected (collection : Collection) (agents : List Conn) (distinct : agents.Nodup) (streams : Streams)
    (split : ∀ a ∈ agents, SplitOf (collection.reply a).bytes (streams a)) :
    collection.Faithful agents streams ↔
      (∃ a ∈ agents, rejects (collection.reply a) (first streams a).length) ∨
        ∀ a ∈ agents, streams a = [(collection.reply a).bytes] := by
  cases collection with
  | acks =>
    have accepts : ∀ a, ∀ n ≤ (Collection.acks.reply a).bytes.length,
        (Parses parseAck (padded ackCapacity ((Collection.acks.reply a).bytes.take n)) ↔
          ¬rejects (Collection.acks.reply a) n) :=
      fun _ n _ => iff_of_true (ack_accepts n) not_false
    have whole : ∀ (a : Conn) (rest : List UInt8), parseAck ((Collection.acks.reply a).bytes ++ rest) = .ok ((),rest) :=
      fun _ _ => rfl
    have fits : ∀ a, (Collection.acks.reply a).bytes.length ≤ ackCapacity :=
      fun _ => Nat.le_trans (Nat.le_of_eq (Msg1.bytes_length ackMsg)) (by decide)
    have nonempty : ∀ a, (Collection.acks.reply a).bytes ≠ [] := fun _ => List.cons_ne_nil _ _
    constructor
    · intro faithful
      refine split_of_drained ackTimeOut distinct split nonempty fits accepts (fun results after collected => ?_)
      exact faithful after (by rw [collectAcks,Go.bind_value _ collected,Go.pure_value])
    · intro pieces after collected
      obtain ⟨results,middle,gathered,returned⟩ := Go.value_of_bind collected
      cases returned
      exact (drained_of_split ackTimeOut distinct split nonempty fits accepts whole pieces gathered).2
  | throughput data iaComp =>
    have accepts := fun a n (_ : n ≤ (Reply.throughput (data a) (iaComp a)).bytes.length) =>
      throughput_accepts (data a) (iaComp a) n
    have whole := fun a rest => parseThroughput_reply (data a) (iaComp a) rest
    have fits : ∀ a, (Reply.throughput (data a) (iaComp a)).bytes.length ≤ statsCapacity := by
      intro a
      rw [throughput_length,statsCapacity]
      split <;> decide
    have nonempty : ∀ a, (Reply.throughput (data a) (iaComp a)).bytes ≠ [] := fun a => List.cons_ne_nil _ _
    constructor
    · intro faithful
      refine split_of_drained throughputTimeOut distinct split nonempty fits accepts (fun results after collected => ?_)
      exact (faithful _ after (by rw [collectThroughputResults,Go.bind_value _ collected,Go.pure_value])).2
    · intro pieces results after collected
      obtain ⟨replies,middle,gathered,returned⟩ := Go.value_of_bind collected
      cases returned
      obtain ⟨same,empty⟩ := drained_of_split throughputTimeOut distinct split nonempty fits accepts whole pieces gathered
      exact ⟨congrArg ThroughputResults.ofReplies same,empty⟩
  | latency data checks =>
    have accepts := fun a => latency_accepts (data a) (checks a)
    have whole := fun a rest => parseLatency_reply (data a) (checks a) rest
    have fits : ∀ a, (Reply.latency (data a) (checks a)).bytes.length ≤ statsCapacity := by
      intro a
      rw [latency_length,statsCapacity]
      split <;> decide
    have nonempty : ∀ a, (Reply.latency (data a) (checks a)).bytes ≠ [] := fun a => List.cons_ne_nil _ _
    constructor
    · intro faithful
      refine split_of_drained latencyTimeOut distinct split nonempty fits accepts (fun results after collected => ?_)
      exact (faithful _ after (by rw [collectLatencyResults,Go.bind_value _ collected,Go.pure_value])).2
    · intro pieces results after collected
      obtain ⟨replies,middle,gathered,returned⟩ := Go.value_of_bind collected
      cases returned
      obtain ⟨same,empty⟩ := drained_of_split latencyTimeOut distinct split nonempty fits accepts whole pieces gathered
      exact ⟨congrArg LatencyResults.ofReplies same,empty⟩

/-- A throughput reply of one agent; its first 20 bytes come in a chunk of their own. -/
def exampleReply : Collection := .throughput (fun _ => ⟨640,720,10,1000⟩) (fun _ => none)

def exampleStreams : Streams := fun a => [(exampleReply.reply a).bytes.take 20,(exampleReply.reply a).bytes.drop 20]

theorem exampleStreams_split : SplitOf (exampleReply.reply 0).bytes (exampleStreams 0) :=
  ⟨by decide +kernel,by decide +kernel⟩

/-- The collector returns three zeros for the fields that are still on their way. -/
theorem split_throughput_misread : SplitOf (exampleReply.reply 0).bytes (exampleStreams 0) ∧
    (collectThroughputResults streamNet [0] exampleStreams).1 = .value ⟨[⟨640,0,0,0⟩],[]⟩ ∧
    ¬exampleReply.Faithful [0] exampleStreams := by
  have returned : (collectThroughputResults streamNet [0] exampleStreams).1 = .value ⟨[⟨640,0,0,0⟩],[]⟩ := by
    decide +kernel
  refine ⟨exampleStreams_split,returned,fun faithful => ?_⟩
  have called : collectThroughputResults streamNet [0] exampleStreams =
      (.value ⟨[⟨640,0,0,0⟩],[]⟩,(collectThroughputResults streamNet [0] exampleStreams).2) := by rw [← returned]
  obtain ⟨same,-⟩ := faithful _ _ called
  have sent : [(⟨640,0,0,0⟩ : ThroughputReply)] = [⟨640,720,10,1000⟩] := congrArg ThroughputResults.result same
  exact absurd sent (by decide)

/-- The same bytes in one chunk. -/
theorem split_replies_whole : exampleReply.Faithful [0] (fun a => [(exampleReply.reply a).bytes]) := by
  refine (split_replies_collected exampleReply [0] (List.nodup_singleton 0) _ (fun a _ => ⟨?_,?_⟩)).mpr (.inr fun _ _ => rfl)
  · intro chunk member
    rw [List.mem_singleton.mp member]
    exact List.cons_ne_nil _ _
  · rw [List.flatten_cons,List.flatten_nil,List.append_nil]

end Lancet.ReplySplits
