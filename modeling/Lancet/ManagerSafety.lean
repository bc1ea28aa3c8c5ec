import Lancet.Aggregation
import Lancet.InterArrivals
import Lancet.Manager
import Lancet.Percentiles

/-! Which messages the manager thread gets through. It answers every one of them, unless an
assertion fails or an array access is outside its array on the way. -/
namespace Lancet.ManagerSafety
open Foundation RandGen Agent Timestamping Stats CoordProto Manager Aggregation InterArrivals Percentiles

def heldSamples (manager : ManagerState) : Nat := (manager.threads.map (·.stats.size.toNat)).sum

def transmissions (manager : ManagerState) : List Timespec := (allTx manager).flatMap retainedTx

/-- A known message that `set_per_thread_samples` lets pass, or a worker's call with a time of the clock. -/
def Accepted (config : AgentConfig) : Event → Prop
  | .message (.startMeasure samples sampling) _ _ =>
    setPerThreadSamples (perThreadSamples samples config.threadCount) sampling ≠ .fault
  | .message (.reportReq type) _ _ => type = reportThroughputType ∨ type = reportLatencyType
  | .worker _ (.txTimestamp txTs) _ => txTs.Normal
  | _ => True

/-- There are samples enough for the percentiles, and transmissions for the inter-arrival times. -/
def Reportable (config : AgentConfig) (manager : ManagerState) (type : UInt32) : Prop :=
  (type = reportLatencyType → 4 ≤ heldSamples manager ∧ heldSamples manager ≤ aggSampleSize) ∧
    (config.atype = .symmetricNicTimestampAgent → Timeable (transmissions manager))

/-- A sample is not kept before a measurement was started. -/
def Recordable (manager : ManagerState) (thread : Nat) (draw : Float) : Prop :=
  thread < manager.threads.length → manager.shouldMeasure = true → ¬manager.sampling.samplingRate < draw →
    0 < manager.sampling.perThreadSamples

/-- The average of the generator can be set: for the other kinds `set_avg` is an assertion that fails. -/
def Settable : Option (RandGen Float) → Prop
  | some (.fixed _) | some (.exp _) | some (.gpar _) => True
  | some (.gev _) | some (.bimodal _ _ _) | some (.lognorm _ _) | none => False

def Condition (config : AgentConfig) (manager : ManagerState) : Event → Prop
  | .message (.startLoad _) _ _ => Settable manager.generators.idist ∧ Settable manager.generators.referenceIaGen
  | .message (.startMeasure _ _) _ _ => manager.generators.referenceIaGen ≠ none
  | .message (.reportReq type) _ _ => Reportable config manager type
  | .worker thread (.latency _ _) draw => Recordable manager thread draw
  | _ => True

def Answered : Event × Option Reply → Prop
  | (.message _ _ _,reply) => ∃ reply', reply = some reply'
  | (_,reply) => reply = none

/-- What the events of a run keep true of the state. -/
structure Kept (manager : ManagerState) : Prop where
  bounded : Bounded manager.sampling
  normal : ∀ thread ∈ manager.threads, ∀ time ∈ retainedTx thread.txS, time.Normal

theorem retainedTx_none {txS : TxSamples} (empty : txS.count = 0) : retainedTx txS = [] := by
  rw [retainedTx,empty]
  rfl

theorem retainedTx_add {txS : TxSamples} {txTs : Timespec} (measure : Bool) (normal : ∀ time ∈ retainedTx txS, time.Normal)
    (new : txTs.Normal) : ∀ time ∈ retainedTx (addTxTimestamp measure txS txTs), time.Normal := by
  rw [addTxTimestamp]
  split
  next =>
    intro time inside
    obtain ⟨index,below,rfl⟩ := List.mem_map.mp inside
    rw [List.mem_range,maxPerThreadTxSamples] at below
    dsimp only
    split
    · exact new
    next other =>
      refine normal _ (List.mem_map.mpr ⟨index,?_,rfl⟩)
      rw [List.mem_range,maxPerThreadTxSamples]
      rw [maxPerThreadTxSamples] at other
      rw [UInt32.toNat_add] at below
      have one : (1 : UInt32).toNat = 1 := rfl
      omega
  next => exact normal

theorem transmissions_normal {manager : ManagerState} (kept : Kept manager) : ∀ time ∈ transmissions manager, time.Normal := by
  intro time inside
  obtain ⟨txS,listed,retained⟩ := List.mem_flatMap.mp inside
  obtain ⟨thread,present,rfl⟩ := List.mem_map.mp listed
  exact kept.normal thread present time retained

theorem setAvg_iff (gen : RandGen Float) (avg : Float) : (∃ gen', setAvg gen avg = .next gen') ↔ Settable (some gen) := by
  cases gen with
  | fixed value => exact ⟨fun _ => trivial,fun _ => ⟨_,rfl⟩⟩
  | exp lambda => exact ⟨fun _ => trivial,fun _ => ⟨_,rfl⟩⟩
  | gpar params => exact ⟨fun _ => trivial,fun _ => ⟨_,rfl⟩⟩
  | gev params => exact iff_of_false (fun ⟨_,computed⟩ => by cases computed) id
  | bimodal low up prob => exact iff_of_false (fun ⟨_,computed⟩ => by cases computed) id
  | lognorm mu sigma => exact iff_of_false (fun ⟨_,computed⟩ => by cases computed) id

theorem loadGenerators_iff (config : AgentConfig) (generators : Generators) (load : UInt32) :
    (∃ after, loadGenerators config generators load = .next after) ↔
      Settable generators.idist ∧ Settable generators.referenceIaGen := by
  obtain ⟨_ | idist,reference⟩ := generators
  · exact iff_of_false (fun ⟨_,loaded⟩ => by cases loaded) And.left
  · cases reference with
    | none => exact iff_of_false (fun ⟨_,loaded⟩ => by cases loaded) And.right
    | some referenceIaGen =>
      constructor
      · rintro ⟨after,loaded⟩
        obtain ⟨both,moved,-⟩ := Outcome.bind_next loaded
        obtain ⟨referenceIaGen',first,moved⟩ := Outcome.bind_next moved
        obtain ⟨idist',second,-⟩ := Outcome.bind_next moved
        exact ⟨(setAvg_iff _ _).mp ⟨idist',second⟩,(setAvg_iff _ _).mp ⟨referenceIaGen',first⟩⟩
      · rintro ⟨settable,settable'⟩
        obtain ⟨referenceIaGen',first⟩ := (setAvg_iff referenceIaGen (CDouble.ofInt 1000000 / CDouble.ofInt load.toNat)).mpr settable'
        obtain ⟨idist',second⟩ := (setAvg_iff idist
          (CDouble.ofInt 1000000 / (CDouble.ofInt load.toNat / CDouble.ofInt config.threadCount))).mpr settable
        refine ⟨⟨some idist',some referenceIaGen'⟩,?_⟩
        rw [loadGenerators]
        dsimp only
        rw [setLoad,setReferenceLoad,first,Outcome.next_bind]
        dsimp only
        rw [second]
        rfl

section Reports
variable {config : AgentConfig} {qsort : Qsort} {manager after : ManagerState} {now : Int} {type : UInt32} {reply : Reply}

theorem aggregateFrom_room {allStats : List LatencyStats} {agg agg' : LatencyStats} {aggCount : Nat}
    (start : aggCount ≤ aggSampleSize) (aggregated : aggregateFrom agg aggCount allStats = .next agg') :
    aggCount + (allStats.map (·.size.toNat)).sum ≤ aggSampleSize := by
  induction allStats generalizing agg aggCount with
  | nil => simpa using start
  | cons stats rest ih =>
    rw [aggregateFrom] at aggregated
    obtain ⟨middle,appended,aggregated⟩ := Outcome.bind_next aggregated
    rw [appendSamples] at appended
    split at appended
    next room =>
      have later := ih room aggregated
      rw [List.map_cons,List.sum_cons]
      omega
    next => cases appended

theorem collectLatencyStats_iff (config : AgentConfig) (qsort : Qsort) (manager : ManagerState) :
    (∃ agg, collectLatencyStats config qsort manager = .next agg) ↔
      4 ≤ heldSamples manager ∧ heldSamples manager ≤ aggSampleSize := by
  have sizes : ((allStats manager).map (·.size.toNat)).sum = heldSamples manager := by
    rw [allStats,List.map_map]
    rfl
  constructor
  · rintro ⟨agg,collected⟩
    obtain ⟨sums,aggregated,computed⟩ := Outcome.bind_next collected
    have room := aggregateFrom_room (Nat.zero_le _) aggregated
    rw [Nat.zero_add,sizes] at room
    obtain ⟨sums',aggregated',-,-,size,-⟩ := aggregateLatencySamples_next config.atype manager.aggStats (sizes ▸ room)
    rw [aggregated'] at aggregated
    cases aggregated
    refine ⟨?_,room⟩
    by_contra few
    rw [few_fault qsort (by omega)] at computed
    cases computed
  · rintro ⟨enough,room⟩
    obtain ⟨sums,aggregated,-,-,size,-⟩ := aggregateLatencySamples_next config.atype manager.aggStats (sizes ▸ room)
    obtain ⟨computed,next,-⟩ := percentiles_computed qsort (show 4 ≤ sums.size.toNat by omega) (by omega)
    refine ⟨computed,?_⟩
    rw [collectLatencyStats,aggregated]
    exact next

theorem checkIa_reports (kept : Kept manager) :
    (∃ flag, checkIa Float qsort manager.referenceIa (allTx manager) = .next flag) ↔ Timeable (transmissions manager) :=
  checkIa_iff qsort manager.referenceIa (allTx manager) (transmissions_normal kept)

theorem replyThroughputStats_iff (kept : Kept manager) :
    (∃ result, replyThroughputStats config qsort manager = .next result) ↔
      (config.atype = .symmetricNicTimestampAgent → Timeable (transmissions manager)) := by
  rw [← @checkIa_reports qsort manager kept,replyThroughputStats]
  split
  next nic =>
    constructor
    · rintro ⟨result,replied⟩ -
      obtain ⟨flag,checked,-⟩ := Outcome.bind_next replied
      exact ⟨flag,checked⟩
    · intro checks
      obtain ⟨flag,checked⟩ := checks nic
      rw [checked]
      exact ⟨_,rfl⟩
  next other => exact ⟨fun _ nic => absurd nic other,fun _ => ⟨_,rfl⟩⟩

theorem replyLatencyStats_iff (kept : Kept manager) :
    (∃ result, replyLatencyStats config qsort manager = .next result) ↔
      (4 ≤ heldSamples manager ∧ heldSamples manager ≤ aggSampleSize) ∧
        (config.atype = .symmetricNicTimestampAgent → Timeable (transmissions manager)) := by
  rw [← @checkIa_reports qsort manager kept,← collectLatencyStats_iff config qsort manager]
  constructor
  · rintro ⟨result,replied⟩
    obtain ⟨agg,collected,replied⟩ := Outcome.bind_next replied
    refine ⟨⟨agg,collected⟩,fun nic => ?_⟩
    dsimp only at replied
    rw [if_pos nic] at replied
    obtain ⟨flag,checked,-⟩ := Outcome.bind_next replied
    exact ⟨flag,checked⟩
  · rintro ⟨⟨agg,collected⟩,checks⟩
    rw [replyLatencyStats,collected,Outcome.next_bind]
    dsimp only
    split
    next nic =>
      obtain ⟨flag,checked⟩ := checks nic
      rw [checked]
      exact ⟨_,rfl⟩
    next => exact ⟨_,rfl⟩

theorem stopped_kept (kept : Kept manager) (now : Int) : Kept {stopMeasure manager now with reporting := true} := by
  rw [stopMeasure]
  split
  · exact ⟨kept.bounded,kept.normal⟩
  · exact ⟨kept.bounded,kept.normal⟩

theorem stopped_same (manager : ManagerState) (now : Int) :
    heldSamples {stopMeasure manager now with reporting := true} = heldSamples manager ∧
      transmissions {stopMeasure manager now with reporting := true} = transmissions manager := by
  rw [stopMeasure]
  split
  · exact ⟨rfl,rfl⟩
  · exact ⟨rfl,rfl⟩

theorem report_iff (kept : Kept manager) (known : type = reportThroughputType ∨ type = reportLatencyType) (now : Int)
    (reference : List UInt64) :
    (∃ result, handle config qsort manager now reference (.reportReq type) = .next result) ↔ Reportable config manager type := by
  obtain ⟨held,times⟩ := stopped_same manager now
  have stopped := stopped_kept kept now
  rw [Reportable,handle]
  dsimp only
  rcases known with rfl | rfl
  · have other : reportThroughputType ≠ reportLatencyType := by decide
    rw [if_pos rfl,replyThroughputStats_iff stopped,times]
    exact ⟨fun timeable => ⟨fun latency => absurd latency other,timeable⟩,fun reportable => reportable.2⟩
  · have other : reportLatencyType ≠ reportThroughputType := by decide
    rw [if_neg other,if_pos rfl,replyLatencyStats_iff stopped,held,times]
    exact ⟨fun both => ⟨fun _ => both.1,both.2⟩,fun reportable => ⟨reportable.1 rfl,reportable.2⟩⟩

theorem replied_kept {after : ManagerState} {reply : Reply} (kept : Kept manager)
    (replied : replyThroughputStats config qsort manager = .next (after,reply) ∨
      replyLatencyStats config qsort manager = .next (after,reply)) : Kept after := by
  rcases replied with throughput | latency
  · obtain ⟨_,_,-,rfl,-⟩ := replyThroughputStats_next throughput
    exact ⟨kept.bounded,kept.normal⟩
  · obtain ⟨_,_,_,-,rfl,-⟩ := replyLatencyStats_next latency
    exact ⟨kept.bounded,kept.normal⟩

end Reports

section Steps
variable {config : AgentConfig} {qsort : Qsort} {manager after : ManagerState}

theorem cleared_normal (atype : AgentType) (threads : List ThreadStats) :
    ∀ thread ∈ threads.map (clearThread atype), ∀ time ∈ retainedTx thread.txS, time.Normal := by
  intro thread listed
  obtain ⟨before,-,rfl⟩ := List.mem_map.mp listed
  rw [retainedTx_none rfl]
  simp

theorem apply_normal {thread stats : ThreadStats} {sampling : Sampling} {draw : Float} {call : StatsCall} {index : Nat}
    (measure : Bool) (accepted : Accepted config (.worker index call draw))
    (normal : ∀ time ∈ retainedTx thread.txS, time.Normal) (applied : thread.apply measure sampling draw call = .next stats) :
    ∀ time ∈ retainedTx stats.txS, time.Normal := by
  cases call with
  | throughputTx txP =>
    cases applied
    exact normal
  | throughputRx rxP =>
    cases applied
    exact normal
  | txTimestamp txTs =>
    cases applied
    exact retainedTx_add measure normal accepted
  | latency diff tx =>
    obtain ⟨_,-,returned⟩ := Outcome.bind_next applied
    cases returned
    exact normal

theorem worked_kept {thread : Nat} {call : StatsCall} {draw : Float} (kept : Kept manager)
    (accepted : Accepted config (.worker thread call draw)) (worked : work manager thread call draw = .next after) : Kept after := by
  rw [work] at worked
  split at worked
  next =>
    cases worked
    exact kept
  next stats present =>
    obtain ⟨stats',applied,returned⟩ := Outcome.bind_next worked
    cases returned
    refine ⟨kept.bounded,?_⟩
    intro other listed
    rcases List.mem_or_eq_of_mem_set listed with before | rfl
    · exact kept.normal other before
    · exact apply_normal manager.shouldMeasure accepted (kept.normal stats (List.mem_of_getElem? present)) applied

theorem addLatencySample_iff {measure : Bool} {sampling : Sampling} {draw : Float} {stats : LatencyStats} (diff : Int)
    (tx : Option Timespec) (bounded : Bounded sampling) :
    (∃ stats', addLatencySample measure sampling draw stats diff tx = .next stats') ↔
      (measure = true → ¬sampling.samplingRate < draw → 0 < sampling.perThreadSamples) := by
  rw [addLatencySample]
  split
  next skipped =>
    refine ⟨fun _ measuring kept => ?_,fun _ => ⟨_,rfl⟩⟩
    rw [measuring,decide_eq_false kept] at skipped
    cases skipped
  next recorded =>
    rw [Bool.or_eq_true,not_or,decide_eq_true_eq,Bool.not_eq_true'] at recorded
    obtain ⟨measuring,kept⟩ := recorded
    have on : measure = true := Bool.eq_true_of_not_eq_false measuring
    dsimp only
    split
    next zero =>
      constructor
      · rintro ⟨_,faulted⟩
        cases faulted
      · intro positive
        exact absurd zero (bounded.nonzero_iff.mpr (positive on kept))
    next nonzero => exact ⟨fun _ _ _ => bounded.nonzero_iff.mp nonzero,fun _ => ⟨_,rfl⟩⟩

/-- A worker's call returns unless a sample is put into buffers of no size. -/
theorem work_iff {thread : Nat} (call : StatsCall) (draw : Float) (kept : Kept manager) :
    (∃ after, work manager thread call draw = .next after) ↔ Condition config manager (.worker thread call draw) := by
  rw [work]
  cases present : manager.threads[thread]? with
  | none =>
    have outside := List.getElem?_eq_none_iff.mp present
    refine ⟨fun _ => ?_,fun _ => ⟨_,rfl⟩⟩
    cases call with
    | latency diff tx => exact fun inside => absurd inside (Nat.not_lt.mpr outside)
    | throughputTx txP => trivial
    | throughputRx rxP => trivial
    | txTimestamp txTs => trivial
  | some stats =>
    obtain ⟨inside,-⟩ := List.getElem?_eq_some_iff.mp present
    cases call with
    | latency diff tx =>
      have adds := @addLatencySample_iff manager.shouldMeasure manager.sampling draw stats.stats diff tx kept.bounded
      constructor
      · rintro ⟨after,worked⟩ -
        obtain ⟨_,applied,-⟩ := Outcome.bind_next worked
        obtain ⟨stats',added,-⟩ := Outcome.bind_next applied
        exact adds.mp ⟨stats',added⟩
      · intro recordable
        obtain ⟨stats',added⟩ := adds.mpr (recordable inside)
        dsimp only
        rw [ThreadStats.apply,added]
        exact ⟨_,rfl⟩
    | throughputTx txP => exact ⟨fun _ => trivial,fun _ => ⟨_,rfl⟩⟩
    | throughputRx rxP => exact ⟨fun _ => trivial,fun _ => ⟨_,rfl⟩⟩
    | txTimestamp txTs => exact ⟨fun _ => trivial,fun _ => ⟨_,rfl⟩⟩

theorem step_kept {event : Event} {output : Option Reply} (kept : Kept manager) (accepted : Accepted config event)
    (stepped : (managerRun config qsort).step manager event = .next (after,output)) : Kept after ∧ Answered (event,output) := by
  cases event with
  | message message now reference =>
    obtain ⟨⟨after',reply⟩,handled,returned⟩ := Outcome.bind_next stepped
    cases returned
    refine ⟨?_,reply,rfl⟩
    cases message with
    | startLoad load =>
      obtain ⟨generators,-,rfl,-⟩ := startLoad_next handled
      exact ⟨kept.bounded,cleared_normal _ _⟩
    | startMeasure samples sampling =>
      obtain ⟨chosen,sized,rfl,-⟩ := startMeasure_next handled
      exact ⟨(setPerThreadSamples_spec sized).2,cleared_normal _ _⟩
    | reportReq type =>
      have stopped := stopped_kept kept now
      rw [handle] at handled
      dsimp only at handled
      split at handled
      · exact replied_kept stopped (.inl handled)
      · split at handled
        · exact replied_kept stopped (.inr handled)
        · cases handled
  | resume now =>
    cases stepped
    exact ⟨⟨kept.bounded,kept.normal⟩,rfl⟩
  | worker thread call draw =>
    obtain ⟨after',worked,returned⟩ := Outcome.bind_next stepped
    cases returned
    exact ⟨worked_kept kept accepted worked,rfl⟩

theorem message_iff {message : Message} {now : Int} {reference : List UInt64} (kept : Kept manager)
    (accepted : Accepted config (.message message now reference)) :
    (∃ result, handle config qsort manager now reference message = .next result) ↔
      Condition config manager (.message message now reference) := by
  cases message with
  | startLoad load =>
    rw [Condition,← loadGenerators_iff config manager.generators (UInt32.ofInt load)]
    constructor
    · rintro ⟨result,handled⟩
      obtain ⟨generators,loaded,-⟩ := startLoad_next handled
      exact ⟨generators,loaded⟩
    · rintro ⟨generators,loaded⟩
      rw [handle,loaded]
      exact ⟨_,rfl⟩
  | startMeasure samples sampling =>
    rw [Condition,← Option.isSome_iff_ne_none,← Outcome.assert_next]
    constructor
    · rintro ⟨result,handled⟩
      obtain ⟨chosen,-,handled⟩ := Outcome.bind_next handled
      obtain ⟨_,passed,-⟩ := Outcome.bind_next handled
      exact passed
    intro passed
    rw [handle]
    cases chosen : setPerThreadSamples (perThreadSamples samples config.threadCount) sampling with
    | next sampling' =>
      rw [Outcome.next_bind,passed]
      exact ⟨_,rfl⟩
    | halt =>
      rw [setPerThreadSamples,Outcome.assert,Outcome.assert] at chosen
      split at chosen
      · split at chosen <;> cases chosen
      · cases chosen
    | fault => exact absurd chosen accepted
  | reportReq type => exact report_iff kept accepted now reference

theorem step_iff {event : Event} (kept : Kept manager) (accepted : Accepted config event) :
    (∃ after output, (managerRun config qsort).step manager event = .next (after,output) ∧ Answered (event,output)) ↔
      Condition config manager event := by
  cases event with
  | message message now reference =>
    rw [← @message_iff config qsort manager message now reference kept accepted]
    constructor
    · rintro ⟨after,output,stepped,-⟩
      obtain ⟨result,handled,-⟩ := Outcome.bind_next stepped
      exact ⟨result,handled⟩
    · rintro ⟨⟨after,reply⟩,handled⟩
      refine ⟨after,some reply,?_,reply,rfl⟩
      rw [managerRun]
      dsimp only
      rw [handled]
      rfl
  | resume now => exact ⟨fun _ => trivial,fun _ => ⟨_,_,rfl,rfl⟩⟩
  | worker thread call draw =>
    rw [← @work_iff config manager thread call draw kept]
    constructor
    · rintro ⟨after,output,stepped,-⟩
      obtain ⟨after',worked,-⟩ := Outcome.bind_next stepped
      exact ⟨after',worked⟩
    · rintro ⟨after,worked⟩
      refine ⟨after,none,?_,rfl⟩
      rw [managerRun]
      dsimp only
      rw [worked]
      rfl

end Steps

section Sequences
variable {config : AgentConfig} {qsort : Qsort} {manager after : ManagerState}

/-- What the coordinator and the clock promise, whatever the number of samples. -/
def Plausible : Event → Prop
  | .message (.reportReq type) _ _ => type = reportThroughputType ∨ type = reportLatencyType
  | .worker _ (.txTimestamp txTs) _ => txTs.Normal
  | _ => True

/-- The number of samples for a thread is one of its buffer. -/
def Ranged (config : AgentConfig) : Event → Prop
  | .message (.startMeasure samples _) _ _ =>
    0 < perThreadSamples samples config.threadCount ∧ perThreadSamples samples config.threadCount ≤ maxPerThreadSamples
  | _ => True

/-- Every event on the way finds what it needs in the state before it. -/
def Prepared (config : AgentConfig) (qsort : Qsort) : ManagerState → List Event → Prop
  | _, [] => True
  | manager, event :: events => Ranged config event ∧ Condition config manager event ∧
      ∀ after output, (managerRun config qsort).step manager event = .next (after,output) → Prepared config qsort after events

theorem accepted_iff {event : Event} (credible : Plausible event) : Accepted config event ↔ Ranged config event := by
  cases event with
  | message message now reference =>
    cases message with
    | startLoad load => exact Iff.rfl
    | startMeasure samples sampling => exact setPerThreadSamples_iff _ _
    | reportReq type => exact iff_of_true credible trivial
  | resume now => exact Iff.rfl
  | worker thread call draw =>
    cases call with
    | txTimestamp txTs => exact iff_of_true credible trivial
    | throughputTx txP => exact Iff.rfl
    | throughputRx rxP => exact Iff.rfl
    | latency diff tx => exact Iff.rfl

theorem stepped_iff {event : Event} (kept : Kept manager) (credible : Plausible event) :
    (∃ ended, (managerRun config qsort).step manager event = .next ended) ↔ Ranged config event ∧ Condition config manager event := by
  constructor
  · rintro ⟨⟨after,output⟩,stepped⟩
    have ranged : Ranged config event := by
      cases event with
      | message message now reference =>
        cases message with
        | startMeasure samples sampling =>
          obtain ⟨result,handled,-⟩ := Outcome.bind_next stepped
          obtain ⟨chosen,sized,-⟩ := Outcome.bind_next handled
          refine (setPerThreadSamples_iff _ sampling).mp ?_
          rw [sized]
          exact fun faulted => by cases faulted
        | startLoad load => trivial
        | reportReq type => trivial
      | resume now => trivial
      | worker thread call draw => trivial
    have accepted := (accepted_iff credible).mpr ranged
    exact ⟨ranged,(step_iff kept accepted).mp ⟨after,output,stepped,(step_kept kept accepted stepped).2⟩⟩
  · rintro ⟨ranged,condition⟩
    obtain ⟨after,output,stepped,-⟩ := (@step_iff config qsort manager event kept ((accepted_iff credible).mpr ranged)).mpr condition
    exact ⟨(after,output),stepped⟩

theorem stepped_kept {event : Event} {output : Option Reply} (kept : Kept manager) (credible : Plausible event)
    (stepped : (managerRun config qsort).step manager event = .next (after,output)) : Kept after := by
  have ranged := ((stepped_iff kept credible).mp ⟨_,stepped⟩).1
  exact (step_kept kept ((accepted_iff credible).mpr ranged) stepped).1

theorem executed_kept {events : List Event} {outputs : List (Option Reply)} (kept : Kept manager)
    (credible : ∀ event ∈ events, Plausible event)
    (executed : (managerRun config qsort).execute manager events = .next (after,outputs)) : Kept after := by
  induction events generalizing manager outputs with
  | nil =>
    cases executed
    exact kept
  | cons event events ih =>
    obtain ⟨here,later⟩ := List.forall_mem_cons.mp credible
    obtain ⟨⟨middle,output⟩,stepped,executed⟩ := Outcome.bind_next executed
    dsimp only at executed
    obtain ⟨⟨final,others⟩,executed',returned⟩ := Outcome.bind_next executed
    cases returned
    exact ih (stepped_kept kept here stepped) later executed'

/-- The events are all dealt with exactly if each of them finds what it needs. -/
theorem executed_iff {events : List Event} (kept : Kept manager) (credible : ∀ event ∈ events, Plausible event) :
    (∃ ended, (managerRun config qsort).execute manager events = .next ended) ↔ Prepared config qsort manager events := by
  induction events generalizing manager with
  | nil => exact ⟨fun _ => trivial,fun _ => ⟨_,rfl⟩⟩
  | cons event events ih =>
    obtain ⟨here,later⟩ := List.forall_mem_cons.mp credible
    rw [Prepared,← and_assoc,← @stepped_iff config qsort manager event kept here]
    have follows : ∀ middle output, (managerRun config qsort).step manager event = .next (middle,output) →
        ((∃ ended, (managerRun config qsort).execute middle events = .next ended) ↔ Prepared config qsort middle events) :=
      fun middle output stepped => ih (stepped_kept kept here stepped) later
    constructor
    · rintro ⟨ended,executed⟩
      obtain ⟨⟨middle,output⟩,stepped,executed⟩ := Outcome.bind_next executed
      obtain ⟨rest,executed,-⟩ := Outcome.bind_next executed
      refine ⟨⟨_,stepped⟩,fun after output' stepped' => ?_⟩
      cases stepped.symm.trans stepped'
      exact (follows middle output stepped).mp ⟨rest,executed⟩
    · rintro ⟨⟨⟨middle,output⟩,stepped⟩,prepared⟩
      obtain ⟨⟨final,outputs⟩,executed⟩ := (follows middle output stepped).mpr (prepared middle output stepped)
      rw [Machine.execute_cons_next events stepped,executed]
      exact ⟨_,rfl⟩

end Sequences

/-- The messages and calls that an agent gets, in any order. -/
def Offered (config : AgentConfig) : Machine.Environment ManagerState Event (Option Reply) := fun _ _ event => Accepted config event

theorem kept_initially (generators : Generators) {threads : List ThreadStats} (aggStats : LatencyStats)
    (fresh : ∀ thread ∈ threads, thread.txS.count = 0) : Kept (initially generators threads aggStats) where
  bounded := ⟨show (0 : Int) ≤ 0 by decide,show (0 : Int) ≤ maxPerThreadSamples by decide⟩
  normal thread listed := by
    rw [retainedTx_none (fresh thread listed)]
    simp

theorem kept_run {config : AgentConfig} {qsort : Qsort} {generators : Generators} {threads : List ThreadStats} {aggStats : LatencyStats}
    {log : List (Event × Option Reply)} {manager : ManagerState} (fresh : ∀ thread ∈ threads, thread.txS.count = 0)
    (run : (managerRun config qsort).Run (Offered config) (initially generators threads aggStats) log manager) :
    Kept manager ∧ ∀ entry ∈ log, Answered entry := by
  apply run.invariant
  · exact ⟨kept_initially generators aggStats fresh,by simp⟩
  · intro log before event after output holds accepted stepped
    obtain ⟨kept,answered⟩ := step_kept holds.1 accepted stepped
    refine ⟨kept,?_⟩
    intro entry listed
    rcases List.mem_append.mp listed with earlier | last
    · exact holds.2 entry earlier
    · rw [List.mem_singleton.mp last]
      exact answered

/-- In every state that a run reaches, every message so far has its one reply, and the next
event is dealt with exactly under its condition. -/
theorem messages_answered_iff (config : AgentConfig) (qsort : Qsort) (generators : Generators) (threads : List ThreadStats)
    (aggStats : LatencyStats)
    (log : List (Event × Option Reply)) (manager : ManagerState) (fresh : ∀ thread ∈ threads, thread.txS.count = 0)
    (run : (managerRun config qsort).Run (Offered config) (initially generators threads aggStats) log manager) :
    (∀ entry ∈ log, Answered entry) ∧ ∀ event, Accepted config event →
      ((∃ after output, (managerRun config qsort).step manager event = .next (after,output) ∧ Answered (event,output)) ↔
        Condition config manager event) := by
  obtain ⟨kept,answered⟩ := kept_run fresh run
  exact ⟨answered,fun event accepted => step_iff kept accepted⟩

instance (config : AgentConfig) (event : Event) : Decidable (Accepted config event) :=
  match event with
  | .message (.startLoad _) _ _ => .isTrue trivial
  | .message (.startMeasure samples sampling) _ _ =>
    inferInstanceAs (Decidable (setPerThreadSamples (perThreadSamples samples config.threadCount) sampling ≠ .fault))
  | .message (.reportReq type) _ _ => inferInstanceAs (Decidable (type = reportThroughputType ∨ type = reportLatencyType))
  | .resume _ => .isTrue trivial
  | .worker _ (.txTimestamp txTs) _ => inferInstanceAs (Decidable txTs.Normal)
  | .worker _ (.throughputTx _) _ | .worker _ (.throughputRx _) _ | .worker _ (.latency _ _) _ => .isTrue trivial

def exampleConfig : AgentConfig := ⟨1,.symmetricAgent⟩

def exampleStart : ManagerState := initially .exponential [emptyThread] .zero

def latencyReport : Event := .message (.reportReq reportLatencyType) 2000000 []

/-- A measurement in which the only thread takes so many samples. -/
def exampleEvents (samples : Nat) : List Event :=
  .message (.startMeasure 10000 100) 1000000 [] :: List.replicate samples (.worker 0 (.latency 50000 none) 0)

theorem example_run (samples : Nat) (held : ((managerRun exampleConfig Qsort.insertion).follow
      (fun _ _ event => decide (Accepted exampleConfig event)) [] exampleStart (exampleEvents samples)).any
        (fun ended => heldSamples ended.2 == samples) = true) :
    ∃ log manager, (managerRun exampleConfig Qsort.insertion).Run (Offered exampleConfig) exampleStart log manager ∧
      heldSamples manager = samples := by
  obtain ⟨log,manager,run,same⟩ := @Machine.run_of_follow _ _ _ (managerRun exampleConfig Qsort.insertion) (Offered exampleConfig)
    exampleStart (fun _ _ event => decide (Accepted exampleConfig event)) (fun _ _ _ => of_decide_eq_true) (exampleEvents samples)
    (fun ended => heldSamples ended.2 == samples) held
  exact ⟨log,manager,run,eq_of_beq same⟩

theorem messages_answered_four : ∃ log manager,
    (managerRun exampleConfig Qsort.insertion).Run (Offered exampleConfig) exampleStart log manager ∧
      ∃ after output, (managerRun exampleConfig Qsort.insertion).step manager latencyReport = .next (after,output) ∧
        Answered (latencyReport,output) := by
  obtain ⟨log,manager,run,held⟩ := example_run 4 (by decide +kernel)
  have fresh : ∀ thread ∈ [emptyThread], thread.txS.count = 0 := by decide
  have known : Accepted exampleConfig latencyReport := Or.inr rfl
  refine ⟨log,manager,run,?_⟩
  refine ((messages_answered_iff exampleConfig Qsort.insertion .exponential [emptyThread] .zero log manager fresh run).2 _ known).mpr ?_
  refine ⟨fun _ => ?_,fun nic => nomatch nic⟩
  rw [held]
  decide

/-- A report on a measurement without a sample fails the assertion on their number. -/
theorem empty_measurement_fails : ∃ log manager,
    (managerRun exampleConfig Qsort.insertion).Run (Offered exampleConfig) exampleStart log manager ∧
      heldSamples manager = 0 ∧ Accepted exampleConfig latencyReport ∧
        ¬∃ after output, (managerRun exampleConfig Qsort.insertion).step manager latencyReport = .next (after,output) ∧
          Answered (latencyReport,output) := by
  obtain ⟨log,manager,run,held⟩ := example_run 0 (by decide +kernel)
  have known : Accepted exampleConfig latencyReport := Or.inr rfl
  refine ⟨log,manager,run,held,known,?_⟩
  intro answered
  have kept := (kept_run (by decide) run).1
  have reportable := ((step_iff kept known).mp answered).1 rfl
  omega

end Lancet.ManagerSafety
