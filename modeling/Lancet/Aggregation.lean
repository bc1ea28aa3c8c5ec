import Lancet.Stats
import Lancet.Foundation.Ring
import Lancet.Foundation.Sums
import Mathlib.Algebra.BigOperators.Group.List.Basic

/-! What aggregation makes of the threads' statistics. Between two clears each thread sums
its throughput and keeps its latest latency samples in a ring; the aggregate has the sums
and, thread by thread, what the rings hold. -/
namespace Lancet.Aggregation
open Foundation Agent Timestamping Stats

instance : Zero ByteReqPair := ⟨.zero⟩

instance : Add ByteReqPair := ⟨.add⟩

instance : AddCommMonoid ByteReqPair where
  add_assoc _ _ _ := congrArg₂ ByteReqPair.mk (UInt64.add_assoc ..) (UInt64.add_assoc ..)
  zero_add _ := congrArg₂ ByteReqPair.mk (UInt64.zero_add _) (UInt64.zero_add _)
  add_zero _ := congrArg₂ ByteReqPair.mk (UInt64.add_zero _) (UInt64.add_zero _)
  add_comm _ _ := congrArg₂ ByteReqPair.mk (UInt64.add_comm ..) (UInt64.add_comm ..)
  nsmul := nsmulRec

structure StatsState where
  sampling : Sampling
  threads : List ThreadStats

inductive StatsOp where
  | clearAllStats
  | setPerThreadSamples (samples : Int) (sr : Float)
  | add (thread : Nat) (call : StatsCall) (draw : Float)

/-- The operations on the statistics while the measure flag is on. -/
def statsMachine (atype : AgentType) : Machine StatsState StatsOp Unit where
  step state
    | .clearAllStats => return ({state with threads := state.threads.map (clearThread atype)},())
    | .setPerThreadSamples samples sr => do
      let sampling ← setPerThreadSamples samples sr
      return ({state with sampling := sampling},())
    | .add thread call draw =>
      match state.threads[thread]? with
      | none => return (state,())
      | some stats => do
        let stats' ← stats.apply true state.sampling draw call
        return ({state with threads := state.threads.set thread stats'},())

abbrev Log := List (StatsOp × Unit)

def recent (log : Log) : List StatsOp :=
  log.foldl (fun ops entry => match entry.1 with
    | .clearAllStats => []
    | op => ops ++ [op]) []

def Cleared (log : Log) : Prop := ∃ entry ∈ log, entry.1 = .clearAllStats

def rxOf : StatsOp → ByteReqPair
  | .add _ (.throughputRx rxP) _ => rxP
  | _ => 0

def txOf : StatsOp → ByteReqPair
  | .add _ (.throughputTx txP) _ => txP
  | _ => 0

def sampleOn (thread : Nat) : StatsOp → Option (Int × Option Timespec)
  | .add thread' (.latency diff tx) _ => if thread' = thread then some (diff,tx) else none
  | _ => none

/-- The latency samples a thread has accepted since the last clear. -/
def accepted (thread : Nat) (log : Log) : List (Int × Option Timespec) := (recent log).filterMap (sampleOn thread)

/-- A slot holds what `add_latency_sample` was given; with no transmit time it keeps the old one. -/
def Records (given : Int × Option Timespec) (sample : LatSample) : Prop :=
  sample.nsec = UInt64.ofInt given.1 ∧ ∀ tx, given.2 = some tx → sample.tx = tx

def isClear : StatsOp → Bool
  | .clearAllStats => true
  | .setPerThreadSamples _ _ | .add _ _ _ => false

def RightAfterClear (log : Log) : Prop := log.getLast?.any (fun entry => isClear entry.1) = true

def Operating (atype : AgentType) : Machine.Environment StatsState StatsOp Unit := fun log state op =>
  match op with
  | .clearAllStats => True
  | .setPerThreadSamples _ _ => RightAfterClear log
  | .add thread call draw => thread < state.threads.length ∧
    match call with
    | .latency _ _ => atype ≠ .throughputAgent ∧ ¬state.sampling.samplingRate < draw
    | _ => True

/-- What `aggregateFrom` appends at an offset, when the buffer has room for all of it. -/
theorem aggregateFrom_next {allStats : List LatencyStats} {agg : LatencyStats} {aggCount : Nat}
    (room : aggCount + (allStats.map (·.size.toNat)).sum ≤ aggSampleSize) :
    ∃ agg', aggregateFrom agg aggCount allStats = .next agg' ∧
      agg'.thS.rx = agg.thS.rx + (allStats.map (·.thS.rx)).sum ∧ agg'.thS.tx = agg.thS.tx + (allStats.map (·.thS.tx)).sum ∧
      agg'.size.toNat = aggCount + (allStats.map (·.size.toNat)).sum ∧
      agg'.held = (List.range aggCount).map agg.samples ++ allStats.flatMap LatencyStats.held := by
  induction allStats generalizing agg aggCount with
  | nil =>
    have small : aggCount < 2^32 := Nat.lt_of_le_of_lt room (by decide)
    have size : (UInt32.ofNat aggCount).toNat = aggCount := UInt32.toNat_ofNat_of_lt' small
    refine ⟨_,rfl,(add_zero _).symm,(add_zero _).symm,size,?_⟩
    rw [LatencyStats.held,List.flatMap_nil,List.append_nil]
    dsimp only
    rw [size]
  | cons stats allStats ih =>
    rw [List.map_cons,List.sum_cons] at room
    have here : aggCount + stats.size.toNat ≤ aggSampleSize := by omega
    rw [aggregateFrom,appendSamples,if_pos here,Outcome.next_bind]
    obtain ⟨agg',aggregated,rx,tx,size,held⟩ := @ih {agg with
      thS := ⟨agg.thS.rx.add stats.thS.rx,agg.thS.tx.add stats.thS.tx⟩
      samples := fun index =>
        if aggCount ≤ index ∧ index < aggCount + stats.size.toNat then stats.samples (index - aggCount)
        else agg.samples index} (aggCount + stats.size.toNat) (by omega)
    refine ⟨agg',aggregated,?_,?_,?_,?_⟩
    · rw [rx,List.map_cons,List.sum_cons,← add_assoc]
      rfl
    · rw [tx,List.map_cons,List.sum_cons,← add_assoc]
      rfl
    · rw [size,List.map_cons,List.sum_cons,Nat.add_assoc]
    · rw [held,List.flatMap_cons,← List.append_assoc,List.range_add,List.map_append,List.map_map]
      congr 2
      · refine List.map_congr_left fun index inside => ?_
        exact if_neg (fun both => Nat.not_lt.mpr both.1 (List.mem_range.mp inside))
      · refine List.map_congr_left fun index inside => ?_
        have below := List.mem_range.mp inside
        dsimp only [Function.comp_apply]
        rw [if_pos ⟨Nat.le_add_right _ _,Nat.add_lt_add_left below _⟩,Nat.add_sub_cancel_left]

theorem aggregateLatencySamples_next (atype : AgentType) (aggStats : LatencyStats) {allStats : List LatencyStats}
    (room : (allStats.map (·.size.toNat)).sum ≤ aggSampleSize) :
    ∃ agg, aggregateLatencySamples atype aggStats allStats = .next agg ∧
      agg.thS.rx = (allStats.map (·.thS.rx)).sum ∧ agg.thS.tx = (allStats.map (·.thS.tx)).sum ∧
      agg.size.toNat = (allStats.map (·.size.toNat)).sum ∧ agg.held = allStats.flatMap LatencyStats.held := by
  obtain ⟨agg,aggregated,rx,tx,size,held⟩ := @aggregateFrom_next allStats
    {clearStats atype aggStats with samples := fun _ => .zero} 0 (by omega)
  have cleared : (clearStats atype aggStats).thS = ⟨0,0⟩ := by cases atype <;> rfl
  dsimp only at rx tx
  rw [cleared,zero_add] at rx tx
  rw [Nat.zero_add] at size
  exact ⟨agg,aggregated,rx,tx,size,held⟩

/-- A thread's ring after these samples since the clear. -/
structure Rings (capacity : Nat) (samples : List (Int × Option Timespec)) (stats : LatencyStats) : Prop where
  count : stats.count.toNat = samples.length
  size : stats.size.toNat = min samples.length capacity
  keeps : Keeps Records capacity stats.samples samples

/-- The capacity is what `set_per_thread_samples` lets pass, or still zero. -/
def Bounded (sampling : Sampling) : Prop := 0 ≤ sampling.perThreadSamples ∧ sampling.perThreadSamples ≤ maxPerThreadSamples

def capacity (sampling : Sampling) : Nat := sampling.perThreadSamples.toNat

theorem Bounded.capacity_word {sampling : Sampling} (bounded : Bounded sampling) :
    (UInt32.ofInt sampling.perThreadSamples).toNat = capacity sampling := by
  obtain ⟨low,high⟩ := bounded
  rw [maxPerThreadSamples] at high
  rw [UInt32.ofInt,UInt32.toNat_ofNat',capacity]
  omega

theorem Bounded.nonzero_iff {sampling : Sampling} (bounded : Bounded sampling) :
    UInt32.ofInt sampling.perThreadSamples ≠ 0 ↔ 0 < sampling.perThreadSamples := by
  have word := bounded.capacity_word
  have low := bounded.1
  rw [capacity] at word
  have zero : (0 : UInt32).toNat = 0 := rfl
  rw [ne_eq,← UInt32.toNat_inj,word,zero]
  omega

theorem Rings.cleared {stats : LatencyStats} (capacity : Nat) (count : stats.count = 0) (size : stats.size = 0) :
    Rings capacity [] stats := by
  refine ⟨?_,?_,Keeps.empty⟩
  · rw [count]
    rfl
  · rw [size,List.length_nil,Nat.zero_min]
    rfl

theorem Rings.accept {sampling : Sampling} {draw : Float} {stats after : LatencyStats} {diff : Int} {tx : Option Timespec}
    {samples : List (Int × Option Timespec)} (rings : Rings (capacity sampling) samples stats) (bounded : Bounded sampling)
    (drawn : ¬sampling.samplingRate < draw) (few : (samples ++ [(diff,tx)]).length < 2^32)
    (added : addLatencySample true sampling draw stats diff tx = .next after) :
    Rings (capacity sampling) (samples ++ [(diff,tx)]) after := by
  have word := bounded.capacity_word
  have accepts : (!true || decide (sampling.samplingRate < draw)) = false := by
    rw [decide_eq_false drawn]
    rfl
  rw [List.length_append,List.length_singleton] at few
  rw [addLatencySample,accepts,if_neg Bool.false_ne_true] at added
  dsimp only at added
  split at added
  next => cases added
  next nonzero =>
    cases added
    have positive : 0 < capacity sampling := by
      rw [← word]
      exact Nat.pos_of_ne_zero fun zero => nonzero (UInt32.toNat_inj.mp zero)
    have more : (stats.count + 1).toNat = samples.length + 1 := by
      rw [UInt32.toNat_add,rings.count]
      exact Nat.mod_eq_of_lt few
    refine ⟨?_,?_,?_⟩
    · rw [List.length_append,List.length_singleton]
      exact more
    · rw [List.length_append,List.length_singleton]
      dsimp only
      split
      next beyond =>
        rw [UInt32.lt_iff_toNat_lt,word,more] at beyond
        rw [word,Nat.min_eq_right beyond.le]
      next within =>
        rw [UInt32.lt_iff_toNat_lt,word,more] at within
        rw [more,Nat.min_eq_left (Nat.not_lt.mp within)]
    · have position : (stats.count % UInt32.ofInt sampling.perThreadSamples).toNat = samples.length % capacity sampling := by
        rw [UInt32.toNat_mod,rings.count,word]
      refine Keeps.push ⟨UInt64.ofInt diff,tx.getD (stats.samples (samples.length % capacity sampling)).tx⟩ rings.keeps positive
        ?_ (fun slot => ?_)
      · refine ⟨rfl,fun given same => ?_⟩
        dsimp only at same
        rw [same]
        rfl
      · dsimp only
        rw [position]
        split
        next here => rw [here]
        next => rfl

@[simp] theorem recent_clear (log : Log) : recent (log ++ [(.clearAllStats,())]) = [] := List.foldl_concat ..

@[simp] theorem recent_set (log : Log) (samples : Int) (sr : Float) :
    recent (log ++ [(.setPerThreadSamples samples sr,())]) = recent log ++ [.setPerThreadSamples samples sr] :=
  List.foldl_concat ..

@[simp] theorem recent_add (log : Log) (thread : Nat) (call : StatsCall) (draw : Float) :
    recent (log ++ [(.add thread call draw,())]) = recent log ++ [.add thread call draw] :=
  List.foldl_concat ..

theorem cleared_snoc {log : Log} {entry : StatsOp × Unit} (cleared : Cleared (log ++ [entry])) :
    Cleared log ∨ entry.1 = .clearAllStats := by
  obtain ⟨past,member,same⟩ := cleared
  rcases List.mem_append.mp member with member | member
  · exact .inl ⟨past,member,same⟩
  · exact .inr (List.mem_singleton.mp member ▸ same)

theorem RightAfterClear.recent {log : Log} (after : RightAfterClear log) : recent log = [] := by
  rcases List.eq_nil_or_concat log with rfl | ⟨past,⟨op,_⟩,rfl⟩
  · rfl
  · rw [RightAfterClear,List.concat_eq_append,List.getLast?_concat] at after
    cases op with
    | clearAllStats =>
      rw [List.concat_eq_append]
      exact recent_clear past
    | setPerThreadSamples samples sr => cases after
    | add thread call draw => cases after

theorem accepted_of_recent {log : Log} (nothing : recent log = []) (thread : Nat) : accepted thread log = [] := by
  rw [accepted,nothing]
  rfl

theorem accepted_add (log : Log) (thread thread' : Nat) (call : StatsCall) (draw : Float) :
    accepted thread (log ++ [(.add thread' call draw,())]) = accepted thread log ++ (sampleOn thread (.add thread' call draw)).toList := by
  rw [accepted,recent_add,List.filterMap_append,accepted]
  cases given : sampleOn thread (.add thread' call draw) with
  | none =>
    rw [List.filterMap_cons_none given]
    rfl
  | some sample =>
    rw [List.filterMap_cons_some given]
    rfl

/-- What a call does to the statistics of its thread: the throughput grows by its argument, and
only a latency sample touches the ring. -/
theorem apply_spec {sampling : Sampling} {draw : Float} {before after : ThreadStats} {call : StatsCall} (thread : Nat)
    (applied : before.apply true sampling draw call = .next after) :
    after.stats.thS.rx = before.stats.thS.rx + rxOf (.add thread call draw) ∧
      after.stats.thS.tx = before.stats.thS.tx + txOf (.add thread call draw) ∧
      ((∃ diff tx, call = .latency diff tx ∧ addLatencySample true sampling draw before.stats diff tx = .next after.stats) ∨
        (sampleOn thread (.add thread call draw) = none ∧ after.stats.count = before.stats.count ∧
          after.stats.size = before.stats.size ∧ after.stats.samples = before.stats.samples)) := by
  cases call with
  | throughputTx txP =>
    cases applied
    exact ⟨(add_zero _).symm,rfl,.inr ⟨rfl,rfl,rfl,rfl⟩⟩
  | throughputRx rxP =>
    cases applied
    exact ⟨rfl,(add_zero _).symm,.inr ⟨rfl,rfl,rfl,rfl⟩⟩
  | txTimestamp txTs =>
    cases applied
    exact ⟨(add_zero _).symm,(add_zero _).symm,.inr ⟨rfl,rfl,rfl,rfl⟩⟩
  | latency diff tx =>
    obtain ⟨stats,added,returned⟩ := Outcome.bind_next applied
    cases returned
    have throughput : stats.thS = before.stats.thS := addLatencySample_throughput added
    refine ⟨?_,?_,.inl ⟨diff,tx,rfl,added⟩⟩
    · rw [throughput]
      exact (add_zero _).symm
    · rw [throughput]
      exact (add_zero _).symm

theorem sampleOn_other {thread thread' : Nat} (different : thread' ≠ thread) (call : StatsCall) (draw : Float) :
    sampleOn thread (.add thread' call draw) = none := by
  cases call with
  | latency diff tx => exact if_neg different
  | throughputTx txP => rfl
  | throughputRx rxP => rfl
  | txTimestamp txTs => rfl

/-- What the threads hold after a log, given that it contains a clear. -/
structure Tally (log : Log) (state : StatsState) : Prop where
  rx : (state.threads.map (·.stats.thS.rx)).sum = ((recent log).map rxOf).sum
  tx : (state.threads.map (·.stats.thS.tx)).sum = ((recent log).map txOf).sum
  rings : ∀ thread stats, state.threads[thread]? = some stats → (accepted thread log).length < 2^32 →
    Rings (capacity state.sampling) (accepted thread log) stats.stats

/-- A throughput agent's clear leaves the ring alone, which stays as it was allocated. -/
def Untouched (atype : AgentType) (threads : List ThreadStats) : Prop :=
  atype = .throughputAgent → ∀ thread ∈ threads, thread.stats.count = 0 ∧ thread.stats.size = 0

theorem clearThread_spec {atype : AgentType} {thread : ThreadStats}
    (untouched : atype = .throughputAgent → thread.stats.count = 0 ∧ thread.stats.size = 0) :
    (clearThread atype thread).stats.thS = ⟨0,0⟩ ∧ (clearThread atype thread).stats.count = 0 ∧
      (clearThread atype thread).stats.size = 0 := by
  cases atype with
  | throughputAgent => exact ⟨rfl,untouched rfl⟩
  | latencyAgent => exact ⟨rfl,rfl,rfl⟩
  | symmetricNicTimestampAgent => exact ⟨rfl,rfl,rfl⟩
  | symmetricAgent => exact ⟨rfl,rfl,rfl⟩

theorem tally_clear {atype : AgentType} {state : StatsState} (untouched : Untouched atype state.threads) (log : Log) :
    Tally (log ++ [(.clearAllStats,())]) {state with threads := state.threads.map (clearThread atype)} := by
  have each : ∀ thread ∈ state.threads, (clearThread atype thread).stats.thS = ⟨0,0⟩ ∧
      (clearThread atype thread).stats.count = 0 ∧ (clearThread atype thread).stats.size = 0 :=
    fun thread member => clearThread_spec fun throughput => untouched throughput thread member
  refine ⟨?_,?_,?_⟩
  · rw [recent_clear,List.map_map]
    refine List.sum_eq_zero fun pair member => ?_
    obtain ⟨thread,inside,rfl⟩ := List.mem_map.mp member
    exact congrArg ThroughputStats.rx (each thread inside).1
  · rw [recent_clear,List.map_map]
    refine List.sum_eq_zero fun pair member => ?_
    obtain ⟨thread,inside,rfl⟩ := List.mem_map.mp member
    exact congrArg ThroughputStats.tx (each thread inside).1
  · intro thread stats held _
    rw [accepted_of_recent (recent_clear log)]
    rw [List.getElem?_map] at held
    obtain ⟨before,present,rfl⟩ := Option.map_eq_some_iff.mp held
    obtain ⟨-,count,size⟩ := each before (List.mem_of_getElem? present)
    exact .cleared _ count size

theorem Tally.set {log : Log} {state : StatsState} (tally : Tally log state) (after : RightAfterClear log)
    (samples : Int) (sr : Float) (sampling : Sampling) :
    Tally (log ++ [(.setPerThreadSamples samples sr,())]) {state with sampling := sampling} := by
  have nothing := after.recent
  refine ⟨?_,?_,?_⟩
  · rw [recent_set,nothing]
    exact tally.rx.trans (by rw [nothing]; rfl)
  · rw [recent_set,nothing]
    exact tally.tx.trans (by rw [nothing]; rfl)
  · intro thread stats held _
    have rings := tally.rings thread stats held (by rw [accepted_of_recent nothing]; exact Nat.two_pow_pos 32)
    rw [accepted_of_recent nothing] at rings
    have cleared : accepted thread (log ++ [(.setPerThreadSamples samples sr,())]) = [] := by
      rw [accepted,recent_set,nothing]
      rfl
    rw [cleared]
    refine .cleared _ (UInt32.toNat_inj.mp rings.count) (UInt32.toNat_inj.mp ?_)
    rw [rings.size,List.length_nil,Nat.zero_min]
    rfl

theorem Tally.add {atype : AgentType} {log : Log} {state : StatsState} {thread : Nat} {call : StatsCall} {draw : Float}
    {before after : ThreadStats} (tally : Tally log state) (bounded : Bounded state.sampling)
    (operating : Operating atype log state (.add thread call draw)) (held : state.threads[thread]? = some before)
    (applied : before.apply true state.sampling draw call = .next after) :
    Tally (log ++ [(.add thread call draw,())]) {state with threads := state.threads.set thread after} := by
  obtain ⟨rx,tx,ring⟩ := apply_spec thread applied
  refine ⟨?_,?_,?_⟩
  · have here : (state.threads.map (·.stats.thS.rx))[thread]? = some before.stats.thS.rx := by
      rw [List.getElem?_map,held]
      rfl
    rw [recent_add,List.map_append,List.sum_append,← tally.rx,List.map_set,rx,sum_set_add here,List.map_singleton,
      List.sum_singleton]
  · have here : (state.threads.map (·.stats.thS.tx))[thread]? = some before.stats.thS.tx := by
      rw [List.getElem?_map,held]
      rfl
    rw [recent_add,List.map_append,List.sum_append,← tally.tx,List.map_set,tx,sum_set_add here,List.map_singleton,
      List.sum_singleton]
  · intro thread' stats present few
    rw [accepted_add] at few ⊢
    have few' : (accepted thread' log).length < 2^32 := by
      rw [List.length_append] at few
      exact Nat.lt_of_le_of_lt (Nat.le_add_right _ _) few
    by_cases same : thread' = thread
    · subst same
      rw [List.getElem?_set_self (List.getElem?_eq_some_iff.mp held).1] at present
      cases present
      have rings := tally.rings thread' before held few'
      rcases ring with ⟨diff,time,rfl,added⟩ | ⟨other,count,size,samples⟩
      · have recorded : sampleOn thread' (.add thread' (.latency diff time) draw) = some (diff,time) := if_pos rfl
        rw [recorded] at few ⊢
        exact rings.accept bounded operating.2.2 few added
      · rw [other,Option.toList_none,List.append_nil]
        exact ⟨by rw [count]; exact rings.count,by rw [size]; exact rings.size,by rw [samples]; exact rings.keeps⟩
    · rw [List.getElem?_set_ne (Ne.symm same)] at present
      rw [sampleOn_other (Ne.symm same),Option.toList_none,List.append_nil]
      exact tally.rings thread' stats present few'

def Chosen (log : Log) : Prop := ∃ entry ∈ log, ∃ samples sr, entry.1 = .setPerThreadSamples samples sr

structure Holds (atype : AgentType) (log : Log) (state : StatsState) : Prop where
  bounded : Bounded state.sampling
  chosen : Chosen log → 0 < state.sampling.perThreadSamples
  untouched : Untouched atype state.threads
  tally : Cleared log → Tally log state

theorem chosen_snoc {log : Log} {entry : StatsOp × Unit} (chosen : Chosen (log ++ [entry])) :
    Chosen log ∨ ∃ samples sr, entry.1 = .setPerThreadSamples samples sr := by
  obtain ⟨past,member,same⟩ := chosen
  rcases List.mem_append.mp member with member | member
  · exact .inl ⟨past,member,same⟩
  · exact .inr (List.mem_singleton.mp member ▸ same)

theorem setPerThreadSamples_spec {samples : Int} {sr : Float} {sampling : Sampling}
    (chosen : setPerThreadSamples samples sr = .next sampling) : 0 < sampling.perThreadSamples ∧ Bounded sampling := by
  obtain ⟨_,high,chosen⟩ := Outcome.bind_next chosen
  obtain ⟨_,low,returned⟩ := Outcome.bind_next chosen
  cases returned
  have low := of_decide_eq_true ((Outcome.assert_next _).mp low)
  exact ⟨low,low.le,of_decide_eq_true ((Outcome.assert_next _).mp high)⟩

theorem clear_untouched {atype : AgentType} {threads : List ThreadStats} (untouched : Untouched atype threads) :
    Untouched atype (threads.map (clearThread atype)) := by
  intro throughput thread member
  obtain ⟨before,present,rfl⟩ := List.mem_map.mp member
  exact (clearThread_spec fun _ => untouched throughput before present).2

theorem add_untouched {atype : AgentType} {log : Log} {state : StatsState} {thread : Nat} {call : StatsCall} {draw : Float}
    {before after : ThreadStats} (untouched : Untouched atype state.threads)
    (operating : Operating atype log state (.add thread call draw)) (held : state.threads[thread]? = some before)
    (applied : before.apply true state.sampling draw call = .next after) : Untouched atype (state.threads.set thread after) := by
  intro throughput stats member
  rcases List.mem_or_eq_of_mem_set member with old | rfl
  · exact untouched throughput stats old
  · obtain ⟨count,size⟩ := untouched throughput before (List.mem_of_getElem? held)
    obtain ⟨-,-,⟨diff,tx,rfl,-⟩ | ⟨-,count',size',-⟩⟩ := apply_spec thread applied
    · exact absurd throughput operating.2.1
    · exact ⟨count'.trans count,size'.trans size⟩

theorem holds_step {atype : AgentType} {log : Log} {state after : StatsState} {op : StatsOp} {output : Unit}
    (holds : Holds atype log state) (operating : Operating atype log state op)
    (stepped : (statsMachine atype).step state op = .next (after,output)) : Holds atype (log ++ [(op,output)]) after := by
  cases op with
  | clearAllStats =>
    cases stepped
    refine ⟨holds.bounded,fun chosen => ?_,clear_untouched holds.untouched,fun _ => tally_clear holds.untouched log⟩
    rcases chosen_snoc chosen with before | ⟨_,_,impossible⟩
    · exact holds.chosen before
    · cases impossible
  | setPerThreadSamples samples sr =>
    obtain ⟨sampling,chosen,returned⟩ := Outcome.bind_next stepped
    cases returned
    obtain ⟨positive,bounded⟩ := setPerThreadSamples_spec chosen
    refine ⟨bounded,fun _ => positive,holds.untouched,fun cleared => ?_⟩
    rcases cleared_snoc cleared with before | impossible
    · exact (holds.tally before).set operating samples sr sampling
    · cases impossible
  | add thread call draw =>
    rw [statsMachine] at stepped
    dsimp only at stepped
    rw [List.getElem?_eq_getElem operating.1] at stepped
    obtain ⟨stats,applied,returned⟩ := Outcome.bind_next stepped
    cases returned
    have held := List.getElem?_eq_getElem operating.1
    refine ⟨holds.bounded,fun chosen => ?_,add_untouched holds.untouched operating held applied,fun cleared => ?_⟩
    · rcases chosen_snoc chosen with before | ⟨_,_,impossible⟩
      · exact holds.chosen before
      · cases impossible
    · rcases cleared_snoc cleared with before | impossible
      · exact (holds.tally before).add holds.bounded operating held applied
      · cases impossible

theorem holds_initially {atype : AgentType} {threads : List ThreadStats} (untouched : Untouched atype threads) :
    Holds atype [] ⟨⟨0,0⟩,threads⟩ where
  bounded := ⟨le_rfl,Int.natCast_nonneg maxPerThreadSamples⟩
  chosen chosen := absurd chosen (by simp [Chosen])
  untouched := untouched
  tally cleared := absurd cleared (by simp [Cleared])

theorem holds_run {atype : AgentType} {threads : List ThreadStats} {log : Log} {state : StatsState}
    (untouched : Untouched atype threads)
    (run : (statsMachine atype).Run (Operating atype) ⟨⟨0,0⟩,threads⟩ log state) : Holds atype log state :=
  run.invariant (holds_initially untouched)
    (fun _ _ _ _ _ holds operating stepped => holds_step holds operating stepped)

/-- An operation that its own assertions let pass; a sample is taken once a capacity is set. -/
def Ready (log : Log) : StatsOp → Prop
  | .clearAllStats => True
  | .setPerThreadSamples samples _ => 0 < samples ∧ samples ≤ maxPerThreadSamples
  | .add _ (.latency _ _) _ => Chosen log
  | .add _ _ _ => True

theorem Holds.completes {atype : AgentType} {log : Log} {state : StatsState} {op : StatsOp} (holds : Holds atype log state)
    (operating : Operating atype log state op) (ready : Ready log op) :
    ∃ after, (statsMachine atype).step state op = .next (after,()) := by
  cases op with
  | clearAllStats => exact ⟨_,rfl⟩
  | setPerThreadSamples samples sr =>
    obtain ⟨low,high⟩ := ready
    refine ⟨{state with sampling := ⟨samples,sr / 100⟩},?_⟩
    rw [statsMachine]
    dsimp only
    rw [setPerThreadSamples,decide_eq_true low,decide_eq_true high]
    rfl
  | add thread call draw =>
    rw [statsMachine]
    dsimp only
    rw [List.getElem?_eq_getElem operating.1]
    dsimp only
    cases call with
    | throughputTx txP => exact ⟨_,rfl⟩
    | throughputRx rxP => exact ⟨_,rfl⟩
    | txTimestamp txTs => exact ⟨_,rfl⟩
    | latency diff tx =>
      have nonzero := holds.bounded.nonzero_iff.mpr (holds.chosen ready)
      rw [ThreadStats.apply,addLatencySample]
      split
      next => exact ⟨_,rfl⟩
      next =>
        dsimp only
        rw [if_neg nonzero]
        exact ⟨_,rfl⟩

/-- The latest samples of a thread, as many as its ring holds. -/
def latest (log : Log) (state : StatsState) (thread : Nat) : List (Int × Option Timespec) :=
  (accepted thread log).drop ((accepted thread log).length - capacity state.sampling)

def retainedCount (log : Log) (state : StatsState) (thread : Nat) : Nat :=
  min (accepted thread log).length (capacity state.sampling)

/-- The aggregate of everything since the last clear. -/
structure Aggregates (log : Log) (state : StatsState) (agg : LatencyStats) : Prop where
  rx : agg.thS.rx = ((recent log).map rxOf).sum
  tx : agg.thS.tx = ((recent log).map txOf).sum
  size : agg.size.toNat = ((List.range state.threads.length).map (retainedCount log state)).sum
  held : ∃ kept : Nat → List LatSample, agg.held.Perm ((List.range state.threads.length).flatMap kept) ∧
    ∀ thread, thread < state.threads.length → List.Forall₂ Records (latest log state thread) (kept thread)

theorem map_range_getElem {α β : Type} (items : List α) (default : α) (f : α → β) :
    items.map f = (List.range items.length).map (fun index => f (items.getD index default)) := by
  apply List.ext_getElem
  · rw [List.length_map,List.length_map,List.length_range]
  · intro index inside _
    rw [List.length_map] at inside
    rw [List.getElem_map,List.getElem_map,List.getElem_range,List.getD_eq_getElem _ _ inside]

def emptyThread : ThreadStats := ⟨.zero,⟨0,fun _ => Timespec.zero⟩⟩

theorem Tally.aggregates {log : Log} {state : StatsState} (tally : Tally log state)
    (few : ∀ thread, thread < state.threads.length → (accepted thread log).length < 2^32)
    (room : ((List.range state.threads.length).map (retainedCount log state)).sum ≤ aggSampleSize) (atype : AgentType)
    (aggStats : LatencyStats) :
    ∃ agg, aggregateLatencySamples atype aggStats (state.threads.map (·.stats)) = .next agg ∧ Aggregates log state agg := by
  have rings : ∀ thread, thread < state.threads.length →
      Rings (capacity state.sampling) (accepted thread log) (state.threads.getD thread emptyThread).stats := by
    intro thread inside
    rw [List.getD_eq_getElem _ _ inside]
    exact tally.rings thread _ (List.getElem?_eq_getElem inside) (few thread inside)
  have sizes : ((state.threads.map (·.stats)).map (·.size.toNat)).sum =
      ((List.range state.threads.length).map (retainedCount log state)).sum := by
    rw [List.map_map,map_range_getElem state.threads emptyThread]
    refine congrArg List.sum (List.map_congr_left fun thread member => ?_)
    exact (rings thread (List.mem_range.mp member)).size
  rw [← sizes] at room
  obtain ⟨agg,aggregated,rx,tx,size,held⟩ := aggregateLatencySamples_next atype aggStats room
  rw [List.map_map] at rx tx
  have keeping : ∀ thread, ∃ kept, thread < state.threads.length →
      (state.threads.getD thread emptyThread).stats.held.Perm kept ∧ List.Forall₂ Records (latest log state thread) kept := by
    intro thread
    by_cases inside : thread < state.threads.length
    · obtain ⟨kept,permuted,records⟩ := (rings thread inside).keeps.held
      rw [← (rings thread inside).size] at permuted
      exact ⟨kept,fun _ => ⟨permuted,records⟩⟩
    · exact ⟨[],fun here => absurd here inside⟩
  choose kept keeps using keeping
  refine ⟨agg,aggregated,rx.trans tally.rx,tx.trans tally.tx,size.trans sizes,kept,?_,fun thread inside => (keeps thread inside).2⟩
  rw [held,List.flatMap_def,List.map_map,map_range_getElem state.threads emptyThread,← List.flatMap_def]
  exact List.Perm.flatMap_left _ fun thread member => (keeps thread (List.mem_range.mp member)).1

theorem no_sample_lost (atype : AgentType) (threads : List ThreadStats) (untouched : Untouched atype threads) (log : Log)
    (state : StatsState) (run : (statsMachine atype).Run (Operating atype) ⟨⟨0,0⟩,threads⟩ log state) :
    (∀ op, Operating atype log state op → Ready log op → ∃ after, (statsMachine atype).step state op = .next (after,())) ∧
      (Cleared log → (∀ thread, thread < state.threads.length → (accepted thread log).length < 2^32) →
        ((List.range state.threads.length).map (retainedCount log state)).sum ≤ aggSampleSize →
          ∀ aggStats, ∃ agg, aggregateLatencySamples atype aggStats (state.threads.map (·.stats)) = .next agg ∧
            Aggregates log state agg) := by
  have holds := holds_run untouched run
  refine ⟨fun op operating ready => holds.completes operating ready,fun cleared few room aggStats => ?_⟩
  exact (holds.tally cleared).aggregates few room atype aggStats

instance (log : Log) : Decidable (RightAfterClear log) := inferInstanceAs (Decidable (_ = true))

instance (atype : AgentType) (log : Log) (state : StatsState) (op : StatsOp) : Decidable (Operating atype log state op) :=
  match op with
  | .clearAllStats => .isTrue trivial
  | .setPerThreadSamples _ _ => inferInstanceAs (Decidable (RightAfterClear log))
  | .add thread (.latency _ _) draw =>
    inferInstanceAs (Decidable (thread < state.threads.length ∧ atype ≠ .throughputAgent ∧ ¬state.sampling.samplingRate < draw))
  | .add thread (.throughputTx _) _ | .add thread (.throughputRx _) _ | .add thread (.txTimestamp _) _ =>
    inferInstanceAs (Decidable (thread < state.threads.length ∧ True))

/-- Three samples on a ring of two, one on another thread and a response. -/
def exampleOps : List StatsOp :=
  [.clearAllStats,.setPerThreadSamples 2 100,.add 0 (.latency 5 none) 0,.add 0 (.latency 6 none) 0,.add 1 (.latency 7 none) 0,
    .add 0 (.latency 8 none) 0,.add 1 (.throughputRx ⟨64,1⟩) 0]

def retainsThree (log : Log) (state : StatsState) : Bool :=
  log.any (fun entry => isClear entry.1) &&
    ((List.range state.threads.length).map (retainedCount log state) == [2,1] &&
      (List.range state.threads.length).all (fun thread => (accepted thread log).length < 2^32))

theorem no_sample_lost_three : ∃ log state,
    (statsMachine .symmetricAgent).Run (Operating .symmetricAgent) ⟨⟨0,0⟩,[emptyThread,emptyThread]⟩ log state ∧
      ∃ agg, aggregateLatencySamples .symmetricAgent .zero (state.threads.map (·.stats)) = .next agg ∧ Aggregates log state agg := by
  obtain ⟨log,state,run,retains⟩ := @Machine.run_of_follow _ _ _ (statsMachine .symmetricAgent) (Operating .symmetricAgent)
    ⟨⟨0,0⟩,[emptyThread,emptyThread]⟩ (fun log state op => decide (Operating .symmetricAgent log state op))
    (fun _ _ _ => of_decide_eq_true) exampleOps (fun ended => retainsThree ended.1 ended.2) (by decide +kernel)
  rw [retainsThree,Bool.and_eq_true,Bool.and_eq_true] at retains
  obtain ⟨cleared,counts,few⟩ := retains
  have untouched : Untouched .symmetricAgent [emptyThread,emptyThread] := fun throughput => nomatch throughput
  have cleared : Cleared log := by
    obtain ⟨⟨op,_⟩,member,clear⟩ := List.any_eq_true.mp cleared
    cases op with
    | clearAllStats => exact ⟨_,member,rfl⟩
    | setPerThreadSamples samples sr => cases clear
    | add thread call draw => cases clear
  refine ⟨log,state,run,(no_sample_lost .symmetricAgent _ untouched log state run).2 cleared ?_ ?_ .zero⟩
  · exact fun thread inside => of_decide_eq_true (List.all_eq_true.mp few thread (List.mem_range.mpr inside))
  · rw [eq_of_beq counts]
    decide

end Lancet.Aggregation
