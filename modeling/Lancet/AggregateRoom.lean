import Lancet.ManagerSafety

/-! Whether the aggregate buffer has room for what all threads may keep. -/
namespace Lancet.AggregateRoom
open Foundation Agent Stats Aggregation ManagerSafety
open Manager (perThreadSamples)

theorem not_lt_self (x : Float) : ¬x < x := by
  have same : ∀ unpacked : Float.Model.UnpackedFloat, unpacked.lt unpacked = false := by
    intro unpacked
    cases unpacked with
    | notANumber => rfl
    | infinity sign => cases sign <;> rfl
    | zero sign => rfl
    | finite sign mantissa exponent positive =>
      cases sign <;> simp [Float.Model.UnpackedFloat.lt,Float.Model.UnpackedFloat.compare]
  intro less
  have compared : x.toModel.unpack.lt x.toModel.unpack = true := of_decide_eq_true less
  rw [same] at compared
  cases compared

/-- The worker threads record while the manager thread waits. -/
def Adding : Machine.Environment StatsState StatsOp Unit := fun _ _ op => ∃ thread call draw, op = .add thread call draw

/-- A thread keeps no more samples than it may. -/
def Within (threads capacity : Nat) (state : StatsState) : Prop :=
  state.threads.length = threads ∧ Aggregation.capacity state.sampling = capacity ∧ Bounded state.sampling ∧
    ∀ thread ∈ state.threads, thread.stats.size.toNat ≤ capacity

theorem addLatencySample_size {sampling : Sampling} {measure : Bool} {draw : Float} {stats after : LatencyStats} {diff : Int}
    {tx : Option Timestamping.Timespec} (bounded : Bounded sampling) (within : stats.size.toNat ≤ capacity sampling)
    (added : addLatencySample measure sampling draw stats diff tx = .next after) : after.size.toNat ≤ capacity sampling := by
  have word := bounded.capacity_word
  rw [addLatencySample] at added
  split at added
  next =>
    cases added
    exact within
  next =>
    dsimp only at added
    split at added
    next => cases added
    next =>
      cases added
      dsimp only
      split
      next => exact word.le
      next below => exact (Nat.not_lt.mp below).trans word.le

theorem within_run {atype : AgentType} {start state : StatsState} {threads capacity : Nat} {log : Log}
    (within : Within threads capacity start) (run : (statsMachine atype).Run Adding start log state) :
    Within threads capacity state := by
  refine @Machine.Run.invariant _ _ _ _ _ _ (fun _ state => Within threads capacity state) within ?_ log state run
  rintro log before _ after output ⟨length,same,bounded,sizes⟩ ⟨thread,call,draw,rfl⟩ stepped
  rw [statsMachine] at stepped
  dsimp only at stepped
  split at stepped
  next =>
    cases stepped
    exact ⟨length,same,bounded,sizes⟩
  next stats held =>
    obtain ⟨stats',applied,returned⟩ := Outcome.bind_next stepped
    cases returned
    refine ⟨(List.length_set ..).trans length,same,bounded,fun other inside => ?_⟩
    rcases List.mem_or_eq_of_mem_set inside with old | rfl
    · exact sizes other old
    · have before := sizes stats (List.mem_of_getElem? held)
      obtain ⟨-,-,⟨diff,tx,-,added⟩ | ⟨-,-,size,-⟩⟩ := apply_spec thread applied
      · rw [← same] at before ⊢
        exact addLatencySample_size bounded before added
      · rwa [size]

section Fill
variable {atype : AgentType} {start : StatsState} {log : Log} {state : StatsState}

def anySample : Int × Option Timestamping.Timespec := (0,none)

theorem add_sample {thread : Nat} {before : ThreadStats} (samples : List (Int × Option Timestamping.Timespec))
    (bounded : Bounded state.sampling) (positive : 0 < state.sampling.perThreadSamples)
    (held : state.threads[thread]? = some before) (rings : Rings (capacity state.sampling) samples before.stats)
    (few : samples.length + 1 < 2^32) : ∃ stats, Rings (capacity state.sampling) (samples ++ [anySample]) stats ∧
      (statsMachine atype).step state (.add thread (.latency 0 none) state.sampling.samplingRate) =
        .next ({state with threads := state.threads.set thread {before with stats := stats}},()) := by
  have drawn := not_lt_self state.sampling.samplingRate
  have nonzero := bounded.nonzero_iff.mpr positive
  have accepts : (!true || decide (state.sampling.samplingRate < state.sampling.samplingRate)) = false := by
    rw [decide_eq_false drawn]
    rfl
  have added : ∃ stats, addLatencySample true state.sampling state.sampling.samplingRate before.stats 0 none = .next stats := by
    rw [addLatencySample,accepts,if_neg Bool.false_ne_true]
    dsimp only
    rw [if_neg nonzero]
    exact ⟨_,rfl⟩
  obtain ⟨stats,added⟩ := added
  refine ⟨stats,rings.accept bounded drawn (by simpa using few) added,?_⟩
  rw [statsMachine]
  dsimp only
  rw [held]
  dsimp only
  rw [ThreadStats.apply,added]
  rfl

/-- One thread records until its ring is full. -/
theorem fill_thread {thread : Nat} {before : ThreadStats} (bounded : Bounded state.sampling)
    (positive : 0 < state.sampling.perThreadSamples) (run : (statsMachine atype).Run Adding start log state)
    (held : state.threads[thread]? = some before) (empty : Rings (capacity state.sampling) [] before.stats)
    (count : Nat) (most : count ≤ capacity state.sampling) :
    ∃ log' after, Rings (capacity state.sampling) (List.replicate count anySample) after.stats ∧
      (statsMachine atype).Run Adding start log' {state with threads := state.threads.set thread after} := by
  induction count with
  | zero =>
    obtain ⟨inside,rfl⟩ := List.getElem?_eq_some_iff.mp held
    have same : state.threads.set thread state.threads[thread] = state.threads := List.set_getElem_self inside
    exact ⟨log,_,empty,by rwa [same]⟩
  | succ count ih =>
    obtain ⟨log',after,rings,run'⟩ := ih (by omega)
    have inside := (List.getElem?_eq_some_iff.mp held).1
    have few : count + 1 < 2^32 := by
      have high := bounded.2
      rw [maxPerThreadSamples] at high
      rw [capacity] at most
      omega
    obtain ⟨stats,rings',stepped⟩ := @add_sample atype {state with threads := state.threads.set thread after} thread after
      (List.replicate count anySample) bounded positive (List.getElem?_set_self inside) rings (by simpa using few)
    rw [← List.replicate_succ'] at rings'
    dsimp only at stepped
    rw [List.set_set] at stepped
    exact ⟨_,_,rings',run'.snoc ⟨_,_,_,rfl⟩ stepped⟩

/-- One thread after the other does. -/
theorem fill_threads (bounded : Bounded state.sampling) (positive : 0 < state.sampling.perThreadSamples)
    (run : (statsMachine atype).Run Adding start log state)
    (empty : ∀ thread ∈ state.threads, Rings (capacity state.sampling) [] thread.stats) (count : Nat)
    (most : count ≤ state.threads.length) :
    ∃ log' state', (statsMachine atype).Run Adding start log' state' ∧ state'.sampling = state.sampling ∧
      state'.threads.length = state.threads.length ∧
      (∀ thread ∈ state'.threads.take count, thread.stats.size.toNat = capacity state.sampling) ∧
      state'.threads.drop count = state.threads.drop count := by
  induction count with
  | zero => exact ⟨log,state,run,rfl,rfl,by simp,rfl⟩
  | succ count ih =>
    obtain ⟨log',state',run',sampling,length,full,rest⟩ := ih (by omega)
    have inside : count < state'.threads.length := by omega
    have next : state'.threads[count] = state.threads[count] := by
      have first := congrArg List.head? rest
      rw [List.head?_drop,List.head?_drop,List.getElem?_eq_getElem inside,List.getElem?_eq_getElem (by omega)] at first
      exact Option.some.inj first
    have empty' : Rings (capacity state'.sampling) [] state'.threads[count].stats := by
      rw [sampling,next]
      exact empty _ (List.getElem_mem _)
    obtain ⟨log'',after,rings,run''⟩ := fill_thread (sampling ▸ bounded) (sampling ▸ positive) run'
      (List.getElem?_eq_getElem inside) empty' (capacity state'.sampling) (le_refl _)
    refine ⟨log'',_,run'',sampling,?_,?_,?_⟩
    · dsimp only
      rw [List.length_set,length]
    · intro thread listed
      dsimp only at listed
      rw [List.take_succ_eq_append_getElem (by rwa [List.length_set]),List.getElem_set_self,List.take_set_of_le (le_refl _),
        List.mem_append,List.mem_singleton] at listed
      rcases listed with earlier | rfl
      · exact full thread earlier
      · have size := rings.size
        rw [List.length_replicate,Nat.min_self,sampling] at size
        exact size
    · dsimp only
      rw [List.drop_set_of_lt (by omega),← List.drop_drop,rest,List.drop_drop]

end Fill

/-- What the aggregation needs of a measurement from its start: whatever the threads record, it writes inside its buffer. -/
def Fits (atype : AgentType) (sampling : Sampling) (threads : List ThreadStats) : Prop :=
  ∀ log state, (statsMachine atype).Run Adding ⟨sampling,threads⟩ log state →
    ∀ aggStats, ∃ agg, aggregateLatencySamples atype aggStats (state.threads.map (·.stats)) = .next agg

section Room
variable {atype : AgentType} {sampling : Sampling} {threads : List ThreadStats}

theorem Fits.room (fits : Fits atype sampling threads) (bounded : Bounded sampling) (positive : 0 < sampling.perThreadSamples)
    (empty : ∀ thread ∈ threads, Rings (capacity sampling) [] thread.stats) :
    threads.length * capacity sampling ≤ aggSampleSize := by
  obtain ⟨log,state,run,-,length,full,-⟩ := @fill_threads atype _ [] ⟨sampling,threads⟩ bounded positive .nil empty threads.length
    (le_refl _)
  obtain ⟨agg,aggregated⟩ := fits log state run .zero
  have room := aggregateFrom_room (Nat.zero_le _) aggregated
  rw [Nat.zero_add,List.map_map] at room
  dsimp only at length full
  rw [← length,List.take_length] at full
  have sizes : state.threads.map ((fun stats => stats.size.toNat) ∘ fun thread => thread.stats) =
      List.replicate state.threads.length (capacity sampling) :=
    List.map_eq_replicate_iff.mpr full
  rwa [sizes,List.sum_replicate,smul_eq_mul,length] at room

theorem fits_of_room (bounded : Bounded sampling) (empty : ∀ thread ∈ threads, Rings (capacity sampling) [] thread.stats)
    (room : threads.length * capacity sampling ≤ aggSampleSize) : Fits atype sampling threads := by
  intro log state run aggStats
  have within : Within threads.length (capacity sampling) ⟨sampling,threads⟩ := by
    refine ⟨rfl,rfl,bounded,fun thread listed => ?_⟩
    rw [(empty thread listed).size]
    exact Nat.min_le_right _ _
  obtain ⟨length,-,-,sizes⟩ := within_run within run
  have total : ((state.threads.map (·.stats)).map (·.size.toNat)).sum ≤ aggSampleSize := by
    rw [List.map_map]
    have each := List.sum_le_card_nsmul (state.threads.map ((fun stats => stats.size.toNat) ∘ fun thread => thread.stats))
      (capacity sampling) (by
        intro size listed
        obtain ⟨thread,inside,rfl⟩ := List.mem_map.mp listed
        exact sizes thread inside)
    rw [List.length_map,length,smul_eq_mul] at each
    exact each.trans room
  obtain ⟨agg,aggregated,-⟩ := aggregateLatencySamples_next atype aggStats total
  exact ⟨agg,aggregated⟩

theorem setPerThreadSamples_capacity {samples : Int} {sr : Float} (accepted : setPerThreadSamples samples sr = .next sampling) :
    capacity sampling = samples.toNat := by
  obtain ⟨_,-,accepted⟩ := Outcome.bind_next accepted
  obtain ⟨_,-,returned⟩ := Outcome.bind_next accepted
  cases returned
  rfl

theorem cleared_rings (capacity : Nat) (recording : atype ≠ .throughputAgent) (threads : List ThreadStats) :
    ∀ thread ∈ threads.map (clearThread atype), Rings capacity [] thread.stats := by
  intro _ listed
  obtain ⟨thread,-,rfl⟩ := List.mem_map.mp listed
  have never : atype = .throughputAgent → thread.stats.count = 0 ∧ thread.stats.size = 0 :=
    fun throughput => absurd throughput recording
  obtain ⟨-,count,size⟩ := clearThread_spec never
  exact .cleared _ count size

end Room

/-- There is room for every recording just when there is room for full rings. -/
theorem aggregate_inside_iff (atype : AgentType) (recording : atype ≠ .throughputAgent) (threads : List ThreadStats)
    (samples : Int) (sr : Float) (sampling : Sampling)
    (accepted : setPerThreadSamples (perThreadSamples samples threads.length) sr = .next sampling) :
    Fits atype sampling (threads.map (clearThread atype)) ↔
      threads.length * (perThreadSamples samples threads.length).toNat ≤ aggSampleSize := by
  obtain ⟨positive,bounded⟩ := setPerThreadSamples_spec accepted
  have empty := cleared_rings (capacity sampling) recording threads
  rw [← setPerThreadSamples_capacity accepted]
  constructor
  · intro fits
    have room := fits.room bounded positive empty
    rwa [List.length_map] at room
  · intro room
    exact fits_of_room bounded empty (by rwa [List.length_map])

theorem aggregate_inside_two : Fits .symmetricAgent ⟨5050,100 / 100⟩ ([emptyThread,emptyThread].map (clearThread .symmetricAgent)) :=
  (aggregate_inside_iff .symmetricAgent (by decide) [emptyThread,emptyThread] 10000 100 ⟨5050,100 / 100⟩ (by decide +kernel)).mpr
    (by decide +kernel)

/-- Sixteen threads that share 2^20 samples may each keep one percent more. -/
theorem sixteen_threads_overflow : setPerThreadSamples (perThreadSamples 1048576 16) 100 = .next ⟨66191,100 / 100⟩ ∧
    ¬Fits .symmetricAgent ⟨66191,100 / 100⟩ ((List.replicate 16 emptyThread).map (clearThread .symmetricAgent)) := by
  have accepted : setPerThreadSamples (perThreadSamples 1048576 16) 100 = .next ⟨66191,100 / 100⟩ := by decide +kernel
  refine ⟨accepted,fun fits => ?_⟩
  obtain ⟨positive,bounded⟩ := setPerThreadSamples_spec accepted
  have room := fits.room bounded positive (cleared_rings _ (by decide) _)
  revert room
  decide

end Lancet.AggregateRoom
