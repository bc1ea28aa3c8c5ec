import Lancet.FixedLoop
import Lancet.Foundation.Sums
import Lancet.Manager
import Lancet.Percentiles
import Lancet.SortOrders

/-! The interval check of the fixed pattern, over the percentiles that the agents computed
and the coordinator averaged. -/
namespace Lancet.IntervalGate
open Foundation CoordProto Proto Timestamping Stats Manager Patterns FixedLoop CiBounds Percentiles SortOrders

/-- What an agent has aggregated: `aggregate_latency_samples` leaves zeros after the samples. -/
structure Buffer (stats : LatencyStats) : Prop where
  filled : 0 < stats.size.toNat
  bounded : stats.size.toNat ≤ aggSampleSize
  cleared : ∀ index, stats.size.toNat ≤ index → stats.samples index = .zero

structure Aggregated (agents : List LatencyStats) : Prop where
  nonempty : agents ≠ []
  slice : agents.length < 2^63
  buffers : ∀ stats ∈ agents, Buffer stats

def Measured (qsort : Qsort) (agents : List LatencyStats) (replies : List LatencyReply) : Prop :=
  List.Forall₂ (fun stats reply => ∃ computed duration, computeLatencyPercentilesCi Float qsort stats = .next computed ∧
    reply = latencyData computed duration) agents replies

/-- The iteration that receives these replies is the loop's last. -/
def Passed (plan : Plan) (replies : List LatencyReply) : Prop :=
  ∃ loop loop' results iteration, results.result = replies ∧
    (fixedSymRun plan).step loop (.latency results) = .next (loop',iteration) ∧ loop'.state = .exit

def Ordered (aggLat : LatencyReply) (ciSize : Int) : Prop :=
  aggLat.p99I ≤ aggLat.p99 ∧ aggLat.p99 ≤ aggLat.p99K ∧ (aggLat.p99K.toNat : Int) - aggLat.p99I.toNat ≤ ciSize * 1000

def Sound (qsort : Qsort) (plan : Plan) (agents : List LatencyStats) : Prop :=
  ∀ replies, Measured qsort agents replies → Passed plan replies → Ordered (averageLatency replies) plan.ciSize

/-- So it is in every experiment with these samples. -/
def AlwaysSound (agents : List LatencyStats) : Prop := ∀ qsort plan, 0 ≤ plan.ciSize → Sound qsort plan agents

/-- The latency at an index once the samples ascend; there is none behind the last one. -/
def rankedLatency (stats : LatencyStats) (index : UInt32) : Nat :=
  ((stats.held.map (·.nsec.toNat)).insertionSort (· ≤ ·)).getD index.toNat 0

def lowerLatency (stats : LatencyStats) : Nat := rankedLatency stats (getCiBounds stats.size.toNat (0.99 : Float)).i

def upperLatency (stats : LatencyStats) : Nat := rankedLatency stats (getCiBounds stats.size.toNat (0.99 : Float)).k

/-- No two latencies have a difference that `sample_cmp_latency` turns over. -/
def Comparable (stats : LatencyStats) : Prop := ∀ a ∈ stats.held, ∀ b ∈ stats.held, b.nsec < a.nsec → Signed a.nsec b.nsec

/-- The sum of the upper latencies fits into a word, and the width of the averaged interval into an `int`. -/
structure Averaged (agents : List LatencyStats) : Prop where
  room : (agents.map upperLatency).sum < 2^64
  near : (agents.map upperLatency).sum / agents.length < (agents.map lowerLatency).sum / agents.length + 2^63

/-- What the agents must hold for the check to mean what it says. -/
def Gated (agents : List LatencyStats) : Prop :=
  (∃ stats ∈ agents, stats.size.toNat < 4) ∨ (∀ stats ∈ agents, ∀ sample ∈ stats.held, sample.nsec = 0) ∨
    ((∀ stats ∈ agents, 726 ≤ stats.size.toNat ∧ Comparable stats) ∧ Averaged agents)

/-- The agents hold that many samples each, an agent's latencies lie no further apart than `spread`, and
those at the upper indices add up to `total` at most. -/
def Within (sizes : List Nat) (spread total : Nat) (agents : List LatencyStats) : Prop :=
  List.Forall₂ (fun size stats => Buffer stats ∧ stats.size.toNat = size ∧
    ∀ a ∈ stats.held, ∀ b ∈ stats.held, a.nsec.toNat ≤ b.nsec.toNat + spread) sizes agents ∧
  (agents.map upperLatency).sum ≤ total

/-- Bounds in which every agent may hold any latencies up to the spread. -/
structure Attainable (sizes : List Nat) (spread total : Nat) : Prop where
  nonempty : sizes ≠ []
  slice : sizes.length < 2^63
  each : ∀ size ∈ sizes, 0 < size ∧ size ≤ aggSampleSize
  varying : 0 < spread
  least : sizes.length * spread ≤ total
  most : total ≤ sizes.length * (2^64 - 1)

def Gates (sizes : List Nat) (spread total : Nat) : Prop :=
  (∃ size ∈ sizes, size < 4) ∨ ((∀ size ∈ sizes, 726 ≤ size) ∧ spread < 2^31 ∧ total < 2^64)

section Passing
variable {plan : Plan} {replies : List LatencyReply}

theorem passed_check (passed : Passed plan replies) : intervalExceeds (averageLatency replies) plan.ciSize = false := by
  obtain ⟨loop,loop',results,iteration,rfl,stepped,exits⟩ := passed
  obtain ⟨⟨-,waiting⟩,same,-,-,-⟩ := judges_step stepped
  dsimp only at waiting
  by_contra exceeds
  rw [same,verdict,latencyVerdict,Bool.eq_true_of_not_eq_false exceeds,Bool.or_true,if_pos rfl] at exits
  split at exits
  all_goals
    rw [judged,waiting] at exits
    cases exits

theorem passed_of_check (counted : UInt64.ofNat replies.length ≠ 0)
    (inside : intervalExceeds (averageLatency replies) plan.ciSize = false) : Passed plan replies := by
  let loop : Loop := ⟨.waitForLatency,initialSamples,initialSamplingRate,initialSamplingRate,0⟩
  let results : LatencyResults := ⟨replies,[],[],[]⟩
  have printed : latencyVerdict plan results = .printed := by
    rw [latencyVerdict,if_neg (by simp [results]),inside]
    rfl
  have judges : Go.Triple (Counts 0) (latencyPass plan loop results)
      (fun loop' screen => loop' = judged plan loop (latencyVerdict plan results) ∧
        Announces 0 screen (latencyVerdict plan results) (.latency results)) (fun _ => False) :=
    latencyPass_judged plan loop results fun zero _ => counted zero
  have ended := judges.ends [] rfl
  have stepped := @step_latency plan loop (by decide) rfl results
  rw [ran] at stepped
  generalize latencyPass plan loop results [] = outcome at ended stepped
  rcases outcome with ⟨loop' | _ | _ | _,lines⟩
  · refine ⟨loop,loop',results,_,rfl,stepped,?_⟩
    rw [ended.1,printed]
    rfl
  all_goals exact False.elim ended

end Passing

section Averages
variable {replies : List LatencyReply} (field : LatencyReply → UInt64)

theorem fold_field (adds : ∀ agg reply, field (addLatency agg reply) = field agg + field reply) (agg : LatencyReply) :
    field (replies.foldl addLatency agg) = field agg + (replies.map field).sum := by
  induction replies generalizing agg with
  | nil => simp
  | cons reply rest ih =>
    rw [List.foldl_cons,ih,adds,List.map_cons,List.sum_cons,UInt64.add_assoc]

theorem average_field (adds : ∀ agg reply, field (addLatency agg reply) = field agg + field reply)
    (divides : ∀ agg count, field (divLatency agg count) = field agg / count) (zero : field LatencyReply.zero = 0)
    (slice : replies.length < 2^64) :
    (field (averageLatency replies)).toNat = (replies.map (fun reply => (field reply).toNat)).sum % 2^64 / replies.length := by
  rw [averageLatency,divides,fold_field field adds,zero,UInt64.zero_add,UInt64.toNat_div,sum_word,List.map_map,
    UInt64.toNat_ofNat',Nat.mod_eq_of_lt slice]
  rfl

theorem average_p99I (slice : replies.length < 2^64) : (averageLatency replies).p99I.toNat =
    (replies.map (fun reply => reply.p99I.toNat)).sum % 2^64 / replies.length :=
  average_field _ (fun _ _ => rfl) (fun _ _ => rfl) rfl slice

theorem average_p99 (slice : replies.length < 2^64) : (averageLatency replies).p99.toNat =
    (replies.map (fun reply => reply.p99.toNat)).sum % 2^64 / replies.length :=
  average_field _ (fun _ _ => rfl) (fun _ _ => rfl) rfl slice

theorem average_p99K (slice : replies.length < 2^64) : (averageLatency replies).p99K.toNat =
    (replies.map (fun reply => reply.p99K.toNat)).sum % 2^64 / replies.length :=
  average_field _ (fun _ _ => rfl) (fun _ _ => rfl) rfl slice

/-- The bounds of a reply are in order. -/
structure InOrder (reply : LatencyReply) : Prop where
  lower : reply.p99I.toNat ≤ reply.p99.toNat
  upper : reply.p99.toNat ≤ reply.p99K.toNat

/-- Where the sum of the upper bounds is kept, all three are averaged as plain numbers. -/
theorem average_ordered (slice : replies.length < 2^64) (each : ∀ reply ∈ replies, InOrder reply)
    (room : (replies.map (fun reply => reply.p99K.toNat)).sum < 2^64) : InOrder (averageLatency replies) ∧
      (averageLatency replies).p99I.toNat = (replies.map (fun reply => reply.p99I.toNat)).sum / replies.length ∧
      (averageLatency replies).p99K.toNat = (replies.map (fun reply => reply.p99K.toNat)).sum / replies.length := by
  have lower := List.sum_le_sum fun reply inside => (each reply inside).lower
  have upper := List.sum_le_sum fun reply inside => (each reply inside).upper
  have averageI := average_p99I slice
  have average := average_p99 slice
  have averageK := average_p99K slice
  rw [Nat.mod_eq_of_lt (by omega)] at averageI average averageK
  refine ⟨⟨?_,?_⟩,averageI,averageK⟩
  · rw [averageI,average]
    exact Nat.div_le_div_right lower
  · rw [average,averageK]
    exact Nat.div_le_div_right upper

end Averages

section Enough
variable {qsort : Qsort} {plan : Plan} {stats computed : LatencyStats} {agents : List LatencyStats} {replies : List LatencyReply}

theorem comparable_ascending (qsort : Qsort) (comparable : Comparable stats) :
    Ascending (·.nsec) (qsort.sort sampleCmpLatency stats.held) stats.held := by
  have narrow : Narrow (stats.held.map (·.nsec)) := by
    intro _ listedA _ listedB less
    obtain ⟨a,inA,rfl⟩ := List.mem_map.mp listedA
    obtain ⟨b,inB,rfl⟩ := List.mem_map.mp listedB
    exact comparable a inA b inB less
  have sorts := (keyed_sorts_iff (fun sample : LatSample => sample.nsec) stats.held).mpr narrow
  rw [← sampleCmpLatency_eq] at sorts
  exact sorts qsort

/-- An ascending array is the sorted one. -/
theorem ascending_rank {index : UInt32} (ascending : Ascending (·.nsec) (qsort.sort sampleCmpLatency stats.held) stats.held)
    (inside : index.toNat < stats.size.toNat) :
    (sortedSamples qsort stats index.toNat).nsec.toNat = rankedLatency stats index := by
  have ordered : ((qsort.sort sampleCmpLatency stats.held).map (·.nsec.toNat)).Pairwise (· ≤ ·) := by
    rw [List.pairwise_map]
    exact ascending.2.imp fun less => less
  have same : (qsort.sort sampleCmpLatency stats.held).map (·.nsec.toNat) =
      (stats.held.map (·.nsec.toNat)).insertionSort (· ≤ ·) :=
    List.Perm.eq_of_pairwise (fun _ _ _ _ => Nat.le_antisymm) ordered (List.pairwise_insertionSort _ _)
      ((ascending.1.map _).trans (List.perm_insertionSort _ _).symm)
  rw [rankedLatency,← same,List.getD_eq_getElem?_getD,List.getElem?_map,sortedSamples_inside qsort inside]
  rfl

/-- A reply has its bounds in order, and they are the ones that are expected of its agent. -/
structure Expected (low high : Nat) (reply : LatencyReply) : Prop where
  ordered : InOrder reply
  lower : reply.p99I.toNat = low
  upper : reply.p99K.toNat = high

theorem computed_expected (duration : Int) (bounded : stats.size.toNat ≤ aggSampleSize) (enough : 726 ≤ stats.size.toNat)
    (comparable : Comparable stats) (computes : computeLatencyPercentilesCi Float qsort stats = .next computed) :
    Expected (lowerLatency stats) (upperLatency stats) (latencyData computed duration) := by
  obtain ⟨same,next,lower,value,upper⟩ := percentiles_computed qsort (show 4 ≤ stats.size.toNat by omega) bounded
  rw [computes] at next
  cases next
  obtain ⟨below,above,-⟩ := getCiBounds_indices level99 (show 4 ≤ stats.size.toNat by omega) bounded
  have inside : (getCiBounds stats.size.toNat (0.99 : Float)).k.toNat < stats.size.toNat := by
    have outside := getCiBounds_outside (show 4 ≤ stats.size.toNat by omega) bounded
    omega
  have ascending := comparable_ascending qsort comparable
  refine ⟨⟨?_,?_⟩,?_,?_⟩
  · rw [latencyData,lower,value]
    exact sortedSamples_ascending qsort ascending.2 below (above.trans inside)
  · rw [latencyData,value,upper]
    exact sortedSamples_ascending qsort ascending.2 above.le inside
  · rw [latencyData,lower]
    exact ascending_rank ascending (by omega)
  · rw [latencyData,upper]
    exact ascending_rank ascending inside

/-- Where every latency is zero there is nothing to put in order. -/
theorem computed_zero (duration : Int) (buffer : Buffer stats) (zero : ∀ sample ∈ stats.held, sample.nsec = 0)
    (computes : computeLatencyPercentilesCi Float qsort stats = .next computed) :
    Expected 0 0 (latencyData computed duration) := by
  have enough : 4 ≤ stats.size.toNat := by
    by_contra few
    rw [few_fault qsort (Nat.lt_of_not_le few)] at computes
    cases computes
  obtain ⟨same,next,lower,value,upper⟩ := percentiles_computed qsort enough buffer.bounded
  rw [computes] at next
  cases next
  have blank (index : Nat) : (sortedSamples qsort stats index).nsec = 0 := by
    by_cases inside : index < stats.size.toNat
    · exact zero _ (sortedSamples_held qsort inside)
    · have outside : (qsort.sort sampleCmpLatency stats.held)[index]? = none := by
        rw [List.getElem?_eq_none_iff,qsort.length,held_length]
        omega
      rw [sortedSamples,outside,Option.getD_none,buffer.cleared index (by omega)]
      rfl
  rw [blank] at lower value upper
  refine ⟨⟨?_,?_⟩,?_,?_⟩
  · rw [latencyData,lower,value]
  · rw [latencyData,value,upper]
  · rw [latencyData,lower]
    rfl
  · rw [latencyData,upper]
    rfl

/-- What is expected of each agent's reply, is expected of their sums. -/
theorem measured_all {low high : LatencyStats → Nat} (measured : Measured qsort agents replies)
    (each : ∀ stats ∈ agents, ∀ computed duration, computeLatencyPercentilesCi Float qsort stats = .next computed →
      Expected (low stats) (high stats) (latencyData computed duration)) :
    (∀ reply ∈ replies, InOrder reply) ∧ (replies.map (fun reply => reply.p99I.toNat)).sum = (agents.map low).sum ∧
      (replies.map (fun reply => reply.p99K.toNat)).sum = (agents.map high).sum := by
  induction measured with
  | nil => simp
  | cons first rest ih =>
    obtain ⟨computed,duration,computes,rfl⟩ := first
    obtain ⟨here,later⟩ := List.forall_mem_cons.mp each
    obtain ⟨ordered,lower,upper⟩ := here computed duration computes
    obtain ⟨following,totalI,totalK⟩ := ih later
    refine ⟨List.forall_mem_cons.mpr ⟨ordered,following⟩,?_,?_⟩
    · rw [List.map_cons,List.sum_cons,List.map_cons,List.sum_cons,lower,totalI]
    · rw [List.map_cons,List.sum_cons,List.map_cons,List.sum_cons,upper,totalK]

theorem wrap_below {value : Int} (nonneg : 0 ≤ value) : wrap value ≤ value := by
  rw [wrap,Int.bmod]
  omega

theorem check_ordered {aggLat : LatencyReply} {ciSize : Int} (ordered : InOrder aggLat)
    (near : aggLat.p99K.toNat < aggLat.p99I.toNat + 2^63) (nonneg : 0 ≤ ciSize)
    (inside : intervalExceeds aggLat ciSize = false) : Ordered aggLat ciSize := by
  obtain ⟨lower,upper⟩ := ordered
  have limit := wrap_below (show 0 ≤ ciSize * 1000 by omega)
  have checked : wrap (aggLat.p99K - aggLat.p99I).toNat ≤ wrap (ciSize * 1000) := by simpa [intervalExceeds] using inside
  have width : (aggLat.p99K - aggLat.p99I).toNat = aggLat.p99K.toNat - aggLat.p99I.toNat :=
    UInt64.toNat_sub_of_le _ _ (lower.trans upper)
  have same : wrap (aggLat.p99K - aggLat.p99I).toNat = (aggLat.p99K.toNat : Int) - aggLat.p99I.toNat := by
    rw [width,wrap,Int.bmod]
    omega
  refine ⟨lower,upper,?_⟩
  rw [← same]
  exact checked.trans limit

theorem sound_of_expected {low high : LatencyStats → Nat} (aggregated : Aggregated agents)
    (each : ∀ stats ∈ agents, ∀ computed duration, computeLatencyPercentilesCi Float qsort stats = .next computed →
      Expected (low stats) (high stats) (latencyData computed duration))
    (room : (agents.map high).sum < 2^64)
    (near : (agents.map high).sum / agents.length < (agents.map low).sum / agents.length + 2^63) (nonneg : 0 ≤ plan.ciSize) :
    Sound qsort plan agents := by
  intro replies measured passed
  obtain ⟨ordered,totalI,totalK⟩ := measured_all measured each
  have length : agents.length = replies.length := measured.length_eq
  have slice := aggregated.slice
  obtain ⟨average,averageI,averageK⟩ := average_ordered (by omega) ordered (totalK ▸ room)
  refine check_ordered average ?_ nonneg (passed_check passed)
  rw [averageI,averageK,totalI,totalK,← length]
  exact near

/-- An agent with fewer than four samples has no percentiles to send. -/
theorem sound_of_few (few : ∃ stats ∈ agents, stats.size.toNat < 4) : Sound qsort plan agents := by
  intro replies measured
  exfalso
  induction measured with
  | nil => simp at few
  | cons first rest ih =>
    obtain ⟨computed,duration,computes,-⟩ := first
    obtain ⟨stats,listed,less⟩ := few
    rcases List.mem_cons.mp listed with rfl | later
    · rw [few_fault qsort less] at computes
      cases computes
    · exact ih ⟨stats,later,less⟩

theorem Gated.sound (gated : Gated agents) (aggregated : Aggregated agents) : AlwaysSound agents := by
  intro qsort plan nonneg
  rcases gated with few | zero | ⟨each,averaged⟩
  · exact sound_of_few few
  · refine @sound_of_expected qsort plan agents (fun _ => 0) (fun _ => 0) aggregated ?_ (by simp) (by simp) nonneg
    intro stats listed computed duration computes
    exact computed_zero duration (aggregated.buffers stats listed) (zero stats listed) computes
  · refine sound_of_expected aggregated ?_ averaged.room averaged.near nonneg
    intro stats listed computed duration computes
    obtain ⟨enough,comparable⟩ := each stats listed
    exact computed_expected duration (aggregated.buffers stats listed).bounded enough comparable computes

end Enough

/-- An agent whose samples are `low` up to the percentile's own and `high` after it. -/
structure Shape where
  low : UInt64
  high : UInt64
  size : Nat

namespace Shape

def stats (shape : Shape) : LatencyStats :=
  {LatencyStats.zero with
    size := UInt32.ofNat shape.size
    samples := fun index =>
      if index ≤ shape.size * 99 / 100 then ⟨shape.low,Timespec.zero⟩
      else if index < shape.size then ⟨shape.high,Timespec.zero⟩ else .zero}

/-- The agent replies, and `sample_cmp_latency` leaves the two latencies where they are. -/
structure Fair (shape : Shape) : Prop where
  enough : 4 ≤ shape.size
  bounded : shape.size ≤ aggSampleSize
  stays : toInt (shape.low - shape.high).toNat ≤ 0

/-- The upper bound that the agent replies with. -/
def top (shape : Shape) : Nat := if 726 ≤ shape.size then shape.high.toNat else 0

variable {shape : Shape}

theorem stats_size (bounded : shape.size ≤ aggSampleSize) : shape.stats.size.toNat = shape.size := by
  rw [aggSampleSize] at bounded
  rw [stats,UInt32.toNat_ofNat']
  omega

theorem stats_buffer (filled : 0 < shape.size) (bounded : shape.size ≤ aggSampleSize) : Buffer shape.stats := by
  have count := stats_size bounded
  refine ⟨count.symm ▸ filled,count.symm ▸ bounded,?_⟩
  intro index outside
  rw [count] at outside
  rw [stats]
  dsimp only
  rw [if_neg (by omega),if_neg (by omega)]

theorem stats_held (bounded : shape.size ≤ aggSampleSize) :
    ∀ sample ∈ shape.stats.held, sample.nsec = shape.low ∨ sample.nsec = shape.high := by
  intro sample inside
  rw [LatencyStats.held,List.mem_map] at inside
  obtain ⟨index,range,rfl⟩ := inside
  rw [List.mem_range,stats_size bounded] at range
  rw [stats]
  dsimp only
  split
  · exact .inl rfl
  · exact .inr rfl

theorem stats_most {most : Nat} (bounded : shape.size ≤ aggSampleSize) (low : shape.low.toNat ≤ most)
    (high : shape.high.toNat ≤ most) : ∀ sample ∈ shape.stats.held, sample.nsec.toNat ≤ most := by
  intro sample inside
  rcases stats_held bounded sample inside with same | same
  · rwa [same]
  · rwa [same]

theorem stats_near {spread : Nat} (bounded : shape.size ≤ aggSampleSize) (above : shape.low.toNat ≤ shape.high.toNat + spread)
    (below : shape.high.toNat ≤ shape.low.toNat + spread) :
    ∀ a ∈ shape.stats.held, ∀ b ∈ shape.stats.held, a.nsec.toNat ≤ b.nsec.toNat + spread := by
  intro a inA b inB
  rcases stats_held bounded a inA with same | same <;> rcases stats_held bounded b inB with same' | same'
  all_goals
    rw [same,same']
    omega

theorem stats_kept (fair : shape.Fair) : sortedSamples Qsort.insertion shape.stats = shape.stats.samples := by
  have count := stats_size fair.bounded
  have ordered : shape.stats.held.Pairwise (fun a b => sampleCmpLatency a b ≤ 0) := by
    rw [LatencyStats.held,List.pairwise_map]
    refine List.Pairwise.imp_of_mem ?_ (@List.pairwise_lt_range _)
    intro first second inside inside' before
    rw [List.mem_range,count] at inside inside'
    have same (value : UInt64) : toInt (value - value).toNat ≤ 0 := by simp [toInt]
    simp only [stats,sampleCmpLatency,inside,inside',if_true]
    split
    · split
      · exact same shape.low
      · exact fair.stays
    · rw [if_neg (by omega)]
      exact same shape.high
  have kept : Qsort.insertion.sort sampleCmpLatency shape.stats.held = shape.stats.held := ordered.insertionSort_eq
  funext index
  rw [sortedSamples,kept,LatencyStats.held]
  by_cases inside : index < shape.stats.size.toNat
  · simp [inside]
  · simp [inside]

theorem stats_measured (fair : shape.Fair) :
    ∃ computed, computeLatencyPercentilesCi Float Qsort.insertion shape.stats = .next computed ∧
      computed.p99I = shape.low ∧ computed.p99 = shape.low ∧ computed.p99K.toNat = shape.top := by
  have count := stats_size fair.bounded
  have enough := fair.enough
  have bounded := fair.bounded
  obtain ⟨computed,next,lower,value,upper⟩ := percentiles_computed Qsort.insertion (show 4 ≤ shape.stats.size.toNat by omega)
    (by omega)
  obtain ⟨below,above,-⟩ := getCiBounds_indices level99 enough bounded
  have outside := getCiBounds_outside enough bounded
  rw [count,stats_kept fair] at lower value upper
  refine ⟨computed,next,?_,?_,?_⟩
  · rw [lower,stats]
    exact congrArg LatSample.nsec (if_pos below)
  · rw [value,stats]
    exact congrArg LatSample.nsec (if_pos (Nat.le_refl _))
  · rw [upper,stats,top]
    dsimp only
    rw [if_neg (by omega)]
    split
    · rw [if_pos (by omega)]
    · rw [if_neg (by omega)]
      rfl

end Shape

section Ranks
variable {stats : LatencyStats}

theorem rankedLatency_held {index : UInt32} (inside : index.toNat < stats.size.toNat) :
    ∃ sample ∈ stats.held, rankedLatency stats index = sample.nsec.toNat := by
  have inside' : index.toNat < ((stats.held.map (·.nsec.toNat)).insertionSort (· ≤ ·)).length := by
    rwa [List.length_insertionSort,List.length_map,held_length]
  obtain ⟨sample,listed,same⟩ := List.mem_map.mp ((List.mem_insertionSort _).mp (List.getElem_mem inside'))
  exact ⟨sample,listed,(List.getD_eq_getElem _ _ inside').trans same.symm⟩

theorem rankedLatency_outside {index : UInt32} (outside : stats.size.toNat ≤ index.toNat) : rankedLatency stats index = 0 := by
  refine List.getD_eq_default _ _ ?_
  rwa [List.length_insertionSort,List.length_map,held_length]

theorem upperLatency_most {most : Nat} (each : ∀ sample ∈ stats.held, sample.nsec.toNat ≤ most) : upperLatency stats ≤ most := by
  rcases Nat.lt_or_ge (getCiBounds stats.size.toNat (0.99 : Float)).k.toNat stats.size.toNat with inside | outside
  · obtain ⟨sample,listed,same⟩ := rankedLatency_held inside
    rw [upperLatency,same]
    exact each sample listed
  · rw [upperLatency,rankedLatency_outside outside]
    exact Nat.zero_le most

theorem upperLatency_near {spread : Nat} (enough : 4 ≤ stats.size.toNat) (bounded : stats.size.toNat ≤ aggSampleSize)
    (near : ∀ a ∈ stats.held, ∀ b ∈ stats.held, a.nsec.toNat ≤ b.nsec.toNat + spread) :
    upperLatency stats ≤ lowerLatency stats + spread := by
  obtain ⟨below,-,inside⟩ := getCiBounds_indices level99 enough bounded
  obtain ⟨lowest,listed,same⟩ := @rankedLatency_held stats (getCiBounds stats.size.toNat (0.99 : Float)).i (by omega)
  refine upperLatency_most fun sample member => ?_
  rw [lowerLatency,same]
  exact near sample member lowest listed

end Ranks

theorem comparable_of_near {stats : LatencyStats} {spread : Nat} (narrow : spread < 2^31)
    (near : ∀ a ∈ stats.held, ∀ b ∈ stats.held, a.nsec.toNat ≤ b.nsec.toNat + spread) : Comparable stats := by
  intro a inA b inB less
  have close := near a inA b inB
  have difference := UInt64.toNat_sub_of_le _ _ (UInt64.le_of_lt less)
  rw [UInt64.lt_iff_toNat_lt] at less
  rw [Signed,difference]
  omega

section Kinds
variable {sizes : List Nat} {spread total : Nat} {shapes : List Shape}

/-- Bounds in the wrong order pass: their difference becomes negative. -/
theorem inverted_passes {aggLat : LatencyReply} {ciSize : Int} (below : aggLat.p99K.toNat < aggLat.p99I.toNat)
    (near : aggLat.p99I.toNat ≤ 2^63) (positive : 0 ≤ wrap (ciSize * 1000)) : intervalExceeds aggLat ciSize = false := by
  have difference : wrap (aggLat.p99K - aggLat.p99I).toNat < 0 := by
    rw [UInt64.toNat_sub,wrap,Int.bmod]
    omega
  rw [intervalExceeds,decide_eq_false_iff_not]
  omega

theorem shapes_replies (fair : ∀ shape ∈ shapes, shape.Fair) :
    ∃ replies, Measured Qsort.insertion (shapes.map Shape.stats) replies ∧
      replies.map (fun reply => reply.p99I.toNat) = shapes.map (·.low.toNat) ∧
      replies.map (fun reply => reply.p99.toNat) = shapes.map (·.low.toNat) ∧
      replies.map (fun reply => reply.p99K.toNat) = shapes.map Shape.top := by
  induction shapes with
  | nil => exact ⟨[],.nil,rfl,rfl,rfl⟩
  | cons shape rest ih =>
    obtain ⟨here,later⟩ := List.forall_mem_cons.mp fair
    obtain ⟨replies,measured,lower,value,upper⟩ := ih later
    obtain ⟨computed,next,lower',value',upper'⟩ := Shape.stats_measured here
    refine ⟨latencyData computed 0 :: replies,.cons ⟨computed,0,next,rfl⟩ measured,?_,?_,?_⟩
    · rw [List.map_cons,lower,latencyData,lower',List.map_cons]
    · rw [List.map_cons,value,latencyData,value',List.map_cons]
    · rw [List.map_cons,upper,latencyData,upper',List.map_cons]

/-- The check passes where the sum of the upper bounds is lost or empty. -/
theorem shapes_unsound (plan : Plan) (slice : shapes.length < 2^63) (fair : ∀ shape ∈ shapes, shape.Fair)
    (positive : shapes.length ≤ (shapes.map (·.low.toNat)).sum) (room : (shapes.map (·.low.toNat)).sum < 2^64)
    (near : (shapes.map (·.low.toNat)).sum / shapes.length ≤ 2^63)
    (lost : (shapes.map Shape.top).sum % 2^64 < shapes.length) (nonneg : 0 ≤ wrap (plan.ciSize * 1000)) :
    ¬Sound Qsort.insertion plan (shapes.map Shape.stats) := by
  intro sound
  obtain ⟨replies,measured,lower,value,upper⟩ := shapes_replies fair
  have length : replies.length = shapes.length := by
    have same := congrArg List.length lower
    simpa using same
  have slice' : replies.length < 2^64 := by omega
  have averageI : (averageLatency replies).p99I.toNat = (shapes.map (·.low.toNat)).sum / shapes.length := by
    rw [average_p99I slice',lower,Nat.mod_eq_of_lt room,length]
  have average : (averageLatency replies).p99.toNat = (shapes.map (·.low.toNat)).sum / shapes.length := by
    rw [average_p99 slice',value,Nat.mod_eq_of_lt room,length]
  have averageK : (averageLatency replies).p99K.toNat = 0 := by
    rw [average_p99K slice',upper,length]
    exact Nat.div_eq_of_lt lost
  have above : 0 < (shapes.map (·.low.toNat)).sum / shapes.length := Nat.div_pos positive (by omega)
  have counted : UInt64.ofNat replies.length ≠ 0 := by
    intro zero
    have word := congrArg UInt64.toNat zero
    rw [UInt64.toNat_ofNat',length,UInt64.toNat_zero] at word
    omega
  have passed := passed_of_check counted (inverted_passes (by omega) (by omega) nonneg)
  obtain ⟨-,ordered,-⟩ := sound replies measured passed
  rw [UInt64.le_iff_toNat_le] at ordered
  omega

/-- The samples of a shape are within the bounds. -/
theorem shape_within {shape : Shape} (fair : shape.Fair) (above : shape.low.toNat ≤ shape.high.toNat + spread)
    (below : shape.high.toNat ≤ shape.low.toNat + spread) :
    Buffer shape.stats ∧ shape.stats.size.toNat = shape.size ∧
      ∀ a ∈ shape.stats.held, ∀ b ∈ shape.stats.held, a.nsec.toNat ≤ b.nsec.toNat + spread :=
  ⟨Shape.stats_buffer (Nat.lt_of_lt_of_le (by decide) fair.enough) fair.bounded,Shape.stats_size fair.bounded,
    Shape.stats_near fair.bounded above below⟩

/-- All agents have the same two latencies. -/
def uniform (low high : UInt64) (sizes : List Nat) : List Shape := sizes.map (Shape.mk low high)

theorem uniform_fair {low high : UInt64} (each : ∀ size ∈ sizes, 4 ≤ size ∧ size ≤ aggSampleSize)
    (stays : toInt (low - high).toNat ≤ 0) : ∀ shape ∈ uniform low high sizes, shape.Fair := by
  intro shape listed
  obtain ⟨size,given,rfl⟩ := List.mem_map.mp listed
  exact ⟨(each size given).1,(each size given).2,stays⟩

theorem uniform_low (low high : UInt64) (sizes : List Nat) :
    ((uniform low high sizes).map (·.low.toNat)).sum = sizes.length * low.toNat := by
  simp [uniform,Function.comp_def]

theorem uniform_within {low high : UInt64} {most : Nat} (each : ∀ size ∈ sizes, 4 ≤ size ∧ size ≤ aggSampleSize)
    (stays : toInt (low - high).toNat ≤ 0) (lowMost : low.toNat ≤ most) (highMost : high.toNat ≤ most)
    (lowNear : low.toNat ≤ high.toNat + spread) (highNear : high.toNat ≤ low.toNat + spread) (room : sizes.length * most ≤ total) :
    Within sizes spread total ((uniform low high sizes).map Shape.stats) := by
  have fair := uniform_fair each stays
  constructor
  · rw [uniform,List.map_map,List.forall₂_map_right_iff,List.forall₂_same]
    intro size listed
    exact @shape_within spread ⟨low,high,size⟩ (fair _ (List.mem_map_of_mem listed)) lowNear highNear
  · have bounded := List.sum_le_card_nsmul (((uniform low high sizes).map Shape.stats).map upperLatency) most (by
      intro latency listed
      obtain ⟨stats,present,rfl⟩ := List.mem_map.mp listed
      obtain ⟨shape,given,rfl⟩ := List.mem_map.mp present
      have reached := (fair shape given).bounded
      obtain ⟨size,-,rfl⟩ := List.mem_map.mp given
      exact upperLatency_most (Shape.stats_most reached lowMost highMost))
    refine le_trans bounded (le_trans (le_of_eq ?_) room)
    simp [uniform]

theorem ones_within (each : ∀ size ∈ sizes, 4 ≤ size ∧ size ≤ aggSampleSize) (room : sizes.length ≤ total) :
    Within sizes spread total ((uniform 1 1 sizes).map Shape.stats) :=
  @uniform_within sizes spread total 1 1 1 each (by decide) (by decide) (by decide) (Nat.le_add_right _ _) (Nat.le_add_right _ _)
    (by omega)

theorem ones_low (sizes : List Nat) : ((uniform 1 1 sizes).map (·.low.toNat)).sum = sizes.length :=
  (uniform_low 1 1 sizes).trans (Nat.mul_one _)

theorem top_ones {size : Nat} : (Shape.mk 1 1 size).top ≤ 1 := by
  rw [Shape.top]
  split
  · exact Nat.le_refl 1
  · exact Nat.zero_le 1

theorem sum_top_less (short : ∃ size ∈ sizes, size < 726) : ((uniform 1 1 sizes).map Shape.top).sum < sizes.length := by
  obtain ⟨size,listed,less⟩ := short
  have total := List.sum_lt_sum (fun size => (Shape.mk 1 1 size).top) (fun _ => 1) (fun _ _ => top_ones)
    ⟨size,listed,by simp [Shape.top,Nat.not_le.mpr less]⟩
  rw [uniform,List.map_map]
  simpa [Function.comp_def] using total

theorem stays_next {low high : UInt64} (next : high.toNat = low.toNat + 1) : toInt (low - high).toNat ≤ 0 := by
  have word := high.toNat_lt
  have difference : (low - high).toNat = 2^64 - 1 := by
    rw [UInt64.toNat_sub,next]
    omega
  rw [difference]
  decide

theorem sum_top_all (enough : ∀ size ∈ sizes, 726 ≤ size) : ((uniform 1 1 sizes).map Shape.top).sum = sizes.length := by
  have same : sizes.map (fun size => (Shape.mk 1 1 size).top) = sizes.map (fun _ => 1) :=
    List.map_congr_left fun size listed => if_pos (enough size listed)
  rw [uniform,List.map_map]
  exact (congrArg List.sum same).trans (by simp)

/-- The upper bounds add up to 2^64: one agent holds nearly all of it, the others a nanosecond each. -/
theorem crossing_unsound {first : Nat} {rest : List Nat} (each : ∀ size ∈ first :: rest, 726 ≤ size ∧ size ≤ aggSampleSize)
    (several : 0 < rest.length) (slice : (first :: rest).length < 2^63) (varying : 0 < spread) (long : 2^64 ≤ total) :
    ∃ agents, Within (first :: rest) spread total agents ∧ ¬AlwaysSound agents := by
  obtain ⟨here,later⟩ := List.forall_mem_cons.mp each
  have each' : ∀ size ∈ rest, 4 ≤ size ∧ size ≤ aggSampleSize :=
    fun size listed => ⟨le_trans (by norm_num) (later size listed).1,(later size listed).2⟩
  rw [List.length_cons] at slice
  have lowWord : (UInt64.ofNat (2^64 - rest.length - 1)).toNat = 2^64 - rest.length - 1 := by
    rw [UInt64.toNat_ofNat']
    omega
  have highWord : (UInt64.ofNat (2^64 - rest.length)).toNat = 2^64 - rest.length := by
    rw [UInt64.toNat_ofNat']
    omega
  generalize UInt64.ofNat (2^64 - rest.length - 1) = low at lowWord
  generalize UInt64.ofNat (2^64 - rest.length) = high at highWord
  have fair : Shape.Fair ⟨low,high,first⟩ := by
    refine ⟨le_trans (by norm_num) here.1,here.2,stays_next ?_⟩
    dsimp only
    omega
  have others : ∀ shape ∈ uniform 1 1 rest, shape.Fair := uniform_fair each' (by decide)
  have within : Within rest spread rest.length ((uniform 1 1 rest).map Shape.stats) := ones_within each' (Nat.le_refl _)
  refine ⟨(⟨low,high,first⟩ :: uniform 1 1 rest).map Shape.stats,⟨?_,?_⟩,fun sound => ?_⟩
  · refine .cons (shape_within fair ?_ ?_) within.1
    all_goals
      dsimp only
      omega
  · have upper : upperLatency (Shape.stats ⟨low,high,first⟩) ≤ high.toNat :=
      upperLatency_most (Shape.stats_most fair.bounded (by dsimp only; omega) (Nat.le_refl _))
    have following := within.2
    rw [List.map_cons,List.map_cons,List.sum_cons]
    omega
  · have tops := sum_top_all fun size listed => (later size listed).1
    have top : (Shape.mk low high first).top = 2^64 - rest.length := (if_pos here.1).trans highWord
    have lows := ones_low rest
    have length : (uniform 1 1 rest).length = rest.length := List.length_map _
    refine @shapes_unsound (⟨low,high,first⟩ :: uniform 1 1 rest) ⟨[],0,0,0⟩ ?_ (List.forall_mem_cons.mpr ⟨fair,others⟩)
      ?_ ?_ ?_ ?_ (by decide) (sound _ _ (Int.le_refl 0))
    all_goals simp only [List.map_cons,List.sum_cons,List.length_cons,lows,tops,top,lowWord,length]
    · exact slice
    · omega
    · omega
    · refine Nat.div_le_of_le_mul ?_
      omega
    · omega

theorem Attainable.enough (attainable : Attainable sizes spread total) (each : ∀ size ∈ sizes, 4 ≤ size)
    (sound : ∀ agents, Within sizes spread total agents → AlwaysSound agents) : ∀ size ∈ sizes, 726 ≤ size := by
  by_contra short
  push Not at short
  have slice := attainable.slice
  have least := attainable.least
  have more : sizes.length ≤ sizes.length * spread := Nat.le_mul_of_pos_right _ attainable.varying
  have held : 0 < sizes.length := List.length_pos_iff.mpr attainable.nonempty
  have each' : ∀ size ∈ sizes, 4 ≤ size ∧ size ≤ aggSampleSize :=
    fun size listed => ⟨each size listed,(attainable.each size listed).2⟩
  have within : Within sizes spread total ((uniform 1 1 sizes).map Shape.stats) := ones_within each' (by omega)
  have less := sum_top_less short
  have lows := ones_low sizes
  have length : (uniform 1 1 sizes).length = sizes.length := List.length_map _
  refine shapes_unsound ⟨[],0,0,0⟩ (by omega) (uniform_fair each' (by decide)) (by omega) (by omega) ?_ ?_ (by decide)
    (sound _ within _ _ (Int.le_refl 0))
  · rw [lows,length,Nat.div_self held]
    norm_num
  · rw [Nat.mod_eq_of_lt (by omega)]
    omega

theorem Attainable.fits (attainable : Attainable sizes spread total) (enough : ∀ size ∈ sizes, 726 ≤ size)
    (sound : ∀ agents, Within sizes spread total agents → AlwaysSound agents) : spread < 2^31 ∧ total < 2^64 := by
  have each : ∀ size ∈ sizes, 726 ≤ size ∧ size ≤ aggSampleSize :=
    fun size listed => ⟨enough size listed,(attainable.each size listed).2⟩
  have slice := attainable.slice
  have short : total < 2^64 := by
    by_contra long
    have most := attainable.most
    obtain ⟨first,rest,rfl⟩ := List.exists_cons_of_ne_nil attainable.nonempty
    have several : 0 < rest.length := by
      by_contra alone
      rw [List.length_cons,Nat.eq_zero_of_not_pos alone] at most
      omega
    obtain ⟨agents,within,unsound⟩ := crossing_unsound each several slice attainable.varying (Nat.le_of_not_lt long)
    exact unsound (sound agents within)
  refine ⟨?_,short⟩
  by_contra wide
  -- a latency of 2^31 compares as less than zero
  have each' : ∀ size ∈ sizes, 4 ≤ size ∧ size ≤ aggSampleSize :=
    fun size listed => ⟨le_trans (by norm_num) (enough size listed),(each size listed).2⟩
  have held : 0 < sizes.length := List.length_pos_iff.mpr attainable.nonempty
  have least := attainable.least
  have more : sizes.length * 2^31 ≤ sizes.length * spread := Nat.mul_le_mul_left _ (Nat.le_of_not_lt wide)
  have within : Within sizes spread total ((uniform 0x80000000 0 sizes).map Shape.stats) :=
    @uniform_within sizes spread total 0x80000000 0 (2^31) each' (by decide) (by decide) (by decide) (by
      change 2^31 ≤ 0 + spread
      omega) (Nat.zero_le _) (by omega)
  have lows : ((uniform 0x80000000 0 sizes).map (·.low.toNat)).sum = sizes.length * 2^31 := uniform_low _ _ sizes
  have length : (uniform 0x80000000 0 sizes).length = sizes.length := List.length_map _
  have tops : ((uniform 0x80000000 0 sizes).map Shape.top).sum = 0 := by
    rw [uniform,List.map_map]
    refine List.sum_eq_zero fun value listed => ?_
    obtain ⟨size,-,rfl⟩ := List.mem_map.mp listed
    exact ite_self 0
  refine shapes_unsound ⟨[],0,0,0⟩ (by omega) (uniform_fair each' (by decide)) (by omega) (by omega) ?_ ?_ (by decide)
    (sound _ within _ _ (Int.le_refl 0))
  · rw [lows,length,Nat.mul_div_cancel_left _ held]
    norm_num
  · rw [tops,length]
    exact held

theorem Within.aggregated {agents : List LatencyStats} (within : Within sizes spread total agents) (attainable : Attainable sizes spread total) :
    Aggregated agents := by
  have length := within.1.length_eq
  refine ⟨?_,length ▸ attainable.slice,?_⟩
  · rw [← List.length_pos_iff,← length]
    exact List.length_pos_iff.mpr attainable.nonempty
  · intro stats listed
    obtain ⟨index,inside,rfl⟩ := List.getElem_of_mem listed
    exact (within.1.get (length.symm ▸ inside) inside).1

/-- Averages lie no further apart than the numbers. -/
theorem average_near {α : Type} {values : List α} {low high : α → Nat} (each : ∀ value ∈ values, high value ≤ low value + spread) :
    (values.map high).sum / values.length ≤ (values.map low).sum / values.length + spread := by
  rcases Nat.eq_zero_or_pos values.length with empty | positive
  · rw [empty,Nat.div_zero]
    exact Nat.zero_le _
  · have total : (values.map high).sum ≤ (values.map low).sum + values.length * spread := by
      refine (List.sum_le_sum each).trans (le_of_eq ?_)
      simp [List.sum_map_add]
    rw [← Nat.add_mul_div_left _ _ positive]
    exact Nat.div_le_div_right total

theorem Gates.gated {agents : List LatencyStats} (gates : Gates sizes spread total) (within : Within sizes spread total agents) :
    Gated agents := by
  obtain ⟨each,upper⟩ := within
  have length := each.length_eq
  rcases gates with ⟨size,listed,few⟩ | ⟨enough,narrow,room⟩
  · obtain ⟨index,inside,rfl⟩ := List.getElem_of_mem listed
    have inside' := length ▸ inside
    have same : agents[index].size.toNat = sizes[index] := (each.get inside inside').2.1
    exact .inl ⟨agents[index],List.getElem_mem inside',same ▸ few⟩
  · have held : ∀ stats ∈ agents, 726 ≤ stats.size.toNat ∧ Comparable stats ∧ upperLatency stats ≤ lowerLatency stats + spread := by
      intro stats listed
      obtain ⟨index,inside,rfl⟩ := List.getElem_of_mem listed
      have inside' := length.symm ▸ inside
      obtain ⟨buffer,counted,near⟩ := each.get inside' inside
      have same : agents[index].size.toNat = sizes[index] := counted
      have many : 726 ≤ agents[index].size.toNat := same ▸ enough _ (List.getElem_mem inside')
      exact ⟨many,comparable_of_near narrow near,upperLatency_near (le_trans (by norm_num) many) buffer.bounded near⟩
    have near := average_near fun stats listed => (held stats listed).2.2
    exact .inr (.inr ⟨fun stats listed => ⟨(held stats listed).1,(held stats listed).2.1⟩,by omega,by omega⟩)

end Kinds

/-- Whatever the agents hold, the check bounds the interval if the condition is met; and a kind of inputs
(their sizes, how far an agent's latencies lie apart and what the upper ones add up to) is bounded as a whole just under it. -/
theorem interval_gate_iff (agents : List LatencyStats) (aggregated : Aggregated agents) (sizes : List Nat) (spread total : Nat)
    (attainable : Attainable sizes spread total) : (Gated agents → AlwaysSound agents) ∧
      ((∀ others, Within sizes spread total others → AlwaysSound others) ↔ Gates sizes spread total) := by
  refine ⟨fun gated => gated.sound aggregated,fun sound => ?_,?_⟩
  · by_cases few : ∃ size ∈ sizes, size < 4
    · exact .inl few
    · push Not at few
      have enough := attainable.enough few sound
      exact .inr ⟨enough,attainable.fits enough sound⟩
  · intro gates others within
    exact (gates.gated within).sound (within.aggregated attainable)

def examplePlan (ciSize : Int) : Plan := ⟨[0],1000,1000,ciSize⟩

/-- An agent with samples around three seconds. -/
def slowAgent : LatencyStats := Shape.stats ⟨3000000000,3000060000,1000⟩

theorem slowAgent_gated : Gated [slowAgent] := by
  have upper := @upperLatency_most slowAgent 3000060000 (Shape.stats_most (by decide) (by decide) (by decide))
  refine .inr (.inr ⟨?_,?_,?_⟩)
  · intro stats listed
    rw [List.mem_singleton.mp listed]
    exact ⟨by decide,@comparable_of_near _ 60000 (by decide) (Shape.stats_near (by decide) (by decide) (by decide))⟩
  · rw [List.map_singleton,List.sum_singleton]
    omega
  · rw [List.map_singleton,List.sum_singleton,List.length_singleton,Nat.div_one]
    omega

theorem slowAgent_aggregated : Aggregated [slowAgent] := by
  refine ⟨by decide,by decide,fun stats listed => ?_⟩
  rw [List.mem_singleton.mp listed]
  exact Shape.stats_buffer (by decide) (by decide)

theorem interval_gate_thousand : Sound Qsort.insertion (examplePlan 10) [slowAgent] ∧
    ∀ others, Within [1000] 60000 3000060000 others → Sound Qsort.insertion (examplePlan 10) others := by
  obtain ⟨sound,kind⟩ := interval_gate_iff [slowAgent] slowAgent_aggregated [1000] 60000 3000060000
    ⟨by decide,by decide,by decide,by decide,by decide,by decide⟩
  refine ⟨sound slowAgent_gated _ _ (by decide),fun others within => kind.mpr ?_ others within _ _ (by decide)⟩
  exact .inr ⟨by decide,by decide,by decide⟩

/-- One agent with 700 samples of 50 us each: its upper index is after the last one. -/
theorem short_agent_passes : Aggregated [Shape.stats ⟨50000,50000,700⟩] ∧ 0 ≤ (examplePlan 10).ciSize ∧
    ¬Sound Qsort.insertion (examplePlan 10) [Shape.stats ⟨50000,50000,700⟩] := by
  have fair : Shape.Fair ⟨50000,50000,700⟩ := ⟨by decide,by decide,by decide⟩
  refine ⟨⟨by decide,by decide,fun stats listed => ?_⟩,by decide,?_⟩
  · rw [List.mem_singleton.mp listed]
    exact Shape.stats_buffer (by decide) (by decide)
  · exact @shapes_unsound [⟨50000,50000,700⟩] _ (by decide) (by simpa using fair) (by decide) (by decide) (by decide) (by decide) (by decide)

end Lancet.IntervalGate
