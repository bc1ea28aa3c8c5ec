import Lancet.CiBounds

/-! The samples that `compute_latency_percentiles_ci` reads for an interval. -/
namespace Lancet.Percentiles
open Foundation Stats CiBounds

theorem readSample_inside {index : UInt32} (samples : Nat → LatSample) (inside : index.toNat < aggSampleSize) :
    readSample samples index = .next (samples index.toNat).nsec := if_pos inside

theorem rank_word {size percent : UInt32} (bounded : size.toNat ≤ aggSampleSize) (most : percent.toNat ≤ 99) :
    (size * percent / 100).toNat = size.toNat * percent.toNat / 100 := by
  have product : size.toNat * percent.toNat ≤ aggSampleSize * 99 := Nat.mul_le_mul bounded most
  rw [aggSampleSize] at product
  rw [UInt32.toNat_div,UInt32.toNat_mul,Nat.mod_eq_of_lt (by omega)]
  rfl

theorem percentile_next {F : Type} [CDouble F] {p : F} {size percent : UInt32} (samples : Nat → LatSample)
    (bounded : size.toNat ≤ aggSampleSize) (most : percent.toNat ≤ 99)
    (below : (getCiBounds size.toNat p).i.toNat ≤ size.toNat * percent.toNat / 100)
    (above : size.toNat * percent.toNat / 100 ≤ (getCiBounds size.toNat p).k.toNat)
    (inside : (getCiBounds size.toNat p).k.toNat < aggSampleSize) :
    percentile samples size percent p = .next ((samples (getCiBounds size.toNat p).i.toNat).nsec,
      (samples (size.toNat * percent.toNat / 100)).nsec,(samples (getCiBounds size.toNat p).k.toNat).nsec) := by
  have rank := rank_word bounded most
  simp only [percentile]
  rw [readSample_inside samples (by omega),readSample_inside samples (by omega),readSample_inside samples inside,rank]
  rfl

theorem percentile_reads {p : Float} {size percent : UInt32} (samples : Nat → LatSample) (level : Level p percent.toNat)
    (enough : 4 ≤ size.toNat) (bounded : size.toNat ≤ aggSampleSize) :
    percentile samples size percent p = .next ((samples (getCiBounds size.toNat p).i.toNat).nsec,
      (samples (size.toNat * percent.toNat / 100)).nsec,(samples (getCiBounds size.toNat p).k.toNat).nsec) := by
  obtain ⟨below,above,inside⟩ := getCiBounds_indices level enough bounded
  exact percentile_next samples bounded level.most below above.le inside

section Computed
variable (qsort : Qsort) {stats : LatencyStats}

/-- Four samples are enough for every interval. -/
theorem percentiles_computed (least : 4 ≤ stats.size.toNat) (bounded : stats.size.toNat ≤ aggSampleSize) :
    ∃ computed, computeLatencyPercentilesCi Float qsort stats = .next computed ∧
      computed.p99I = (sortedSamples qsort stats (getCiBounds stats.size.toNat (0.99 : Float)).i.toNat).nsec ∧
      computed.p99 = (sortedSamples qsort stats (stats.size.toNat * 99 / 100)).nsec ∧
      computed.p99K = (sortedSamples qsort stats (getCiBounds stats.size.toNat (0.99 : Float)).k.toNat).nsec := by
  have held : 0 < stats.size := by
    rw [UInt32.lt_iff_toNat_lt]
    exact lt_of_lt_of_le (by norm_num) least
  have reads {p : Float} {percent : UInt32} (level : Level p percent.toNat) :=
    percentile_reads (sortedSamples qsort stats) level least bounded
  simp only [computeLatencyPercentilesCi,decide_eq_true held,Outcome.assert_true,Outcome.next_bind]
  rw [reads level50,reads level90,reads level95,reads level99]
  exact ⟨_,rfl,rfl,rfl,rfl⟩

theorem few_lower {size : Nat} (positive : 0 < size) (few : size < 4) : (getCiBounds size (0.50 : Float)).i = 0xFFFFFFFF := by
  have range : size = 1 ∨ size = 2 ∨ size = 3 := by omega
  rcases range with rfl | rfl | rfl
  all_goals decide +kernel

/-- With fewer the lower index at the median is negative. -/
theorem few_fault (few : stats.size.toNat < 4) : computeLatencyPercentilesCi Float qsort stats = .fault := by
  simp only [computeLatencyPercentilesCi]
  by_cases least : 0 < stats.size
  · have positive : 0 < stats.size.toNat := least
    have rank : (stats.size * 50 / 100).toNat = stats.size.toNat * 50 / 100 :=
      rank_word (by rw [aggSampleSize]; omega) (by decide)
    have inside : (stats.size * 50 / 100).toNat < aggSampleSize := by
      rw [rank,aggSampleSize]
      omega
    have outside : percentile (sortedSamples qsort stats) stats.size 50 (0.50 : Float) = .fault := by
      simp only [percentile]
      rw [readSample_inside _ inside,few_lower positive few]
      rfl
    rw [decide_eq_true least,Outcome.assert_true,Outcome.next_bind,outside]
    rfl
  · rw [decide_eq_false least]
    rfl

end Computed

theorem cmp_latency {a b : LatSample} (small : a.nsec.toNat < 2^31) (small' : b.nsec.toNat < 2^31) :
    sampleCmpLatency a b = a.nsec.toNat - b.nsec.toNat := by
  rw [sampleCmpLatency,toInt,UInt64.toNat_sub,Int.bmod]
  omega

theorem orders_latency {samples : List LatSample} (small : ∀ sample ∈ samples, sample.nsec.toNat < 2^31) :
    Orders sampleCmpLatency samples := by
  constructor
  · intro a inA b inB
    rw [cmp_latency (small a inA) (small b inB),cmp_latency (small b inB) (small a inA)]
    omega
  · intro a inA b inB c inC first second
    rw [cmp_latency (small a inA) (small b inB)] at first
    rw [cmp_latency (small b inB) (small c inC)] at second
    rw [cmp_latency (small a inA) (small c inC)]
    omega

theorem held_length (stats : LatencyStats) : stats.held.length = stats.size.toNat := by
  simp [LatencyStats.held]

theorem sortedSamples_inside (qsort : Qsort) {stats : LatencyStats} {index : Nat} (inside : index < stats.size.toNat) :
    (qsort.sort sampleCmpLatency stats.held)[index]? = some (sortedSamples qsort stats index) := by
  have length : index < (qsort.sort sampleCmpLatency stats.held).length := by
    rw [qsort.length,held_length]
    exact inside
  rw [sortedSamples,List.getElem?_eq_getElem length,Option.getD_some]

theorem sortedSamples_held (qsort : Qsort) {stats : LatencyStats} {index : Nat} (inside : index < stats.size.toNat) :
    sortedSamples qsort stats index ∈ stats.held :=
  (qsort.mem sampleCmpLatency _ _).mp (List.mem_of_getElem? (sortedSamples_inside qsort inside))

theorem sorted_ascending (qsort : Qsort) {samples : List LatSample} (small : ∀ sample ∈ samples, sample.nsec.toNat < 2^31) :
    (qsort.sort sampleCmpLatency samples).Pairwise (fun a b => a.nsec ≤ b.nsec) := by
  apply (qsort.sorted sampleCmpLatency samples (orders_latency small)).imp_of_mem
  intro a b inA inB compared
  have smallA := small a ((qsort.mem _ _ _).mp inA)
  have smallB := small b ((qsort.mem _ _ _).mp inB)
  rw [cmp_latency smallA smallB] at compared
  rw [UInt64.le_iff_toNat_le]
  omega

theorem sortedSamples_ascending (qsort : Qsort) {stats : LatencyStats} {first second : Nat}
    (ascending : (qsort.sort sampleCmpLatency stats.held).Pairwise (fun a b => a.nsec ≤ b.nsec)) (before : first ≤ second)
    (inside : second < stats.size.toNat) : (sortedSamples qsort stats first).nsec ≤ (sortedSamples qsort stats second).nsec := by
  rcases Nat.eq_or_lt_of_le before with rfl | before
  · exact UInt64.le_refl _
  · obtain ⟨bound,same⟩ := List.getElem?_eq_some_iff.mp (sortedSamples_inside qsort (show first < stats.size.toNat by omega))
    obtain ⟨bound',same'⟩ := List.getElem?_eq_some_iff.mp (sortedSamples_inside qsort inside)
    have ordered := List.pairwise_iff_getElem.mp ascending first second bound bound' before
    rwa [same,same'] at ordered

end Lancet.Percentiles
