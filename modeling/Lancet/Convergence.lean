import Lancet.KsStatistic
import Lancet.Percentiles

/-! What a passed convergence check says about the samples. -/
namespace Lancet.Convergence
open Foundation Empirical Stats KsStatistic Percentiles

/-- The first was sent no later than the second. -/
def SentBefore (a b : LatSample) : Prop := a.tx.tvSec < b.tx.tvSec ∨ a.tx.tvSec = b.tx.tvSec ∧ a.tx.tvNsec ≤ b.tx.tvNsec

theorem cmp_tx (a b : LatSample) : sampleCmpTx a b ≤ 0 ↔ SentBefore a b := by
  rw [sampleCmpTx,SentBefore]
  split_ifs
  all_goals omega

theorem orders_tx (samples : List LatSample) : Orders sampleCmpTx samples := by
  constructor
  · intro a _ b _
    rw [cmp_tx,cmp_tx,SentBefore,SentBefore]
    omega
  · intro a _ b _ c _
    rw [cmp_tx,cmp_tx,cmp_tx,SentBefore,SentBefore,SentBefore]
    omega

theorem sorted_tx (qsort : Qsort) (samples : List LatSample) : (qsort.sort sampleCmpTx samples).Pairwise SentBefore :=
  (qsort.sorted sampleCmpTx samples (orders_tx samples)).imp fun {a b} => (cmp_tx a b).mp

noncomputable def latencies (samples : List LatSample) : List ℝ := levels (samples.map (·.nsec))

theorem sorted_latency (qsort : Qsort) {samples : List LatSample} (small : ∀ sample ∈ samples, sample.nsec.toNat < 2^31) :
    ((qsort.sort sampleCmpLatency samples).map (·.nsec)).Pairwise (· ≤ ·) :=
  List.pairwise_map.mpr (sorted_ascending qsort small)

theorem sorted_some (qsort : Qsort) {samples : List LatSample} (positive : 0 < samples.length) :
    (qsort.sort sampleCmpLatency samples).map (·.nsec) ≠ [] := by
  apply List.ne_nil_of_length_pos
  rwa [List.length_map,qsort.length]

theorem latencies_perm (qsort : Qsort) (samples : List LatSample) :
    (levels ((qsort.sort sampleCmpLatency samples).map (·.nsec))).Perm (latencies samples) :=
  ((qsort.perm sampleCmpLatency samples).map _).map _

/-- `ks_lts` sees no less than the distance. -/
theorem ksLts_upper (qsort : Qsort) {a b : List LatSample} (smallA : ∀ sample ∈ a, sample.nsec.toNat < 2^31)
    (smallB : ∀ sample ∈ b, sample.nsec.toNat < 2^31) (someA : 0 < a.length) (someB : 0 < b.length) (x : ℝ) :
    apart (latencies a) (latencies b) x ≤ (ksLts qsort a b : ℝ × List LatSample × List LatSample).1 := by
  have upper := walk_upper (levels_sorted (sorted_latency qsort smallA)) (levels_sorted (sorted_latency qsort smallB))
    (levels_ne_nil (sorted_some qsort someA)) (levels_ne_nil (sorted_some qsort someB)) x
  rw [← ksSorted_walk,apart_perm (latencies_perm qsort a) (latencies_perm qsort b)] at upper
  exact upper

theorem threshold_half {half : Nat} (least : 0 < half) :
    (ca * CDouble.sqrt (CDouble.ofInt 2 * CDouble.ofInt half / (CDouble.ofInt half * CDouble.ofInt half)) : ℝ) =
      1.858 * √(2 / half) := by
  have positive : (half : ℝ) ≠ 0 := by exact_mod_cast least.ne'
  have value : (ca : ℝ) = 1.858 := rfl
  have quotient : (2 : ℝ) * half / (half * half) = 2 / half := by field_simp
  rw [value,← quotient]
  rfl

/-- A check that answers "converged" has seen two halves that are close to each other. -/
theorem no_false_convergence (qsort : Qsort) (samples : List LatSample) (small : ∀ sample ∈ samples, sample.nsec.toNat < 2^31)
    (enough : 2 ≤ samples.length) (converged : (computeConvergence ℝ qsort samples).1 = 1) :
    ∃ sent : List LatSample, sent = qsort.sort sampleCmpTx samples ∧ sent.Perm samples ∧ sent.Pairwise SentBefore ∧
      ∃ distance, Distance (latencies (sent.take (samples.length / 2)))
        (latencies ((sent.drop (samples.length / 2)).take (samples.length / 2))) distance ∧
        distance < 1.858 * √(2 / (samples.length / 2 : Nat)) := by
  have permuted := qsort.perm sampleCmpTx samples
  refine ⟨_,rfl,permuted,sorted_tx qsort samples,?_⟩
  simp only [computeConvergence,permuted.length_eq] at converged
  generalize qsort.sort sampleCmpTx samples = sent at permuted converged ⊢
  have length := permuted.length_eq
  have half : 0 < samples.length / 2 ∧ 2 * (samples.length / 2) ≤ sent.length := by omega
  generalize samples.length / 2 = middle at converged half ⊢
  obtain ⟨nonzero,inside⟩ := half
  have smallSent : ∀ sample ∈ sent, sample.nsec.toNat < 2^31 := fun sample listed => small sample (permuted.mem_iff.mp listed)
  have smallFirst : ∀ sample ∈ sent.take middle, sample.nsec.toNat < 2^31 :=
    fun sample listed => smallSent sample (List.mem_of_mem_take listed)
  have smallSecond : ∀ sample ∈ (sent.drop middle).take middle, sample.nsec.toNat < 2^31 :=
    fun sample listed => smallSent sample (List.mem_of_mem_drop (List.mem_of_mem_take listed))
  have someFirst : 0 < (sent.take middle).length := by
    rw [List.length_take]
    omega
  have someSecond : 0 < ((sent.drop middle).take middle).length := by
    rw [List.length_take,List.length_drop]
    omega
  obtain ⟨x,distance⟩ := farthest (latencies (sent.take middle)) (latencies ((sent.drop middle).take middle))
  have seen := ksLts_upper qsort smallFirst smallSecond someFirst someSecond x
  rw [threshold_half nonzero] at converged
  split at converged
  next passed => exact ⟨_,distance,seen.trans_lt (of_decide_eq_true passed)⟩
  next => cases converged

/-- Twenty samples, the last sent first; the earlier half has as many of 20 as of 30, the later one more of 30. -/
def exampleSamples : List LatSample :=
  (List.range 20).reverse.map fun index => ⟨if index % 2 = 0 ∧ index ≠ 10 then 20 else 30,⟨index,0⟩⟩

theorem no_false_convergence_twenty : ∃ sent, sent = Qsort.insertion.sort sampleCmpTx exampleSamples ∧
    ∃ distance, Distance (latencies (sent.take 10)) (latencies ((sent.drop 10).take 10)) distance ∧ distance < 1.858 * √(2 / 10) := by
  have order : Qsort.insertion.sort sampleCmpTx exampleSamples = exampleSamples.reverse := by decide +kernel
  have earlier : (Qsort.insertion.sort sampleCmpLatency (exampleSamples.reverse.take 10)).map (·.nsec) =
      [20,20,20,20,20,30,30,30,30,30] := by decide +kernel
  have later : (Qsort.insertion.sort sampleCmpLatency ((exampleSamples.reverse.drop 10).take 10)).map (·.nsec) =
      [20,20,20,20,30,30,30,30,30,30] := by decide +kernel
  have seen : (ksLts Qsort.insertion (exampleSamples.reverse.take 10) ((exampleSamples.reverse.drop 10).take 10) :
      ℝ × List LatSample × List LatSample).1 = 1 / 10 := by
    rw [ksLts]
    dsimp only
    rw [earlier,later,ksSorted_walk]
    have less : level 20 < level 30 := level_lt.mpr (by decide)
    norm_num [levels,walk,gap,less,less.not_gt,less.not_ge]
  have converged : (computeConvergence ℝ Qsort.insertion exampleSamples).1 = 1 := by
    have below : (1 / 10 : ℝ) < 1.858 * √(2 / (10 : Nat)) := by
      have root : (1 / 10 : ℝ) ≤ √(2 / (10 : Nat)) := Real.le_sqrt_of_sq_le (by norm_num)
      linarith
    rw [← threshold_half (by norm_num),← seen] at below
    simp only [computeConvergence,order]
    exact if_pos (decide_eq_true below)
  obtain ⟨sent,rfl,-,-,distance,farthest,close⟩ := no_false_convergence Qsort.insertion exampleSamples (by decide) (by decide) converged
  exact ⟨_,rfl,distance,farthest,by exact_mod_cast close⟩

end Lancet.Convergence
