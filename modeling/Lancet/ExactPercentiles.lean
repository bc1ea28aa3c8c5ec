import Lancet.Foundation.ExactDouble
import Lancet.Percentiles

/-! The percentiles and their intervals without rounding: from how many samples on every
index is one of a sample. -/
namespace Lancet.ExactPercentiles
open Foundation Stats CiBounds Percentiles

noncomputable def part (percent : Nat) : ℝ := percent / 100

noncomputable def width (n percent : Nat) : ℝ := 1.96 * √(n * part percent * (1 - part percent))

theorem getCiBounds_exact (n percent : Nat) : getCiBounds (n : Int) (part percent) =
    ⟨UInt32.ofInt ⌊n * part percent - width n percent⌋,UInt32.ofInt ⌈n * part percent + width n percent⌉ + 1⟩ := by
  have one : (CDouble.ofInt 1 : ℝ) = 1 := Int.cast_one
  have whole : (CDouble.ofInt n : ℝ) = n := Int.cast_natCast n
  simp only [getCiBounds,one,whole]
  rfl

section Range
variable {n percent : Nat}

theorem part_range (least : 50 ≤ percent) (most : percent ≤ 99) : 1 / 2 ≤ part percent ∧ part percent ≤ 99 / 100 := by
  have least' : (50 : ℝ) ≤ percent := by exact_mod_cast least
  have most' : (percent : ℝ) ≤ 99 := by exact_mod_cast most
  rw [part]
  constructor <;> linarith

theorem width_nonneg (n percent : Nat) : 0 ≤ width n percent := by
  rw [width]
  positivity

theorem width_square (least : 50 ≤ percent) (most : percent ≤ 99) :
    width n percent * width n percent = 3.8416 * (n * part percent * (1 - part percent)) := by
  obtain ⟨half,less⟩ := part_range least most
  have variance : 0 ≤ n * part percent * (1 - part percent) :=
    mul_nonneg (mul_nonneg (Nat.cast_nonneg n) (by linarith)) (by linarith)
  have square := Real.mul_self_sqrt variance
  rw [width,mul_mul_mul_comm,square]
  norm_num

theorem width_least (least : 50 ≤ percent) (most : percent ≤ 99) (enough : 4 ≤ n) : width n percent ≤ n * part percent := by
  obtain ⟨half,less⟩ := part_range least most
  have many : (4 : ℝ) ≤ n := by exact_mod_cast enough
  have middle : 2 ≤ n * part percent := by nlinarith
  have square := width_square (n := n) least most
  by_contra wide
  nlinarith [width_nonneg n percent]

theorem width_whole (least : 50 ≤ percent) (most : percent ≤ 99) (positive : 1 ≤ n) : width n percent ≤ n := by
  obtain ⟨half,less⟩ := part_range least most
  have many : (1 : ℝ) ≤ n := by exact_mod_cast positive
  have square := width_square (n := n) least most
  have quarter : part percent * (1 - part percent) ≤ 1 / 4 := by nlinarith [sq_nonneg (part percent - 1 / 2)]
  by_contra wide
  nlinarith [width_nonneg n percent]

theorem upper_inside (least : 50 ≤ percent) (most : percent ≤ 99) (many : 726 ≤ n) :
    n * part percent + width n percent ≤ n - 2 := by
  obtain ⟨half,less⟩ := part_range least most
  have many' : (726 : ℝ) ≤ n := by exact_mod_cast many
  have square := width_square (n := n) least most
  have rest : 7.26 ≤ n * (1 - part percent) := by nlinarith
  by_contra wide
  have wide' : n * (1 - part percent) - 2 < width n percent := by linarith
  have squared := mul_self_lt_mul_self (by linarith) wide'
  have shared : n * part percent * (1 - part percent) ≤ 99 / 100 * (n * (1 - part percent)) := by nlinarith
  nlinarith

theorem upper_outside (inside : n * part 99 + width n 99 ≤ n - 2) : 726 ≤ n := by
  have square : width n 99 * width n 99 = 3.8416 * (n * part 99 * (1 - part 99)) := width_square (by norm_num) (by norm_num)
  have value : part 99 = 99 / 100 := by norm_num [part]
  rw [value] at square inside
  by_contra few
  have few' : (n : ℝ) ≤ 725 := by exact_mod_cast Nat.le_of_lt_succ (not_le.mp few)
  have nonneg := width_nonneg n 99
  have narrow : width n 99 ≤ n / 100 - 2 := by linarith
  have squared := mul_self_le_mul_self nonneg narrow
  nlinarith

theorem rank_floor {position : Int} (below : (position : ℝ) ≤ n * part percent) : position ≤ (n * percent / 100 : Nat) := by
  have scaled : (position : ℝ) * 100 ≤ n * percent := by
    rw [part] at below
    linarith
  have scaled' : position * 100 ≤ (n * percent : Nat) := by exact_mod_cast scaled
  omega

theorem rank_ceil {position : Int} (above : n * part percent ≤ (position : ℝ)) : (n * percent / 100 : Nat) ≤ position := by
  have scaled : (n : ℝ) * percent ≤ position * 100 := by
    rw [part] at above
    linarith
  have scaled' : ((n * percent : Nat) : Int) ≤ position * 100 := by exact_mod_cast scaled
  omega

theorem upper_word (least : 50 ≤ percent) (most : percent ≤ 99) (counted : 1 ≤ n) (word : n < 2^31) :
    ((getCiBounds (n : Int) (part percent)).k.toNat : Int) = ⌈n * part percent + width n percent⌉ + 1 := by
  obtain ⟨half,less⟩ := part_range least most
  have many : (1 : ℝ) ≤ n := by exact_mod_cast counted
  have positive : 0 ≤ n * part percent := mul_nonneg (Nat.cast_nonneg n) (by linarith)
  have shared : n * part percent ≤ n := mul_le_of_le_one_right (Nat.cast_nonneg n) (by linarith)
  have wide := width_whole least most counted
  have low : 0 ≤ ⌈n * part percent + width n percent⌉ := Int.ceil_nonneg (add_nonneg positive (width_nonneg n percent))
  have high : ⌈n * part percent + width n percent⌉ ≤ 2 * (n : Int) := by
    apply Int.ceil_le.mpr
    push_cast
    linarith
  have value := word_of_range (show 0 ≤ ⌈n * part percent + width n percent⌉ + 1 by omega) (by omega)
  rwa [getCiBounds_exact,← UInt32.ofInt_one,← UInt32.ofInt_add]

theorem lower_word (least : 50 ≤ percent) (most : percent ≤ 99) (enough : 4 ≤ n) (word : n < 2^31) :
    ((getCiBounds (n : Int) (part percent)).i.toNat : Int) = ⌊n * part percent - width n percent⌋ := by
  obtain ⟨half,less⟩ := part_range least most
  have shared : n * part percent ≤ n := mul_le_of_le_one_right (Nat.cast_nonneg n) (by linarith)
  have low : 0 ≤ ⌊n * part percent - width n percent⌋ := Int.floor_nonneg.mpr (by linarith [width_least least most enough])
  have high : ⌊n * part percent - width n percent⌋ ≤ (n : Int) := by
    have below := Int.floor_le (n * part percent - width n percent)
    have total : ((⌊n * part percent - width n percent⌋ : Int) : ℝ) ≤ n := by linarith [width_nonneg n percent]
    exact_mod_cast total
  rw [getCiBounds_exact]
  exact word_of_range low (by omega)

/-- The indices of an interval stand around the rank of the percentile. -/
theorem indices_around (least : 50 ≤ percent) (most : percent ≤ 99) (enough : 4 ≤ n) (word : n < 2^31) :
    (getCiBounds (n : Int) (part percent)).i.toNat ≤ n * percent / 100 ∧
      n * percent / 100 ≤ (getCiBounds (n : Int) (part percent)).k.toNat := by
  have lower := lower_word least most enough word
  have upper := upper_word least most (show 1 ≤ n by omega) word
  have below : ⌊n * part percent - width n percent⌋ ≤ (n * percent / 100 : Nat) := by
    apply rank_floor
    linarith [Int.floor_le (n * part percent - width n percent),width_nonneg n percent]
  have above : ((n * percent / 100 : Nat) : Int) ≤ ⌈n * part percent + width n percent⌉ := by
    apply rank_ceil
    linarith [Int.le_ceil (n * part percent + width n percent),width_nonneg n percent]
  omega

theorem upper_index_inside (least : 50 ≤ percent) (most : percent ≤ 99) (many : 726 ≤ n) (word : n < 2^31) :
    (getCiBounds (n : Int) (part percent)).k.toNat ≤ n - 1 := by
  have upper := upper_word least most (show 1 ≤ n by omega) word
  have below : ⌈n * part percent + width n percent⌉ ≤ (n : Int) - 2 := by
    apply Int.ceil_le.mpr
    push_cast
    exact upper_inside least most many
  omega

end Range

/-- The indices of an interval are ones of the samples. -/
def Inside (n : Nat) (p : ℝ) : Prop :=
  (getCiBounds (n : Int) p).i.toNat ≤ (getCiBounds (n : Int) p).k.toNat ∧ (getCiBounds (n : Int) p).k.toNat ≤ n - 1

theorem many_of_inside {n : Nat} (positive : 1 ≤ n) (word : n < 2^31) (inside : Inside n 0.99) : 726 ≤ n := by
  have level : (0.99 : ℝ) = part 99 := by norm_num [part]
  have upper : ((getCiBounds (n : Int) (part 99)).k.toNat : Int) = ⌈n * part 99 + width n 99⌉ + 1 :=
    upper_word (by norm_num) (by norm_num) positive word
  rw [Inside,level] at inside
  have below : ⌈n * part 99 + width n 99⌉ ≤ (n : Int) - 2 := by omega
  have below' := Int.ceil_le.mp below
  push_cast at below'
  exact upper_outside below'

/-- Every percentile lies in its interval, and the percentiles ascend. -/
structure InOrder (stats : LatencyStats) : Prop where
  around50 : stats.p50I ≤ stats.p50 ∧ stats.p50 ≤ stats.p50K
  around90 : stats.p90I ≤ stats.p90 ∧ stats.p90 ≤ stats.p90K
  around95 : stats.p95I ≤ stats.p95 ∧ stats.p95 ≤ stats.p95K
  around99 : stats.p99I ≤ stats.p99 ∧ stats.p99 ≤ stats.p99K
  ascend : stats.p50 ≤ stats.p90 ∧ stats.p90 ≤ stats.p95 ∧ stats.p95 ≤ stats.p99

/-- Arrays of `n` samples that the sort leaves ascending give percentiles in order. -/
def OrderedResults (n : Nat) : Prop :=
  ∀ (qsort : Qsort) (stats : LatencyStats), stats.size.toNat = n →
    (qsort.sort sampleCmpLatency stats.held).Pairwise (fun a b => a.nsec ≤ b.nsec) →
    ∃ computed, computeLatencyPercentilesCi ℝ qsort stats = .next computed ∧ InOrder computed

theorem percentile_ordered (qsort : Qsort) {stats : LatencyStats} {percent : UInt32} {p : ℝ} (level : p = part percent.toNat)
    (least : 50 ≤ percent.toNat) (most : percent.toNat ≤ 99) (many : 726 ≤ stats.size.toNat) (held : stats.size.toNat ≤ aggSampleSize)
    (ascending : (qsort.sort sampleCmpLatency stats.held).Pairwise (fun a b => a.nsec ≤ b.nsec)) :
    ∃ lower upper, percentile (sortedSamples qsort stats) stats.size percent p =
        .next (lower,(sortedSamples qsort stats (stats.size.toNat * percent.toNat / 100)).nsec,upper) ∧
      lower ≤ (sortedSamples qsort stats (stats.size.toNat * percent.toNat / 100)).nsec ∧
      (sortedSamples qsort stats (stats.size.toNat * percent.toNat / 100)).nsec ≤ upper := by
  have word : stats.size.toNat < 2^31 := lt_of_le_of_lt held (by decide)
  obtain ⟨below,above⟩ := indices_around least most (show 4 ≤ stats.size.toNat by omega) word
  have last := upper_index_inside least most many word
  rw [← level] at below above last
  have reads := percentile_next (sortedSamples qsort stats) held most below above (by omega)
  exact ⟨_,_,reads,sortedSamples_ascending qsort ascending below (by omega),
    sortedSamples_ascending qsort ascending above (by omega)⟩

theorem results_ordered {n : Nat} (many : 726 ≤ n) (held : n ≤ aggSampleSize) : OrderedResults n := by
  intro qsort stats size ascending
  subst size
  have positive : 0 < stats.size := by
    rw [UInt32.lt_iff_toNat_lt]
    exact lt_of_lt_of_le (by norm_num) many
  have literal (percent : UInt32) (p : ℝ) (value : p = (percent.toNat : ℝ) / 100) (least : 50 ≤ percent.toNat)
      (most : percent.toNat ≤ 99) := percentile_ordered qsort value least most many held ascending
  obtain ⟨low50,high50,reads50,below50,above50⟩ := literal 50 0.50 (by norm_num [show UInt32.toNat 50 = 50 from rfl]) (by decide) (by decide)
  obtain ⟨low90,high90,reads90,below90,above90⟩ := literal 90 0.90 (by norm_num [show UInt32.toNat 90 = 90 from rfl]) (by decide) (by decide)
  obtain ⟨low95,high95,reads95,below95,above95⟩ := literal 95 0.95 (by norm_num [show UInt32.toNat 95 = 95 from rfl]) (by decide) (by decide)
  obtain ⟨low99,high99,reads99,below99,above99⟩ := literal 99 0.99 (by norm_num [show UInt32.toNat 99 = 99 from rfl]) (by decide) (by decide)
  simp only [computeLatencyPercentilesCi,decide_eq_true positive,Outcome.assert_true,Outcome.next_bind]
  rw [reads50,reads90,reads95,reads99]
  have ranks (first second : Nat) (before : first ≤ second) (most : second ≤ 99) :
      (sortedSamples qsort stats (stats.size.toNat * first / 100)).nsec ≤
        (sortedSamples qsort stats (stats.size.toNat * second / 100)).nsec := by
    apply sortedSamples_ascending qsort ascending
    · exact Nat.div_le_div_right (Nat.mul_le_mul_left _ before)
    · exact (Nat.div_lt_iff_lt_mul (by norm_num)).mpr (by nlinarith)
  exact ⟨_,rfl,⟨below50,above50⟩,⟨below90,above90⟩,⟨below95,above95⟩,⟨below99,above99⟩,
    ranks 50 90 (by norm_num) (by norm_num),ranks 90 95 (by norm_num) (by norm_num),ranks 95 99 (by norm_num) (by norm_num)⟩

theorem inside_of_many {n percent : Nat} (least : 50 ≤ percent) (most : percent ≤ 99) (many : 726 ≤ n) (word : n < 2^31) :
    Inside n (part percent) := by
  obtain ⟨below,above⟩ := indices_around least most (show 4 ≤ n by omega) word
  exact ⟨below.trans above,upper_index_inside least most many word⟩

/-- From 726 samples on all indices are inside and the results in order. -/
theorem percentiles_inside_iff (n : Nat) (positive : 1 ≤ n) (word : n < 2^31) :
    ((∀ p ∈ [0.50,0.90,0.95,0.99], Inside n p) ∧ (n ≤ aggSampleSize → OrderedResults n)) ↔ 726 ≤ n := by
  constructor
  · rintro ⟨inside,-⟩
    exact many_of_inside positive word (inside 0.99 (by simp))
  · intro many
    refine ⟨?_,results_ordered many⟩
    intro p listed
    have levels : p = part 50 ∨ p = part 90 ∨ p = part 95 ∨ p = part 99 := by
      norm_num [part] at listed ⊢
      exact listed
    rcases levels with rfl | rfl | rfl | rfl
    all_goals exact inside_of_many (by norm_num) (by norm_num) many word

theorem percentiles_inside_thousand : (∀ p ∈ [0.50,0.90,0.95,0.99], Inside 1000 p) ∧ OrderedResults 1000 := by
  obtain ⟨inside,ordered⟩ := (percentiles_inside_iff 1000 (by norm_num) (by norm_num)).mpr (by norm_num)
  exact ⟨inside,ordered (by decide)⟩

/-- With a hundred samples the upper index of the last percentile is after the last sample. -/
theorem hundred_samples_outside : ¬Inside 100 0.99 := by
  intro inside
  exact absurd (many_of_inside (by norm_num) (by norm_num) inside) (by norm_num)

end Lancet.ExactPercentiles
