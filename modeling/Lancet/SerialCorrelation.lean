import Lancet.Convergence
import Lancet.Foundation.Correlation
import Lancet.Foundation.Sums

/-! What `check_iid` computes from consecutive samples. Its sums are 64-bit words. -/
namespace Lancet.SerialCorrelation
open Foundation Correlation Stats KsStatistic Convergence

section Terms
variable (F : Type) [CDouble F] (sorted : List UInt64)

def ofWord (x : UInt64) : F := CDouble.ofInt x.toNat

def pairs : F := CDouble.ofInt (sorted.length - 1 : Nat)

def avgX : F := ofWord F (sorted.tail.dropLast.sum + sorted.headD 0) / pairs F sorted

def avgY : F := ofWord F (sorted.tail.dropLast.sum + sorted.getLastD 0) / pairs F sorted

def avgSqrX : F :=
  ofWord F ((sorted.tail.dropLast.map fun x => x * x).sum + sorted.headD 0 * sorted.headD 0) / pairs F sorted

def avgSqrY : F :=
  ofWord F ((sorted.tail.dropLast.map fun x => x * x).sum + sorted.getLastD 0 * sorted.getLastD 0) / pairs F sorted

def varianceX : F := avgSqrX F sorted - avgX F sorted * avgX F sorted

def varianceY : F := avgSqrY F sorted - avgY F sorted * avgY F sorted

def covSum : F :=
  (sorted.zip sorted.tail).foldl
    (fun acc pair => acc + (ofWord F pair.1 - avgX F sorted) * (ofWord F pair.2 - avgY F sorted)) (0.0 : F)

end Terms

def sent (qsort : Qsort) (samples : List LatSample) : List UInt64 := (qsort.sort sampleCmpTx samples).map (·.nsec)

theorem checkIid_terms {F : Type} [CDouble F] (qsort : Qsort) (samples : List LatSample) : checkIid qsort samples =
    covSum F (sent qsort samples) / pairs F (sent qsort samples) /
      (CDouble.sqrt (varianceX F (sent qsort samples)) * CDouble.sqrt (varianceY F (sent qsort samples))) := rfl

section Words
variable (values : List UInt64)

def sum : Nat := (values.map UInt64.toNat).sum

def squares : Nat := (values.map fun x => x.toNat * x.toNat).sum

def sumWord : Nat := sum values % 2^64

def squaresWord : Nat := squares values % 2^64

noncomputable def average : ℝ := sumWord values / values.length

noncomputable def variance : ℝ := squaresWord values / values.length - average values * average values

theorem squares_word : (values.map fun x => x * x).sum.toNat = squaresWord values := by
  induction values with
  | nil => rfl
  | cons x rest ih =>
    rw [squaresWord,squares] at ih ⊢
    rw [List.map_cons,List.sum_cons,UInt64.toNat_add,UInt64.toNat_mul,ih,List.map_cons,List.sum_cons]
    omega

end Words

section Shape
variable (first last : UInt64) (middle : List UInt64)

theorem ofWord_exact (x : UInt64) : ofWord ℝ x = x.toNat := Int.cast_natCast _

theorem pairs_shape : pairs ℝ (first :: (middle ++ [last])) = (middle.length + 1 : Nat) := by
  simp [pairs]

theorem middle_shape : (first :: (middle ++ [last])).tail.dropLast = middle := by simp

theorem last_shape : (first :: (middle ++ [last])).getLastD 0 = last := by
  rw [List.getLastD_cons,List.getLastD_concat]

theorem avgX_shape : avgX ℝ (first :: (middle ++ [last])) = average (first :: middle) := by
  have total : middle.sum + first = (first :: middle).sum := by rw [List.sum_cons,UInt64.add_comm]
  rw [avgX,pairs_shape,middle_shape,List.headD_cons,total,ofWord_exact,sum_word]
  rfl

theorem avgY_shape : avgY ℝ (first :: (middle ++ [last])) = average (middle ++ [last]) := by
  have total : middle.sum + last = (middle ++ [last]).sum := by simp
  rw [avgY,pairs_shape,middle_shape,last_shape,total,ofWord_exact,sum_word,average,List.length_append]
  rfl

theorem varianceX_shape : varianceX ℝ (first :: (middle ++ [last])) = variance (first :: middle) := by
  have total : (middle.map fun x => x * x).sum + first * first = ((first :: middle).map fun x => x * x).sum := by
    rw [List.map_cons,List.sum_cons,UInt64.add_comm]
  rw [varianceX,avgX_shape,avgSqrX,pairs_shape,middle_shape,List.headD_cons,total,ofWord_exact,squares_word]
  rfl

theorem varianceY_shape : varianceY ℝ (first :: (middle ++ [last])) = variance (middle ++ [last]) := by
  have total : (middle.map fun x => x * x).sum + last * last = ((middle ++ [last]).map fun x => x * x).sum := by simp
  rw [varianceY,avgY_shape,avgSqrY,pairs_shape,middle_shape,last_shape,total,ofWord_exact,squares_word,variance,
    List.length_append]
  rfl

theorem foldl_sum {α : Type} (items : List α) (f : α → ℝ) (start : ℝ) :
    items.foldl (fun acc item => acc + f item) start = start + (items.map f).sum := by
  induction items generalizing start with
  | nil => simp
  | cons item rest ih =>
    rw [List.foldl_cons,ih,List.map_cons,List.sum_cons,add_assoc]

theorem covSum_shape : covSum ℝ (first :: (middle ++ [last])) =
    (((first :: middle).zip (middle ++ [last])).map fun pair =>
      (level pair.1 - average (first :: middle)) * (level pair.2 - average (middle ++ [last]))).sum := by
  have zipped : (first :: (middle ++ [last])).zip (middle ++ [last]) = (first :: middle).zip (middle ++ [last]) := by
    have split : ((first :: middle) ++ [last]).zip ((middle ++ [last]) ++ []) =
        (first :: middle).zip (middle ++ [last]) ++ [last].zip [] := List.zip_append (by simp)
    rwa [List.append_nil,List.zip_nil_right,List.append_nil] at split
  have zero : ((0.0 : ℝ)) = 0 := by norm_num
  rw [covSum,List.tail_cons,zipped,avgX_shape,avgY_shape]
  simp only [ofWord_exact]
  erw [foldl_sum,zero,zero_add]
  rfl

end Shape

section Exact
variable {values : List UInt64}

theorem sum_le_squares (values : List UInt64) : sum values ≤ squares values := List.sum_le_sum fun x _ => Nat.le_mul_self x.toNat

theorem levels_sum (values : List UInt64) : (levels values).sum = sum values := by
  rw [sum,Nat.cast_list_sum,List.map_map]
  rfl

theorem levels_squares (values : List UInt64) : ((levels values).map fun x => x * x).sum = squares values := by
  rw [squares,Nat.cast_list_sum,List.map_map,levels,List.map_map]
  congr 1
  apply List.map_congr_left
  intro x _
  simp [level]

theorem average_exact (fits : squares values < 2^64) : average values = mean (levels values) := by
  have word : sumWord values = sum values := Nat.mod_eq_of_lt ((sum_le_squares values).trans_lt fits)
  rw [average,word,mean,levels_sum,levels_length]

theorem variance_exact (nonempty : values ≠ []) (fits : squares values < 2^64) :
    variance values = spread (levels values) / values.length := by
  have word : squaresWord values = squares values := Nat.mod_eq_of_lt fits
  have whole := variance_spread (levels_ne_nil nonempty)
  rw [levels_length,levels_squares] at whole
  rw [variance,average_exact fits,word,whole]

end Exact

/-- What the check computes is meant to be. -/
structure Correlated (qsort : Qsort) (samples : List LatSample) : Prop where
  order : (qsort.sort sampleCmpTx samples).Pairwise SentBefore
  varianceX_nonneg : 0 ≤ varianceX ℝ (sent qsort samples)
  varianceY_nonneg : 0 ≤ varianceY ℝ (sent qsort samples)
  correlation : 0 < varianceX ℝ (sent qsort samples) → 0 < varianceY ℝ (sent qsort samples) →
    checkIid qsort samples = pearson (levels (sent qsort samples).dropLast) (levels (sent qsort samples).tail) ∧
      -1 ≤ (checkIid qsort samples : ℝ) ∧ (checkIid qsort samples : ℝ) ≤ 1

theorem shape_of_length {values : List UInt64} (enough : 2 ≤ values.length) :
    ∃ first middle last, values = first :: (middle ++ [last]) := by
  obtain ⟨first,rest,rfl⟩ := List.exists_cons_of_length_pos (show 0 < values.length by omega)
  rw [List.length_cons] at enough
  obtain ⟨middle,last,rfl⟩ := (List.eq_nil_or_concat' rest).resolve_left (List.ne_nil_of_length_pos (by omega))
  exact ⟨first,middle,last,rfl⟩

theorem scaled_quotient {cov a b : ℝ} {count : Nat} (least : 0 < count) (first : 0 ≤ a) (second : 0 ≤ b) :
    cov / count / (√(a / count) * √(b / count)) = cov / (√a * √b) := by
  have positive : (count : ℝ) ≠ 0 := by exact_mod_cast least.ne'
  have root := Real.mul_self_sqrt (Nat.cast_nonneg count : (0 : ℝ) ≤ count)
  rw [Real.sqrt_div first,Real.sqrt_div second,div_mul_div_comm,root,div_div_div_cancel_right₀ positive]

theorem sent_length (qsort : Qsort) (samples : List LatSample) : (sent qsort samples).length = samples.length := by
  rw [sent,List.length_map,qsort.length]

theorem correlated_of_fits (qsort : Qsort) {samples : List LatSample} (enough : 2 ≤ samples.length)
    (fitsX : squares (sent qsort samples).dropLast < 2^64) (fitsY : squares (sent qsort samples).tail < 2^64) :
    Correlated qsort samples := by
  have terms := checkIid_terms (F := ℝ) qsort samples
  have order := sorted_tx qsort samples
  have length := sent_length qsort samples
  obtain ⟨first,middle,last,shape⟩ := shape_of_length (show 2 ≤ (sent qsort samples).length by omega)
  have front : (sent qsort samples).dropLast = first :: middle := by
    rw [shape,← List.cons_append,List.dropLast_concat]
  have back : (sent qsort samples).tail = middle ++ [last] := by rw [shape,List.tail_cons]
  rw [front] at fitsX
  rw [back] at fitsY
  have varianceX' := (varianceX_shape first last middle).trans (variance_exact (by simp) fitsX)
  have varianceY' := (varianceY_shape first last middle).trans (variance_exact (by simp) fitsY)
  rw [List.length_cons] at varianceX'
  rw [List.length_append,List.length_singleton] at varianceY'
  have spreadX := spread_nonneg (levels (first :: middle))
  have spreadY := spread_nonneg (levels (middle ++ [last]))
  have computed : (checkIid qsort samples : ℝ) = pearson (levels (first :: middle)) (levels (middle ++ [last])) := by
    rw [terms,shape,ExactDouble.sqrt_eq,ExactDouble.sqrt_eq,varianceX',varianceY',pairs_shape,covSum_shape,
      average_exact fitsX,average_exact fitsY,scaled_quotient (Nat.succ_pos _) spreadX spreadY,pearson,levels,levels,
      List.zip_map,List.map_map]
    rfl
  have paired : (levels (first :: middle)).length = (levels (middle ++ [last])).length := by simp [levels_length]
  have range := pearson_range paired
  rw [← computed] at range
  refine ⟨order,?_,?_,?_⟩
  · rw [shape,varianceX']
    positivity
  · rw [shape,varianceY']
    positivity
  · intro _ _
    rw [front,back]
    exact ⟨computed,range⟩

/-- A sum of squares that wraps to nothing leaves a negative variance. -/
theorem variance_neg {values : List UInt64} (total : sum values = 2^32) (wraps : squares values = 2^64) : variance values < 0 := by
  have nonempty : values ≠ [] := by
    rintro rfl
    rw [sum,List.map_nil,List.sum_nil] at total
    norm_num at total
  have length : (0 : ℝ) < values.length := by exact_mod_cast List.length_pos_of_ne_nil nonempty
  have nothing : squaresWord values = 0 := by rw [squaresWord,wraps,Nat.mod_self]
  have whole : sumWord values = 2^32 := by rw [sumWord,total,Nat.mod_eq_of_lt (by norm_num)]
  have positive : 0 < average values := by
    rw [average,whole]
    positivity
  rw [variance,nothing,Nat.cast_zero,zero_div,zero_sub]
  exact neg_neg_of_pos (mul_pos positive positive)

/-- One latency of 2^32 nanoseconds among latencies of zero. -/
def spikeSamples (n : Nat) : List LatSample :=
  ⟨4294967296,Timestamping.Timespec.zero⟩ :: List.replicate (n - 1) ⟨0,Timestamping.Timespec.zero⟩

theorem spike_sent (qsort : Qsort) (n : Nat) :
    sum (sent qsort (spikeSamples n)) = 2^32 ∧ ∀ value ∈ sent qsort (spikeSamples n), value = 0 ∨ value = 4294967296 := by
  have permuted : (sent qsort (spikeSamples n)).Perm (4294967296 :: List.replicate (n - 1) 0) := by
    have sorted := (qsort.perm sampleCmpTx (spikeSamples n)).map (·.nsec)
    rwa [spikeSamples,List.map_cons,List.map_replicate] at sorted
  constructor
  · have zero : UInt64.toNat 0 = 0 := rfl
    have spike : UInt64.toNat 4294967296 = 4294967296 := rfl
    rw [sum,(permuted.map _).sum_eq,List.map_cons,List.map_replicate,List.sum_cons,List.sum_replicate,smul_eq_mul,zero,spike,
      Nat.mul_zero]
    norm_num
  · intro value listed
    rcases List.mem_cons.mp (permuted.mem_iff.mp listed) with rfl | zero
    · exact .inr rfl
    · exact .inl (List.eq_of_mem_replicate zero)

theorem squares_spike {values : List UInt64} (each : ∀ value ∈ values, value = 0 ∨ value = 4294967296) :
    squares values = 2^32 * sum values := by
  have products : (values.map fun x => x.toNat * x.toNat) = (values.map UInt64.toNat).map (2^32 * ·) := by
    rw [List.map_map]
    apply List.map_congr_left
    intro value listed
    rcases each value listed with rfl | rfl
    · rfl
    · rfl
  rw [squares,products,List.sum_map_mul_left,List.map_id',sum]

theorem spike_not_correlated (qsort : Qsort) {n : Nat} (enough : 2 ≤ n) : ¬Correlated qsort (spikeSamples n) := by
  intro correlated
  obtain ⟨total,each⟩ := spike_sent qsort n
  have length := sent_length qsort (spikeSamples n)
  rw [spikeSamples,List.length_cons,List.length_replicate,← spikeSamples] at length
  obtain ⟨first,middle,last,shape⟩ := shape_of_length (show 2 ≤ (sent qsort (spikeSamples n)).length by omega)
  have nonnegX := correlated.varianceX_nonneg
  have nonnegY := correlated.varianceY_nonneg
  rw [shape,varianceX_shape] at nonnegX
  rw [shape,varianceY_shape] at nonnegY
  rw [shape] at total each
  have eachX : ∀ value ∈ first :: middle, value = 0 ∨ value = 4294967296 := fun value listed =>
    each value (by rw [← List.cons_append]; exact List.mem_append_left _ listed)
  have eachY : ∀ value ∈ middle ++ [last], value = 0 ∨ value = 4294967296 := fun value listed =>
    each value (List.mem_cons_of_mem _ listed)
  have zero : UInt64.toNat 0 = 0 := rfl
  have spike : UInt64.toNat 4294967296 = 2^32 := rfl
  simp only [sum,List.map_cons,List.map_append,List.sum_cons,List.sum_append,List.map_nil,List.sum_nil] at total
  -- the long latency is in the first series unless it is the last of all
  rcases eachY last (by simp) with rfl | rfl
  · have sumX : sum (first :: middle) = 2^32 := by
      rw [sum,List.map_cons,List.sum_cons]
      omega
    have squaresX := squares_spike eachX
    rw [sumX] at squaresX
    exact absurd (variance_neg sumX squaresX) (not_lt.mpr nonnegX)
  · have sumY : sum (middle ++ [4294967296]) = 2^32 := by
      rw [sum,List.map_append,List.sum_append,List.map_singleton,List.sum_singleton]
      omega
    have squaresY := squares_spike eachY
    rw [sumY] at squaresY
    exact absurd (variance_neg sumY squaresY) (not_lt.mpr nonnegY)

theorem squares_sublist {part whole : List UInt64} (sub : part.Sublist whole) : squares part ≤ squares whole :=
  (sub.map _).sum_le_sum (fun _ _ => Nat.zero_le _)

/-- In all arrays the sums of the squares of both series have to fit into 64 bits. -/
theorem correlation_iff (n most : Nat) (enough : 2 ≤ n) :
    (∀ qsort samples, samples.length = n → squares (sent qsort samples).dropLast ≤ most →
      squares (sent qsort samples).tail ≤ most → Correlated qsort samples) ↔ most < 2^64 := by
  constructor
  · intro correlates
    by_contra wraps
    obtain ⟨total,each⟩ := spike_sent Qsort.insertion n
    have whole : squares (sent Qsort.insertion (spikeSamples n)) ≤ most := by
      rw [squares_spike each,total]
      exact le_trans (by norm_num) (Nat.le_of_not_lt wraps)
    apply spike_not_correlated Qsort.insertion enough
    apply correlates
    · rw [spikeSamples,List.length_cons,List.length_replicate]
      omega
    · exact (squares_sublist (List.dropLast_sublist _)).trans whole
    · exact (squares_sublist (List.tail_sublist _)).trans whole
  · intro fits qsort samples length fitsX fitsY
    subst length
    exact correlated_of_fits qsort enough (fitsX.trans_lt fits) (fitsY.trans_lt fits)

/-- Five different latencies, which stand in another order than they were sent in. -/
def variedSamples : List LatSample := [⟨70000,⟨2,0⟩⟩,⟨50000,⟨1,0⟩⟩,⟨60000,⟨3,0⟩⟩,⟨90000,⟨5,0⟩⟩,⟨80000,⟨4,0⟩⟩]

theorem varied_sent : sent Qsort.insertion variedSamples = [50000,70000,60000,80000,90000] := by decide

theorem correlation_varied : Correlated Qsort.insertion variedSamples :=
  (correlation_iff 5 (2^64 - 1) (by norm_num)).mpr (by norm_num) Qsort.insertion variedSamples rfl
    (by rw [varied_sent]; decide) (by rw [varied_sent]; decide)

def constantSamples (n v : Nat) : List LatSample := List.replicate n ⟨UInt64.ofNat v,Timestamping.Timespec.zero⟩

theorem constant_sent (qsort : Qsort) (n v : Nat) : sent qsort (constantSamples n v) = List.replicate n (UInt64.ofNat v) := by
  rw [sent,List.perm_replicate.mp (qsort.perm sampleCmpTx (constantSamples n v)),List.map_replicate]

/-- Twenty samples of one second: the sum of the squares wraps and the variance is negative. -/
theorem second_latencies_fail : ¬Correlated Qsort.insertion (constantSamples 20 1000000000) := by
  intro correlated
  have nonneg := correlated.varianceX_nonneg
  have value : (UInt64.ofNat 1000000000).toNat = 1000000000 := rfl
  have shape : sent Qsort.insertion (constantSamples 20 1000000000) =
      UInt64.ofNat 1000000000 :: (List.replicate 18 (UInt64.ofNat 1000000000) ++ [UInt64.ofNat 1000000000]) := constant_sent _ _ _
  rw [shape,varianceX_shape,← List.replicate_succ,variance,average,sumWord,squaresWord,sum,squares,List.map_replicate,
    List.map_replicate,List.sum_replicate,List.sum_replicate,List.length_replicate,value] at nonneg
  norm_num at nonneg

end Lancet.SerialCorrelation
