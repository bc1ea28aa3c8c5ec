import Lancet.Foundation.Empirical
import Lancet.Foundation.ExactDouble
import Lancet.Stats

/-! What `ks` and `ks_lts` compute. Their loop runs over two indices; on lists that are
used up from the front it is `ksLoop`, and without rounding it is the merge of the two
samples. -/
namespace Lancet.KsStatistic
open Foundation Stats

section Loop
variable {F : Type} [CDouble F]

structure KsState (F : Type) where
  ia : Int
  ib : Int
  maxDiff : F

def readAt (values : List UInt64) (index : Int) : Outcome UInt64 :=
  match index with
  | .ofNat index => if inside : index < values.length then .next values[index] else .fault
  | .negSucc _ => .fault

def farther (maxDiff diff : F) : F :=
  let size := if CDouble.lt diff (0.0 : F) then diff * CDouble.ofInt (-1) else diff
  if CDouble.lt maxDiff size then size else maxDiff

def ksPass (a b : List UInt64) (state : KsState F) : Outcome (KsState F) := do
  let aLen : F := CDouble.ofInt a.length
  let bLen : F := CDouble.ofInt b.length
  let headA ← readAt a state.ia
  let headB ← readAt b state.ib
  let minVal := if headA < headB then headA else headB
  let ia := if minVal = headA then state.ia + 1 else state.ia
  let ib := if minVal = headB then state.ib + 1 else state.ib
  let diff :=
    if minVal = headB then CDouble.ofInt (state.ib + 1) / bLen - CDouble.ofInt ia / aLen
    else CDouble.ofInt (state.ia + 1) / aLen - CDouble.ofInt state.ib / bLen
  return ⟨ia,ib,farther state.maxDiff diff⟩

/-- The loop of `ks`; there is no result while its condition still holds after the passes. -/
def ksMerge (a b : List UInt64) : Nat → KsState F → Outcome (Option F)
  | 0, state => return if state.ia < a.length ∧ state.ib < b.length then none else some state.maxDiff
  | passes + 1, state =>
    if state.ia < a.length ∧ state.ib < b.length then do
      let state' ← ksPass a b state
      ksMerge a b passes state'
    else return some state.maxDiff

def ksStart : KsState F := ⟨0,0,(0.0 : F)⟩

theorem readAt_head (before : List UInt64) (value : UInt64) (rest : List UInt64) :
    readAt (before ++ value :: rest) before.length = .next value := by
  simp [readAt]

section Steps
variable (aLen bLen : Int) (passes : Nat) {a b : UInt64} (as bs : List UInt64) (ia ib : Int) (maxDiff : F)

theorem ksLoop_less (less : a < b) : ksLoop aLen bLen (passes + 1) (a :: as) (b :: bs) ia ib maxDiff =
    ksLoop aLen bLen passes as (b :: bs) (ia + 1) ib
      (farther maxDiff (CDouble.ofInt (ia + 1) / CDouble.ofInt aLen - CDouble.ofInt ib / CDouble.ofInt bLen)) := by
  have differ : a ≠ b := UInt64.ne_of_lt less
  simp only [ksLoop,farther,if_pos less,if_true,if_neg differ]

theorem ksLoop_more (more : b < a) : ksLoop aLen bLen (passes + 1) (a :: as) (b :: bs) ia ib maxDiff =
    ksLoop aLen bLen passes (a :: as) bs ia (ib + 1)
      (farther maxDiff (CDouble.ofInt (ib + 1) / CDouble.ofInt bLen - CDouble.ofInt ia / CDouble.ofInt aLen)) := by
  have differ : b ≠ a := UInt64.ne_of_lt more
  simp only [ksLoop,farther,if_neg (UInt64.lt_asymm more),if_true,if_neg differ]

theorem ksLoop_same : ksLoop aLen bLen (passes + 1) (a :: as) (a :: bs) ia ib maxDiff =
    ksLoop aLen bLen passes as bs (ia + 1) (ib + 1)
      (farther maxDiff (CDouble.ofInt (ib + 1) / CDouble.ofInt bLen - CDouble.ofInt (ia + 1) / CDouble.ofInt aLen)) := by
  simp only [ksLoop,farther,ite_self,if_true]

end Steps

/-- The indices stay inside the arrays and the loop ends. -/
theorem ksMerge_suffixes (passes : Nat) (beforeA as beforeB bs : List UInt64) (maxDiff : F)
    (enough : as.length + bs.length ≤ passes) :
    ksMerge (beforeA ++ as) (beforeB ++ bs) passes ⟨beforeA.length,beforeB.length,maxDiff⟩ =
      .next (some (ksLoop (beforeA ++ as).length (beforeB ++ bs).length passes as bs beforeA.length beforeB.length maxDiff)) := by
  induction passes generalizing beforeA as beforeB bs maxDiff with
  | zero =>
    obtain rfl : as = [] := List.length_eq_zero_iff.mp (by omega)
    simp [ksMerge,ksLoop]
  | succ passes ih =>
    cases as with
    | nil => simp [ksMerge,ksLoop]
    | cons a as =>
      cases bs with
      | nil => simp [ksMerge,ksLoop]
      | cons b bs =>
        have going : ((beforeA.length : Int) < (beforeA ++ a :: as).length) ∧
            ((beforeB.length : Int) < (beforeB ++ b :: bs).length) := by simp
        have movedA : beforeA ++ a :: as = (beforeA ++ [a]) ++ as := by simp
        have movedB : beforeB ++ b :: bs = (beforeB ++ [b]) ++ bs := by simp
        have nextA : (beforeA.length : Int) + 1 = (beforeA ++ [a]).length := by simp
        have nextB : (beforeB.length : Int) + 1 = (beforeB ++ [b]).length := by simp
        rw [ksMerge,if_pos going]
        simp only [ksPass,readAt_head,Outcome.next_bind,Outcome.pure_eq]
        rw [List.length_cons,List.length_cons] at enough
        rcases lt_trichotomy a.toNat b.toNat with less | same | more
        · have less' : a < b := less
          have differ : a ≠ b := UInt64.ne_of_lt less'
          rw [ksLoop_less _ _ _ _ _ _ _ _ less']
          simp only [if_pos less',if_true,if_neg differ]
          rw [nextA,movedA]
          exact ih _ _ _ _ _ (by rw [List.length_cons]; omega)
        · obtain rfl := UInt64.toNat_inj.mp same
          rw [ksLoop_same]
          simp only [ite_self,if_true]
          rw [nextA,nextB,movedA,movedB]
          exact ih _ _ _ _ _ (by omega)
        · have more' : b < a := more
          have differ : b ≠ a := UInt64.ne_of_lt more'
          rw [ksLoop_more _ _ _ _ _ _ _ _ more']
          simp only [if_neg (UInt64.lt_asymm more'),if_true,if_neg differ]
          rw [nextB,movedB]
          exact ih _ _ _ _ _ (by rw [List.length_cons]; omega)

theorem ksMerge_finishes (a b : List UInt64) : ksMerge a b (a.length + b.length) ksStart = .next (some (ksSorted a b : F)) :=
  ksMerge_suffixes (a.length + b.length) [] a [] b (0.0 : F) (le_refl _)

end Loop

section Exact
open Empirical

noncomputable def level (value : UInt64) : ℝ := value.toNat

noncomputable def levels (values : List UInt64) : List ℝ := values.map level

theorem level_lt {a b : UInt64} : level a < level b ↔ a < b := Nat.cast_lt.trans UInt64.lt_iff_toNat_lt.symm

theorem level_le {a b : UInt64} : level a ≤ level b ↔ a ≤ b := Nat.cast_le.trans UInt64.le_iff_toNat_le.symm

theorem levels_sorted {values : List UInt64} (sorted : values.Pairwise (· ≤ ·)) : (levels values).Pairwise (· ≤ ·) :=
  List.pairwise_map.mpr (sorted.imp level_le.mpr)

theorem levels_length (values : List UInt64) : (levels values).length = values.length := List.length_map _

theorem farther_exact (maxDiff diff : ℝ) : farther maxDiff diff = max maxDiff |diff| := by
  have zero : ((0.0 : ℝ)) = 0 := by norm_num
  have size : (if diff < 0 then diff * (-1 : Int) else diff) = |diff| := by
    split
    next negative =>
      rw [abs_of_neg negative]
      push_cast
      ring
    next positive => rw [abs_of_nonneg (not_lt.mp positive)]
  simp only [farther,ExactDouble.lt_eq,ExactDouble.ofInt_eq,decide_eq_true_eq]
  erw [zero,size]
  rw [max_def_lt]

theorem ksLoop_walk (n m passes : Nat) (as bs : List UInt64) (i j : Nat) (maxDiff : ℝ) (enough : as.length + bs.length ≤ passes) :
    ksLoop n m passes as bs i j maxDiff = walk n m (levels as) (levels bs) i j maxDiff := by
  induction passes generalizing as bs i j maxDiff with
  | zero =>
    obtain rfl : as = [] := List.length_eq_zero_iff.mp (by omega)
    exact (walk_left _ _ _ _).symm
  | succ passes ih =>
    cases as with
    | nil => exact (walk_left _ _ _ _).symm
    | cons a as =>
      cases bs with
      | nil => exact (walk_right _ _ _ _).symm
      | cons b bs =>
        rw [List.length_cons,List.length_cons] at enough
        rcases lt_trichotomy a.toNat b.toNat with less | same | more
        · have further := ih as (b :: bs) (i + 1) j (max maxDiff (gap n m (i + 1) j)) (by rw [List.length_cons]; omega)
          rw [ksLoop_less _ _ _ _ _ _ _ _ less,farther_exact]
          exact further.trans (walk_less _ _ _ _ _ (level_lt.mpr less)).symm
        · obtain rfl := UInt64.toNat_inj.mp same
          have further := ih as bs (i + 1) (j + 1) (max maxDiff (gap n m (i + 1) (j + 1))) (by omega)
          rw [ksLoop_same,farther_exact,abs_sub_comm]
          exact further.trans (walk_same _ _ _ _ _ _).symm
        · have further := ih (a :: as) bs i (j + 1) (max maxDiff (gap n m i (j + 1))) (by rw [List.length_cons]; omega)
          rw [ksLoop_more _ _ _ _ _ _ _ _ more,farther_exact,abs_sub_comm]
          exact further.trans (walk_more _ _ _ _ _ (level_lt.mpr more)).symm

theorem ksSorted_walk (a b : List UInt64) :
    (ksSorted a b : ℝ) = walk (levels a).length (levels b).length (levels a) (levels b) 0 0 0 := by
  have zero : ((0.0 : ℝ)) = 0 := by norm_num
  rw [levels_length,levels_length,← zero]
  exact ksLoop_walk a.length b.length (a.length + b.length) a b 0 0 (0.0 : ℝ) (le_refl _)

theorem levels_ne_nil {values : List UInt64} (nonempty : values ≠ []) : levels values ≠ [] := by
  intro empty
  exact nonempty (List.map_eq_nil_iff.mp empty)

theorem ksSorted_distance {a b : List UInt64} (someA : a ≠ []) (someB : b ≠ []) (sortedA : a.Pairwise (· ≤ ·))
    (sortedB : b.Pairwise (· ≤ ·)) : Distance (levels a) (levels b) (ksSorted a b) ↔
      ∀ v ∈ a, v ∈ b → ∃ x, corner (levels a) (levels b) (level v) ≤ apart (levels a) (levels b) x := by
  have injective : Function.Injective level := by
    intro v w same
    exact UInt64.toNat_inj.mp (Nat.cast_injective same)
  rw [ksSorted_walk,distance_walk (levels_sorted sortedA) (levels_sorted sortedB) (levels_ne_nil someA) (levels_ne_nil someB)]
  constructor
  · intro shown v inA inB
    exact shown (level v) (List.mem_map_of_mem inA) (List.mem_map_of_mem inB)
  · intro shown v inA inB
    obtain ⟨value,inA',rfl⟩ := List.mem_map.mp inA
    exact shown value inA' ((List.mem_map_of_injective injective).mp inB)

/-- The loop gives the Kolmogorov-Smirnov statistic unless it shows too much at a value that the
arrays share but do not repeat equally often. -/
theorem ks_statistic_iff (a b : List UInt64) (someA : a ≠ []) (someB : b ≠ []) (sortedA : a.Pairwise (· ≤ ·))
    (sortedB : b.Pairwise (· ≤ ·)) :
    (∃ statistic, ksMerge a b (a.length + b.length) ksStart = .next (some statistic) ∧
      Distance (levels a) (levels b) statistic) ↔
      ∀ v ∈ a, v ∈ b → ∃ x, corner (levels a) (levels b) (level v) ≤ apart (levels a) (levels b) x := by
  rw [← ksSorted_distance someA someB sortedA sortedB]
  constructor
  · rintro ⟨statistic,finished,distance⟩
    rw [ksMerge_finishes] at finished
    cases finished
    exact distance
  · intro distance
    exact ⟨ksSorted a b,ksMerge_finishes a b,distance⟩

theorem ks_statistic_two : ∃ statistic, ksMerge [1,2] [2,3] 4 ksStart = .next (some statistic) ∧
    Distance (levels [1,2]) (levels [2,3]) statistic := by
  apply (ks_statistic_iff [1,2] [2,3] (by decide) (by decide) (by decide) (by decide)).mpr
  intro v inA inB
  obtain rfl : v = 2 := by
    rcases List.mem_pair.mp inA with rfl | rfl
    · exact absurd inB (by decide)
    · rfl
  have plain : levels [1,2] = [1,2] ∧ levels [2,3] = [2,3] ∧ level 2 = 2 := by
    simp [levels,level,show UInt64.toNat 1 = 1 from rfl,show UInt64.toNat 2 = 2 from rfl,show UInt64.toNat 3 = 3 from rfl]
  rw [plain.1,plain.2.1,plain.2.2]
  refine ⟨1,?_⟩
  norm_num [corner,common,below,apart,cdf,gap]

/-- One repetition too many: the functions are the same, the loop sees them half apart. -/
theorem repeated_value_fails : ksMerge [1,1] [1] 3 ksStart = .next (some (1 / 2 : ℝ)) ∧
    Distance (levels [1,1]) (levels [1]) 0 ∧ ¬Distance (levels [1,1]) (levels [1]) (1 / 2) := by
  constructor
  · have computed : (ksSorted [1,1] [1] : ℝ) = 1 / 2 := by
      rw [ksSorted_walk]
      norm_num [levels,walk,gap]
    exact (ksMerge_finishes [1,1] [1]).trans (by rw [computed])
  · have same (x : ℝ) : apart (levels [1,1]) (levels [1]) x = 0 := by
      by_cases reached : level 1 ≤ x
      · simp [apart,cdf,levels,reached]
      · simp [apart,cdf,levels,reached]
    have nowhere : Distance (levels [1,1]) (levels [1]) 0 := by
      refine ⟨⟨0,same 0⟩,?_⟩
      rintro _ ⟨x,rfl⟩
      exact (same x).le
    refine ⟨nowhere,?_⟩
    intro half
    have equal := nowhere.unique half
    norm_num at equal

end Exact
end Lancet.KsStatistic
