import Lancet.Foundation.Distributions
import Lancet.RandGen

/-! The inverse distribution functions of the location-scale-shape families over exact numbers.
The Pareto one is right everywhere. The extreme value one raises `-exp(y)` to a power in the
place of `-log(y)`. -/
namespace Lancet.InverseCdf
open Foundation Distributions RandGen

variable {params : ParamLss ℝ} {y : ℝ}

/-- The value of the generator is in the support of the distribution, and `y` of it lies below. -/
def Inverts (gen : RandGen ℝ) (support : Set ℝ) (cdf : ℝ → ℝ) (y : ℝ) : Prop :=
  ∃ x, invCdf gen y = .next (some x) ∧ x ∈ support ∧ cdf x = y

def GparInverts (params : ParamLss ℝ) (y : ℝ) : Prop :=
  Inverts (.gpar params) (gparSupport params.loc params.scale params.shape)
    (gparCdf params.loc params.scale params.shape) y

def GevInverts (params : ParamLss ℝ) (y : ℝ) : Prop :=
  Inverts (.gev params) (gevSupport params.loc params.scale params.shape)
    (gevCdf params.loc params.scale params.shape) y

theorem gparInvCdf_value (params : ParamLss ℝ) (below : y < 1) :
    gparInvCdf params y = some (params.loc + params.scale * ((1 - y) ^ (-params.shape) - 1) / params.shape) := by
  have base : 0 < 1 - y := by linarith
  have power : CMath.pow (CDouble.ofInt 1 - y) (CMath.neg params.shape) = some ((1 - y) ^ (-params.shape)) := by
    rw [ExactDouble.ofInt_eq,ExactMath.neg_eq,Int.cast_one]
    exact ExactMath.pow_pos base _
  rw [gparInvCdf,power,Option.map_some,ExactDouble.ofInt_eq,Int.cast_one]

theorem gpar_inverts (scaled : 0 < params.scale) (shaped : params.shape ≠ 0) (low : 0 < y) (high : y < 1) :
    GparInverts params y :=
  ⟨_,congrArg Outcome.next (gparInvCdf_value params high),gpar_quantile scaled shaped low high⟩

/-- With a shape that is no integer there is no value. -/
theorem gevInvCdf_broken (broken : ∀ n : ℤ, params.shape ≠ n) (y : ℝ) : gevInvCdf params y = none := by
  have negative : CMath.neg (CMath.exp y) < (0 : ℝ) := by
    rw [ExactMath.neg_eq,ExactMath.exp_eq,neg_lt_zero]
    exact Real.exp_pos y
  have exponent : ∀ n : ℤ, CMath.neg params.shape ≠ (n : ℝ) := by
    intro n same
    rw [ExactMath.neg_eq] at same
    exact broken (-n) (by rw [Int.cast_neg,← same,neg_neg])
  rw [gevInvCdf,ExactMath.pow_neg_none negative exponent]
  rfl

theorem gevInvCdf_integer {n : ℤ} (integer : params.shape = n) (y : ℝ) :
    gevInvCdf params y = some (params.loc + params.scale * ((-Real.exp y) ^ (-n) - 1) / params.shape) := by
  have negative : -Real.exp y < 0 := neg_lt_zero.mpr (Real.exp_pos y)
  have power : CMath.pow (CMath.neg (CMath.exp y)) (CMath.neg params.shape) = some ((-Real.exp y) ^ (-n)) := by
    rw [ExactMath.neg_eq,ExactMath.exp_eq,ExactMath.neg_eq,integer,← Int.cast_neg]
    exact ExactMath.pow_neg negative (-n)
  rw [gevInvCdf,power,Option.map_some,ExactDouble.ofInt_eq,Int.cast_one]

/-- To an even power the sign is lost, and the value is the one for `exp(y)`. -/
theorem gev_even {n : ℤ} (even : Even n) (integer : params.shape = n) (scaled : 0 < params.scale) (shaped : params.shape ≠ 0)
    (y : ℝ) : params.loc + params.scale * ((-Real.exp y) ^ (-n) - 1) / params.shape ∈
        gevSupport params.loc params.scale params.shape ∧
      gevCdf params.loc params.scale params.shape
        (params.loc + params.scale * ((-Real.exp y) ^ (-n) - 1) / params.shape) = Real.exp (-Real.exp y) := by
  have positive := Real.exp_pos y
  have power : (-Real.exp y) ^ (-n) = Real.exp y ^ (-params.shape) := by
    rw [Even.neg_zpow even.neg,integer,← Int.cast_neg,Real.rpow_intCast]
  constructor
  · rw [gevSupport,Set.mem_ofPred_eq,standard_of_power scaled shaped,power]
    exact Real.rpow_pos_of_pos positive _
  · rw [gevCdf,standard_of_power scaled shaped,power,rpow_undone shaped positive]

/-- To an odd power the value lies outside the support. -/
theorem gev_odd {n : ℤ} (odd : Odd n) (scaled : 0 < params.scale) (shaped : params.shape ≠ 0) (y : ℝ) :
    params.loc + params.scale * ((-Real.exp y) ^ (-n) - 1) / params.shape ∉
      gevSupport params.loc params.scale params.shape := by
  have power : 0 < Real.exp y ^ (-n) := zpow_pos (Real.exp_pos y) _
  rw [gevSupport,Set.mem_ofPred_eq,standard_of_power scaled shaped,Odd.neg_zpow odd.neg]
  linarith

theorem gev_inverts_iff (scaled : 0 < params.scale) (shaped : params.shape ≠ 0) :
    GevInverts params y ↔ (∃ n : ℤ, Even n ∧ params.shape = n) ∧ y = Real.exp (-Real.exp y) := by
  constructor
  · rintro ⟨x,returned,inside,sampled⟩
    have value : gevInvCdf params y = some x := Outcome.next.inj returned
    by_cases whole : ∃ n : ℤ, params.shape = n
    · obtain ⟨n,integer⟩ := whole
      rw [gevInvCdf_integer integer] at value
      rw [← Option.some.inj value] at inside sampled
      rcases Int.even_or_odd n with even | odd
      · rw [(gev_even even integer scaled shaped y).2] at sampled
        exact ⟨⟨n,even,integer⟩,sampled.symm⟩
      · exact absurd inside (gev_odd odd scaled shaped y)
    · rw [gevInvCdf_broken (fun n integer => whole ⟨n,integer⟩)] at value
      cases value
  · rintro ⟨⟨n,even,integer⟩,fixed⟩
    obtain ⟨inside,sampled⟩ := gev_even even integer scaled shaped y
    exact ⟨_,congrArg Outcome.next (gevInvCdf_integer integer y),inside,sampled.trans fixed.symm⟩

/-- Both families are sampled right only where the extreme value one is by chance. -/
theorem inverse_cdf_iff (scaled : 0 < params.scale) (shaped : params.shape ≠ 0) (low : 0 < y) (high : y < 1) :
    GparInverts params y ∧ (GparInverts params y ∧ GevInverts params y ↔
      (∃ n : ℤ, Even n ∧ params.shape = n) ∧ y = Real.exp (-Real.exp y)) := by
  have gpar := gpar_inverts scaled shaped low high
  exact ⟨gpar,(and_iff_right gpar).trans (gev_inverts_iff scaled shaped)⟩

theorem exists_fixed : ∃ y : ℝ, 0 < y ∧ y < 1 ∧ y = Real.exp (-Real.exp y) := by
  have continuous : ContinuousOn (fun y : ℝ => y - Real.exp (-Real.exp y)) (Set.Icc 0 1) := by fun_prop
  have below : (0 : ℝ) - Real.exp (-Real.exp 0) < 0 := by
    rw [zero_sub,neg_lt_zero]
    exact Real.exp_pos _
  have above : 0 < (1 : ℝ) - Real.exp (-Real.exp 1) := by
    rw [sub_pos,Real.exp_lt_one_iff,neg_lt_zero]
    exact Real.exp_pos 1
  obtain ⟨y,⟨low,high⟩,zero⟩ := intermediate_value_Ioo zero_le_one continuous ⟨below,above⟩
  exact ⟨y,low,high,sub_eq_zero.mp zero⟩

/-- The chance is there, with a shape of 2. -/
theorem inverse_cdf_half : GparInverts ⟨0,16,2⟩ (1 / 2) ∧
    ∃ y, 0 < y ∧ y < 1 ∧ GparInverts ⟨0,16,2⟩ y ∧ GevInverts ⟨0,16,2⟩ y := by
  constructor
  · exact (@inverse_cdf_iff ⟨0,16,2⟩ (1 / 2) (by norm_num) (by norm_num) (by norm_num) (by norm_num)).1
  · obtain ⟨y,low,high,fixed⟩ := exists_fixed
    exact ⟨y,low,high,(@inverse_cdf_iff ⟨0,16,2⟩ y (by norm_num) (by norm_num) low high).2.mpr ⟨⟨2,even_two,by norm_num⟩,fixed⟩⟩

/-- The parameters of the key sizes give no number at all. -/
theorem key_sizes_undefined : invCdf (.gev ⟨30.7984,8.20449,0.078688⟩) (1 / 2 : ℝ) = .next none ∧
    ¬GevInverts ⟨30.7984,8.20449,0.078688⟩ (1 / 2) := by
  have broken : ∀ n : ℤ, (⟨30.7984,8.20449,0.078688⟩ : ParamLss ℝ).shape ≠ n := by
    intro n same
    have above : (0 : ℝ) < n := by
      rw [← same]
      norm_num
    have below : (n : ℝ) < 1 := by
      rw [← same]
      norm_num
    norm_cast at above below
    omega
  have undefined := gevInvCdf_broken broken (1 / 2)
  refine ⟨congrArg Outcome.next undefined,?_⟩
  rintro ⟨x,returned,-⟩
  have value := Outcome.next.inj returned
  rw [undefined] at value
  cases value

end Lancet.InverseCdf
