import Mathlib

/-! Distributions of a location, a scale and a shape, sampled through the inverse of their
distribution function, and the means of what such samplers return. -/
namespace Foundation.Distributions
open MeasureTheory

/-- A sampler on the unit interval with a mean. -/
structure MeanOf (sample : ℝ → ℝ) (mean : ℝ) : Prop where
  integrable : IntervalIntegrable sample volume 0 1
  integral : ∫ y in (0 : ℝ)..1, sample y = mean

theorem MeanOf.affine {sample : ℝ → ℝ} {mean : ℝ} (has : MeanOf sample mean) (shift factor : ℝ) :
    MeanOf (fun y => shift + factor * sample y) (shift + factor * mean) := by
  have scaled : IntervalIntegrable (fun y => factor * sample y) volume 0 1 := has.integrable.const_mul factor
  refine ⟨intervalIntegrable_const.add scaled,?_⟩
  rw [intervalIntegral.integral_add intervalIntegrable_const scaled,intervalIntegral.integral_const_mul,has.integral,
    intervalIntegral.integral_const]
  simp

theorem meanOf_const (value : ℝ) : MeanOf (fun _ => value) value :=
  ⟨intervalIntegrable_const,by simp⟩

theorem meanOf_log : MeanOf Real.log (-1) := by
  refine ⟨intervalIntegral.intervalIntegrable_log',?_⟩
  rw [integral_log]
  simp

/-- A real power of the distance from 1, as long as its integral is finite. -/
theorem meanOf_rpow {shape : ℝ} (light : shape < 1) : MeanOf (fun y => (1 - y) ^ (-shape)) (1 / (1 - shape)) := by
  have above : -1 < -shape := by linarith
  have positive : (0 : ℝ) < -shape + 1 := by linarith
  constructor
  · have power : IntervalIntegrable (fun y : ℝ => y ^ (-shape)) volume 1 0 := intervalIntegral.intervalIntegrable_rpow' above
    simpa using power.comp_sub_left 1
  · rw [intervalIntegral.integral_comp_sub_left (fun y : ℝ => y ^ (-shape)) 1,integral_rpow (.inl above)]
    rw [sub_self,sub_zero,Real.one_rpow,Real.zero_rpow positive.ne']
    ring

section Families
variable (loc scale shape : ℝ)

/-- What the two families raise to a power. -/
noncomputable def standard (x : ℝ) : ℝ := 1 + shape * (x - loc) / scale

noncomputable def gparCdf (x : ℝ) : ℝ := 1 - standard loc scale shape x ^ (-1 / shape)

def gparSupport : Set ℝ := {x | loc ≤ x ∧ (shape < 0 → x ≤ loc - scale / shape)}

noncomputable def gevCdf (x : ℝ) : ℝ := Real.exp (-standard loc scale shape x ^ (-1 / shape))

def gevSupport : Set ℝ := {x | 0 < standard loc scale shape x}

variable {loc scale shape}

theorem standard_of_power (scaled : 0 < scale) (shaped : shape ≠ 0) (power : ℝ) :
    standard loc scale shape (loc + scale * (power - 1) / shape) = power := by
  rw [standard]
  field_simp
  ring

/-- The power that undoes another one. -/
theorem rpow_undone (shaped : shape ≠ 0) {base : ℝ} (positive : 0 < base) : (base ^ (-shape)) ^ (-1 / shape) = base := by
  have product : -shape * (-1 / shape) = 1 := by
    field_simp
  rw [← Real.rpow_mul positive.le,product,Real.rpow_one]

theorem gpar_quantile (scaled : 0 < scale) (shaped : shape ≠ 0) {y : ℝ} (low : 0 < y) (high : y < 1) :
    loc + scale * ((1 - y) ^ (-shape) - 1) / shape ∈ gparSupport loc scale shape ∧
      gparCdf loc scale shape (loc + scale * ((1 - y) ^ (-shape) - 1) / shape) = y := by
  have base : 0 < 1 - y := by linarith
  have below : 1 - y < 1 := by linarith
  refine ⟨⟨?_,fun negative => ?_⟩,?_⟩
  · have above : 0 ≤ scale * ((1 - y) ^ (-shape) - 1) / shape := by
      rcases lt_or_gt_of_ne shaped with negative | positive
      · have small : (1 - y) ^ (-shape) ≤ 1 := (Real.rpow_lt_one base.le below (by linarith)).le
        exact div_nonneg_of_nonpos (mul_nonpos_of_nonneg_of_nonpos scaled.le (by linarith)) negative.le
      · have large : 1 ≤ (1 - y) ^ (-shape) := (Real.one_lt_rpow_of_pos_of_lt_one_of_neg base below (by linarith)).le
        exact div_nonneg (mul_nonneg scaled.le (by linarith)) positive.le
    linarith
  · have power : 0 < (1 - y) ^ (-shape) := Real.rpow_pos_of_pos base _
    have distance : scale * ((1 - y) ^ (-shape) - 1) / shape = scale * (1 - y) ^ (-shape) / shape - scale / shape := by ring
    have beyond : scale * (1 - y) ^ (-shape) / shape ≤ 0 := div_nonpos_of_nonneg_of_nonpos (mul_pos scaled power).le negative.le
    linarith
  · rw [gparCdf,standard_of_power scaled shaped,rpow_undone shaped base]
    ring

end Families
end Foundation.Distributions
