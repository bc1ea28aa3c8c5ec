import Mathlib

/-! The Pearson correlation of two series, and the variance in its one-pass form. -/
namespace Foundation.Correlation

noncomputable def mean (values : List ℝ) : ℝ := values.sum / values.length

/-- The squared deviations from the mean, added up. -/
noncomputable def spread (values : List ℝ) : ℝ := (values.map fun x => (x - mean values)^2).sum

noncomputable def pearson (xs ys : List ℝ) : ℝ :=
  ((xs.zip ys).map fun pair => (pair.1 - mean xs) * (pair.2 - mean ys)).sum / (√(spread xs) * √(spread ys))

theorem spread_nonneg (values : List ℝ) : 0 ≤ spread values := by
  apply List.sum_nonneg
  intro square listed
  obtain ⟨x,-,rfl⟩ := List.mem_map.mp listed
  exact sq_nonneg _

theorem sum_deviations (values : List ℝ) (center : ℝ) : (values.map fun x => (x - center)^2).sum =
    (values.map fun x => x * x).sum - 2 * center * values.sum + values.length * center^2 := by
  induction values with
  | nil => simp
  | cons x rest ih =>
    rw [List.map_cons,List.sum_cons,ih,List.map_cons,List.sum_cons,List.sum_cons,List.length_cons]
    push_cast
    ring

theorem variance_spread {values : List ℝ} (nonempty : values ≠ []) :
    (values.map fun x => x * x).sum / values.length - mean values * mean values = spread values / values.length := by
  have length : (values.length : ℝ) ≠ 0 := by exact_mod_cast (List.length_pos_iff.mpr nonempty).ne'
  rw [spread,sum_deviations,mean]
  field_simp
  ring

theorem sum_products_square {α : Type} (items : List α) (f g : α → ℝ) :
    (items.map fun item => f item * g item).sum^2 ≤ (items.map fun item => f item^2).sum * (items.map fun item => g item^2).sum := by
  rw [← Fin.sum_univ_fun_getElem,← Fin.sum_univ_fun_getElem,← Fin.sum_univ_fun_getElem]
  exact Finset.sum_mul_sq_le_sq_mul_sq _ _ _

theorem pearson_range {xs ys : List ℝ} (paired : xs.length = ys.length) : -1 ≤ pearson xs ys ∧ pearson xs ys ≤ 1 := by
  have first (f : ℝ → ℝ) : ((xs.zip ys).map fun pair => f pair.1).sum = (xs.map f).sum := by
    conv_rhs => rw [← List.map_fst_zip paired.le,List.map_map]
    rfl
  have second (f : ℝ → ℝ) : ((xs.zip ys).map fun pair => f pair.2).sum = (ys.map f).sum := by
    conv_rhs => rw [← List.map_snd_zip paired.ge,List.map_map]
    rfl
  have square := sum_products_square (xs.zip ys) (fun pair => pair.1 - mean xs) (fun pair => pair.2 - mean ys)
  rw [first (fun x => (x - mean xs)^2),second (fun y => (y - mean ys)^2),← spread,← spread] at square
  have bounded := Real.abs_le_sqrt square
  rw [Real.sqrt_mul (spread_nonneg xs)] at bounded
  have whole : |pearson xs ys| ≤ 1 := by
    rw [pearson,abs_div,abs_of_nonneg (by positivity : 0 ≤ √(spread xs) * √(spread ys))]
    exact div_le_one_of_le₀ bounded (by positivity)
  exact abs_le.mp whole

end Foundation.Correlation
