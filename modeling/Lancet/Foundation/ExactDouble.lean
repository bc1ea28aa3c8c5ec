import Lancet.Foundation.CDouble

/-! The operations on a `double` without rounding, over the real numbers. -/
namespace Foundation

noncomputable instance : CDouble ℝ where
  ofInt n := n
  sqrt := Real.sqrt
  floor := Int.floor
  ceil := Int.ceil
  lround x := if 0 ≤ x then ⌊x + 1 / 2⌋ else -⌊-x + 1 / 2⌋
  lt a b := decide (a < b)
  eq a b := decide (a = b)

namespace ExactDouble

@[simp] theorem ofInt_eq (n : Int) : (CDouble.ofInt n : ℝ) = n := rfl

@[simp] theorem sqrt_eq (x : ℝ) : CDouble.sqrt x = Real.sqrt x := rfl

@[simp] theorem floor_eq (x : ℝ) : CDouble.floor x = ⌊x⌋ := rfl

@[simp] theorem ceil_eq (x : ℝ) : CDouble.ceil x = ⌈x⌉ := rfl

@[simp] theorem lt_eq (a b : ℝ) : CDouble.lt a b = decide (a < b) := rfl

end ExactDouble
end Foundation
