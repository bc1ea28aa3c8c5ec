import Lancet.Foundation.ExactDouble

/-! The functions of math.h beside the operations on a `double`. Over exact numbers a result
that is not a number is none; a `Float` has values for these itself. -/
namespace Foundation

class CMath (F : Type) extends CDouble F where
  neg : F → F
  exp : F → F
  log : F → Option F
  pow : F → F → Option F

instance : CMath Float where
  neg x := -x
  exp := Float.exp
  log x := some (Float.log x)
  pow x y := some (Float.pow x y)

open Classical in
/-- A power of a negative number is one for integer exponents only; zero has no negative powers. -/
noncomputable def realPow (x y : ℝ) : Option ℝ :=
  if 0 < x then some (x ^ y)
  else if x = 0 then (if 0 ≤ y then some (x ^ y) else none)
  else if y = ⌊y⌋ then some (x ^ ⌊y⌋)
  else none

open Classical in
noncomputable instance : CMath ℝ where
  neg x := -x
  exp := Real.exp
  log x := if 0 < x then some (Real.log x) else none
  pow := realPow

namespace ExactMath

@[simp] theorem neg_eq (x : ℝ) : CMath.neg x = -x := rfl

@[simp] theorem exp_eq (x : ℝ) : CMath.exp x = Real.exp x := rfl

theorem log_pos {x : ℝ} (positive : 0 < x) : CMath.log x = some (Real.log x) := if_pos positive

theorem pow_pos {x : ℝ} (positive : 0 < x) (y : ℝ) : CMath.pow x y = some (x ^ y) := if_pos positive

/-- A negative number to an integer. -/
theorem pow_neg {x : ℝ} (negative : x < 0) (n : ℤ) : CMath.pow x (n : ℝ) = some (x ^ n) := by
  have integer : (n : ℝ) = ⌊(n : ℝ)⌋ := by rw [Int.floor_intCast]
  change realPow x n = some (x ^ n)
  rw [realPow,if_neg negative.le.not_gt,if_neg negative.ne,if_pos integer,Int.floor_intCast]

theorem pow_neg_none {x y : ℝ} (negative : x < 0) (broken : ∀ n : ℤ, y ≠ n) : CMath.pow x y = none := by
  change realPow x y = none
  rw [realPow,if_neg negative.le.not_gt,if_neg negative.ne,if_neg (broken _)]

end ExactMath
end Foundation
