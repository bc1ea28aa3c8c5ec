import Mathlib.Data.Nat.Count
import Mathlib.Order.Basic
import Mathlib.Tactic.Common

/-! Counters that wrap around, against the numbers they stand for. Two numbers less than a
turn apart compare like their residues just when no turn ends between them. -/
namespace Foundation

variable {modulus x y z : Nat}

/-- The numbers are in the same turn of a counter. -/
def SameTurn (modulus x y : Nat) : Prop := x / modulus = y / modulus

instance : Decidable (SameTurn modulus x y) := inferInstanceAs (Decidable (_ = _))

namespace SameTurn

theorem between (same : SameTurn modulus x y) (low : x ≤ z) (high : z ≤ y) : SameTurn modulus x z := by
  have above : x / modulus ≤ z / modulus := Nat.div_le_div_right low
  have below : z / modulus ≤ y / modulus := Nat.div_le_div_right high
  rw [SameTurn] at same ⊢
  omega

theorem symm (same : SameTurn modulus x y) : SameTurn modulus y x := Eq.symm same

theorem trans (first : SameTurn modulus x y) (second : SameTurn modulus y z) : SameTurn modulus x z := Eq.trans first second

end SameTurn

theorem mod_lt_mod (same : SameTurn modulus x y) (less : x < y) : x % modulus < y % modulus := by
  have first := Nat.div_add_mod x modulus
  have second := Nat.div_add_mod y modulus
  rw [same] at first
  omega

theorem mod_lt_of_turn (turned : ¬SameTurn modulus x y) (less : x < y) (near : y < x + modulus) : y % modulus < x % modulus := by
  have first := Nat.div_add_mod x modulus
  have second := Nat.div_add_mod y modulus
  have later : x / modulus + 1 ≤ y / modulus := by
    have ordered : x / modulus ≤ y / modulus := Nat.div_le_div_right less.le
    rw [SameTurn] at turned
    omega
  have turn := Nat.mul_le_mul_left modulus later
  rw [Nat.mul_add,Nat.mul_one] at turn
  omega

theorem mod_lt_mod_iff (less : x < y) (near : y < x + modulus) : x % modulus < y % modulus ↔ SameTurn modulus x y := by
  constructor
  · intro smaller
    by_contra turned
    exact Nat.lt_asymm smaller (mod_lt_of_turn turned less near)
  · intro same
    exact mod_lt_mod same less

theorem mod_ne_mod (less : x < y) (near : y < x + modulus) : x % modulus ≠ y % modulus := by
  intro equal
  by_cases same : SameTurn modulus x y
  · exact Nat.ne_of_lt (mod_lt_mod same less) equal
  · exact Nat.ne_of_gt (mod_lt_of_turn same less near) equal

/-- What holds on an initial part only is counted by the length of that part. -/
theorem lt_count_iff {holds : Nat → Prop} [DecidablePred holds] (closed : ∀ first second, first ≤ second → holds second → holds first)
    (index total : Nat) : index < Nat.count holds total ↔ index < total ∧ holds index := by
  induction total with
  | zero => simp
  | succ total ih =>
    have bounded := Nat.count_le (p := holds) (n := total)
    rw [Nat.count_succ]
    split
    next last =>
      have full : Nat.count holds total = total := by
        rw [Nat.count_iff_forall]
        exact fun earlier below => closed earlier total below.le last
      rw [full]
      exact ⟨fun below => ⟨below,closed index total (Nat.le_of_lt_succ below) last⟩,And.left⟩
    next outside =>
      rw [Nat.add_zero,ih]
      constructor
      · intro inside
        exact ⟨Nat.lt_succ_of_lt inside.1,inside.2⟩
      · intro inside
        have different : index ≠ total := fun same => outside (same ▸ inside.2)
        exact ⟨by omega,inside.2⟩

end Foundation
