import Mathlib.Data.Int.GCD
import Mathlib.Data.Int.ModEq
import Mathlib.Tactic.Common
import Mathlib.Tactic.Ring
import Mathlib.Tactic.LinearCombination

/-! Counting in steps of a fixed stride, in signed words that wrap around. -/
namespace Foundation.Strides

variable {size half : Nat}

/-- The greatest word that the count from `start` ever gets to. -/
def top (size half : Nat) (start stride : Int) : Int := half - 1 - (half - 1 - start) % (Int.gcd stride size)

theorem emod_le_self {value divisor : Int} (nonneg : 0 ≤ value) (positive : 0 < divisor) : value % divisor ≤ value := by
  have taken : 0 ≤ divisor * (value / divisor) := Int.mul_nonneg (Int.le_of_lt positive) (Int.ediv_nonneg nonneg positive.le)
  have parts := Int.emod_add_mul_ediv value divisor
  omega

theorem bmod_range (two : 2 * half = size) (positive : 0 < half) (value : Int) :
    -(half : Int) ≤ value.bmod size ∧ value.bmod size < half := by
  have low := @Int.le_bmod value size (by omega)
  have high := @Int.bmod_lt value size (by omega)
  omega

theorem divisor_pos (two : 2 * half = size) (positive : 0 < half) (stride : Int) : (0 : Int) < Int.gcd stride size :=
  Int.natCast_pos.mpr (Int.gcd_pos_of_ne_zero_right _ (by omega))

theorem bmod_of_range (two : 2 * half = size) {value : Int} (low : -(half : Int) ≤ value) (high : value < half) :
    value.bmod size = value :=
  Int.bmod_eq_of_le (by omega) (by omega)

theorem bmod_congr {first second : Int} (same : first ≡ second [ZMOD size]) : first.bmod size = second.bmod size := by
  rw [← Int.emod_bmod,same,Int.emod_bmod]

/-- The counts are congruent to the start modulo the divisor that the stride and the size share. -/
theorem count_congr (start stride : Int) (count : Nat) :
    (start + count * stride).bmod size ≡ start [ZMOD Int.gcd stride size] := by
  have sizeDivides : (Int.gcd stride size : Int) ∣ size := Int.gcd_dvd_right ..
  have strideDivides : (Int.gcd stride size : Int) ∣ stride := Int.gcd_dvd_left ..
  have whole : (start + count * stride).bmod size ≡ start + count * stride [ZMOD size] := Int.bmod_emod
  refine (whole.of_dvd sizeDivides).trans ?_
  have multiple : count * stride ≡ 0 [ZMOD Int.gcd stride size] := Int.modEq_zero_iff_dvd.mpr (Dvd.dvd.mul_left strideDivides _)
  simpa using multiple.add_left start

theorem count_le_top (two : 2 * half = size) (positive : 0 < half) (start stride : Int) (count : Nat) :
    (start + count * stride).bmod size ≤ top size half start stride := by
  have high := (bmod_range two positive (start + count * stride)).2
  have same : (half - 1 - (start + count * stride).bmod size) % (Int.gcd stride size : Int) =
      (half - 1 - start) % (Int.gcd stride size : Int) := (count_congr start stride count).sub_left (half - 1)
  have least := emod_le_self (show (0 : Int) ≤ half - 1 - (start + count * stride).bmod size by omega)
    (divisor_pos two positive stride)
  rw [same] at least
  rw [top]
  omega

/-- Every word congruent to the start is counted. -/
theorem congr_counted (positive : 0 < size) {start stride target : Int}
    (same : target ≡ start [ZMOD Int.gcd stride size]) : ∃ count : Nat, start + count * stride ≡ target [ZMOD size] := by
  obtain ⟨multiple,difference⟩ := same.symm.dvd
  have bezout := Int.gcd_eq_gcd_ab stride size
  have nonzero : (size : Int) ≠ 0 := by omega
  have counted : ((Int.gcdA stride size * multiple % size).toNat : Int) = Int.gcdA stride size * multiple % size :=
    Int.toNat_of_nonneg (Int.emod_nonneg _ nonzero)
  refine ⟨(Int.gcdA stride size * multiple % size).toNat,?_⟩
  rw [counted]
  have reduced : Int.gcdA stride size * multiple % size ≡ Int.gcdA stride size * multiple [ZMOD size] := Int.mod_modEq _ _
  refine ((reduced.mul_right stride).add_left start).trans ?_
  refine Int.modEq_iff_dvd.mpr ⟨Int.gcdB stride size * multiple,?_⟩
  linear_combination difference + multiple * bezout

theorem top_counted (two : 2 * half = size) (positive : 0 < half) {start : Int} (low : -(half : Int) ≤ start) (high : start < half)
    (stride : Int) : ∃ count : Nat, (start + count * stride).bmod size = top size half start stride := by
  have divisor := divisor_pos two positive stride
  have bounded := emod_le_self (show (0 : Int) ≤ half - 1 - start by omega) divisor
  have nonneg := Int.emod_nonneg (half - 1 - start) (Int.ne_of_gt divisor)
  have same : top size half start stride ≡ start [ZMOD Int.gcd stride size] := by
    have reduced : (half - 1 - start) % (Int.gcd stride size) ≡ half - 1 - start [ZMOD Int.gcd stride size] := Int.mod_modEq _ _
    have difference := reduced.sub_left (half - 1)
    rw [sub_sub_cancel] at difference
    exact difference
  obtain ⟨count,counted⟩ := congr_counted (by omega) same
  refine ⟨count,?_⟩
  rw [bmod_congr counted]
  refine bmod_of_range two ?_ ?_
  · rw [top]
    omega
  · rw [top]
    omega

/-- The count gets to a limit exactly when the limit is at most the greatest word. -/
theorem reached_iff (two : 2 * half = size) (positive : 0 < half) {start : Int} (low : -(half : Int) ≤ start)
    (high : start < half) (stride limit : Int) :
    (∃ count : Nat, limit ≤ (start + count * stride).bmod size) ↔ limit ≤ top size half start stride := by
  constructor
  · rintro ⟨count,reached⟩
    exact Int.le_trans reached (count_le_top two positive start stride count)
  · intro below
    obtain ⟨count,counted⟩ := top_counted two positive low high stride
    exact ⟨count,counted ▸ below⟩

end Foundation.Strides
