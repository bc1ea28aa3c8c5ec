import Lancet.Foundation.Exactness
import Lancet.Stats

/-! The indices of the confidence intervals. Up to rounding they are the ones of the exact
formula, and the bounds on them hold with room for the rounding. -/
namespace Lancet.CiBounds
open Foundation Binary64 Stats

/-- The share of the samples below a percentile. -/
def share (percent : Nat) : ℚ := percent / 100

/-- What a computed quantity may be off by, as a part of it. -/
def slack : ℚ := 1 / 2^40

/-- The double stands for a percentage. -/
structure Level (p : Float) (percent : Nat) : Prop where
  least : 50 ≤ percent
  most : percent ≤ 99
  below : ∃ value, Denotes p value ∧ Off (2 * ulp) value (share percent)
  above : ∃ value, Denotes (Float.ofInt 1 - p) value ∧ Off (256 * ulp) value (1 - share percent)

theorem level_of_check {p : Float} {percent : Nat} (least : 50 ≤ percent) (most : percent ≤ 99)
    (below : standsBetween p (percent * (10^18 - 200)) (percent * (10^18 + 200)) (100 * 10^18) = true)
    (above : standsBetween (Float.ofInt 1 - p) ((100 - percent) * (10^18 - 20000)) ((100 - percent) * (10^18 + 20000))
      (100 * 10^18) = true) : Level p percent := by
  obtain ⟨value,denotes,low,high⟩ := denotes_of_check (by norm_num) below
  obtain ⟨rest,denotes',low',high'⟩ := denotes_of_check (by norm_num) above
  have part : (0 : ℚ) ≤ percent := Nat.cast_nonneg percent
  have whole : ((100 - percent : Nat) : ℚ) = 100 - percent := by
    rw [Nat.cast_sub (by omega)]
    norm_num
  have other : (0 : ℚ) ≤ 100 - percent := whole ▸ Nat.cast_nonneg _
  push_cast [whole] at low high low' high'
  refine ⟨least,most,⟨value,denotes,?_,?_⟩,⟨rest,denotes',?_,?_⟩⟩
  all_goals rw [share,ulp]
  all_goals linarith

theorem level50 : Level 0.50 50 := level_of_check (by norm_num) (by norm_num) (by decide +kernel) (by decide +kernel)
theorem level90 : Level 0.90 90 := level_of_check (by norm_num) (by norm_num) (by decide +kernel) (by decide +kernel)
theorem level95 : Level 0.95 95 := level_of_check (by norm_num) (by norm_num) (by decide +kernel) (by decide +kernel)
theorem level99 : Level 0.99 99 := level_of_check (by norm_num) (by norm_num) (by decide +kernel) (by decide +kernel)

theorem share_range {p : Float} {percent : Nat} (level : Level p percent) : 1 / 2 ≤ share percent ∧ share percent ≤ 99 / 100 := by
  have least : (50 : ℚ) ≤ percent := by exact_mod_cast level.least
  have most : (percent : ℚ) ≤ 99 := by exact_mod_cast level.most
  rw [share]
  constructor <;> linarith

theorem middle_range {p : Float} {percent : Nat} (level : Level p percent) (n : Nat) :
    (n : ℚ) / 2 ≤ n * share percent ∧ n * share percent ≤ n * (99 / 100) := by
  obtain ⟨half,most⟩ := share_range level
  have nonneg : (0 : ℚ) ≤ n := Nat.cast_nonneg n
  have low := mul_le_mul_of_nonneg_left half nonneg
  exact ⟨by linarith,mul_le_mul_of_nonneg_left most nonneg⟩

theorem variance_range {p : Float} {percent : Nat} (level : Level p percent) (n : Nat) :
    n * share percent * (1 / 100) ≤ n * share percent * (1 - share percent) ∧
      n * share percent * (1 - share percent) ≤ n * share percent * (1 / 2) := by
  obtain ⟨half,most⟩ := share_range level
  have nonneg : (0 : ℚ) ≤ n := Nat.cast_nonneg n
  have shared : (0 : ℚ) ≤ n * share percent := mul_nonneg nonneg (by linarith)
  exact ⟨mul_le_mul_of_nonneg_left (by linarith) shared,mul_le_mul_of_nonneg_left (by linarith) shared⟩

theorem heta_denotes : ∃ value, Denotes (heta : Float) value ∧ Off (2 * ulp) value 1.96 := by
  obtain ⟨value,denotes,low,high⟩ := @denotes_of_check (heta : Float) (196 * (10^18 - 200)) (196 * (10^18 + 200)) (100 * 10^18)
    (by norm_num) (by decide +kernel)
  push_cast at low high
  refine ⟨value,denotes,?_,?_⟩
  all_goals rw [ulp]
  all_goals linarith

section Formula
variable {n percent : Nat} {p : Float}

theorem middle_denotes (level : Level p percent) (positive : 0 < n) (bounded : n ≤ 2^20) :
    ∃ middle, Denotes (Float.ofInt n * p) middle ∧ Off (8 * ulp) middle (n * share percent) := by
  obtain ⟨half,most⟩ := share_range level
  have least : (1 : ℚ) ≤ n := by exact_mod_cast positive
  have greatest : (n : ℚ) ≤ 2^20 := by exact_mod_cast bounded
  obtain ⟨low,high⟩ := middle_range level n
  have denotesN := denotes_ofInt_exact positive (show n < 2^53 by omega)
  have offN : Off 0 (n : ℚ) n := Off.rfl
  obtain ⟨part,denotesP,offP⟩ := level.below
  have product := offN.mul offP (by linarith) (by linarith) (by norm_num [ulp]) (by norm_num [ulp])
  obtain ⟨middle,denotes,rounded⟩ := denotesN.mul denotesP (product.moderate (by norm_num [ulp]) (by linarith) (by linarith))
  have off := product.trans rounded (by linarith) (by norm_num [ulp]) (by norm_num [ulp])
  exact ⟨middle,denotes,off.mono (by linarith) (by norm_num [ulp])⟩

theorem root_range {root : ℚ} (positive : 0 < root) (low : 1 / 400 ≤ root * root) (high : root * root ≤ 2^22) :
    1 / 20 ≤ root ∧ root ≤ 2^11 := by
  constructor
  · by_contra less
    nlinarith
  · by_contra greater
    nlinarith

theorem variance_denotes (level : Level p percent) (positive : 0 < n) (bounded : n ≤ 2^20) :
    ∃ variance, Denotes (Float.ofInt n * p * (Float.ofInt 1 - p)) variance ∧
      Off (512 * ulp) variance (n * share percent * (1 - share percent)) := by
  obtain ⟨half,most⟩ := share_range level
  have least : (1 : ℚ) ≤ n := by exact_mod_cast positive
  have greatest : (n : ℚ) ≤ 2^20 := by exact_mod_cast bounded
  obtain ⟨low,high⟩ := middle_range level n
  obtain ⟨low',high'⟩ := variance_range level n
  obtain ⟨middle,denotesM,offM⟩ := middle_denotes level positive bounded
  obtain ⟨rest,denotesQ,offQ⟩ := level.above
  have product := offM.mul offQ (by linarith) (by linarith) (by norm_num [ulp]) (by norm_num [ulp])
  obtain ⟨variance,denotes,rounded⟩ := denotesM.mul denotesQ (product.moderate (by norm_num [ulp]) (by linarith) (by linarith))
  have off := product.trans rounded (by linarith) (by norm_num [ulp]) (by norm_num [ulp])
  exact ⟨variance,denotes,off.mono (by linarith) (by norm_num [ulp])⟩

theorem root_denotes (level : Level p percent) (positive : 0 < n) (bounded : n ≤ 2^20) :
    ∃ root, Denotes (Float.sqrt (Float.ofInt n * p * (Float.ofInt 1 - p))) root ∧
      Off (1024 * ulp) (root * root) (n * share percent * (1 - share percent)) := by
  have least : (1 : ℚ) ≤ n := by exact_mod_cast positive
  have greatest : (n : ℚ) ≤ 2^20 := by exact_mod_cast bounded
  obtain ⟨low,high⟩ := middle_range level n
  obtain ⟨low',high'⟩ := variance_range level n
  obtain ⟨variance,denotesV,offV⟩ := variance_denotes level positive bounded
  obtain ⟨root,denotes,rounded⟩ := denotesV.sqrt (offV.moderate (by norm_num [ulp]) (by linarith) (by linarith))
  have off := offV.trans rounded (by linarith) (by norm_num [ulp]) (by norm_num [ulp])
  exact ⟨root,denotes,off.mono (by linarith) (by norm_num [ulp])⟩

theorem width_denotes (level : Level p percent) (positive : 0 < n) (bounded : n ≤ 2^20) :
    ∃ width, Denotes ((heta : Float) * Float.sqrt (Float.ofInt n * p * (Float.ofInt 1 - p))) width ∧
      Off slack (width * width) (3.8416 * (n * share percent * (1 - share percent))) := by
  have least : (1 : ℚ) ≤ n := by exact_mod_cast positive
  have greatest : (n : ℚ) ≤ 2^20 := by exact_mod_cast bounded
  obtain ⟨low,high⟩ := middle_range level n
  obtain ⟨low',high'⟩ := variance_range level n
  obtain ⟨root,denotesR,offR⟩ := root_denotes level positive bounded
  obtain ⟨factor,denotesH,offH⟩ := heta_denotes
  have squared := offR.mono (by linarith) (show _ ≤ (1 : ℚ) / 2 by norm_num [ulp])
  have rootRange := root_range denotesR.value_pos (by linarith [squared.1]) (by linarith [squared.2])
  have factorRange := offH.mono (by norm_num) (show 2 * ulp ≤ (1 : ℚ) / 100 by norm_num [ulp])
  have moderate : Moderate (factor * root) := by
    obtain ⟨below,above⟩ := factorRange
    have lower := mul_le_mul (show (1 : ℚ) ≤ factor by linarith) rootRange.1 (by norm_num) (by linarith)
    have upper := mul_le_mul (show factor ≤ (2 : ℚ) by linarith) rootRange.2 (by linarith) (by norm_num)
    exact ⟨le_trans (by norm_num) lower,upper.trans (by norm_num)⟩
  obtain ⟨width,denotesW,roundedW⟩ := denotesH.mul denotesR moderate
  refine ⟨width,denotesW,?_⟩
  have scaled : (0 : ℚ) ≤ factor * root := (mul_pos denotesH.value_pos denotesR.value_pos).le
  have squareW := roundedW.mul roundedW scaled scaled (by norm_num [ulp]) (by norm_num [ulp])
  have squareH := offH.mul offH (by norm_num) (by norm_num) (by norm_num [ulp]) (by norm_num [ulp])
  have radicand := squareH.mul offR (by norm_num) (by linarith) (by norm_num [ulp]) (by norm_num [ulp])
  rw [mul_mul_mul_comm] at squareW
  have off := radicand.trans squareW (by linarith) (by norm_num [ulp]) (by norm_num [ulp])
  have constant : (1.96 : ℚ) * 1.96 = 3.8416 := by norm_num
  rw [constant] at off
  exact off.mono (by linarith) (by norm_num [ulp,slack])

/-- The middle and the half width of an interval, as computed. -/
structure Spread (n percent : Nat) (middle width : ℚ) : Prop where
  positive : 0 < width
  middle : Off slack middle (n * share percent)
  square : Off slack (width * width) (3.8416 * (n * share percent * (1 - share percent)))

theorem spread_positive {middle width : ℚ} (level : Level p percent) (enough : 4 ≤ n) (spread : Spread n percent middle width) :
    1 / 100 ≤ middle - width := by
  have least : (4 : ℚ) ≤ n := by exact_mod_cast enough
  obtain ⟨shared,-⟩ := middle_range level n
  obtain ⟨-,part⟩ := variance_range level n
  have below := spread.middle.1
  have above := spread.square.2
  generalize n * share percent = place at shared below above part
  rw [slack] at below above
  by_contra less
  have wide : place * (1 - 1 / 2^40) - 1 / 100 ≤ width := by linarith
  have squared := mul_self_le_mul_self (show 0 ≤ place * (1 - 1 / 2^40) - 1 / 100 by linarith) wide
  nlinarith

theorem spread_width {middle width : ℚ} (bounded : n ≤ 2^20) (spread : Spread n percent middle width) : width ≤ 1024 := by
  have greatest : (n : ℚ) ≤ 2^20 := by exact_mod_cast bounded
  have nonneg : (0 : ℚ) ≤ n := Nat.cast_nonneg n
  have above := spread.square.2
  have quarter : share percent * (1 - share percent) ≤ 1 / 4 := by linarith [sq_nonneg (share percent - 1 / 2)]
  have product := mul_le_mul_of_nonneg_left quarter nonneg
  rw [slack] at above
  by_contra greater
  nlinarith

theorem getCiBounds_spread (level : Level p percent) (enough : 4 ≤ n) (bounded : n ≤ 2^20) :
    ∃ middle width low high, Spread n percent middle width ∧ Off ulp low (middle - width) ∧ Off ulp high (middle + width) ∧
      getCiBounds (n : Int) p = ⟨UInt32.ofInt ⌊low⌋,UInt32.ofInt ⌈high⌉ + 1⟩ := by
  obtain ⟨middle,denotesM,offM⟩ := middle_denotes level (by omega) bounded
  obtain ⟨width,denotesW,offW⟩ := width_denotes level (by omega) bounded
  have least : (4 : ℚ) ≤ n := by exact_mod_cast enough
  have greatest : (n : ℚ) ≤ 2^20 := by exact_mod_cast bounded
  obtain ⟨shared,shared'⟩ := middle_range level n
  have spread : Spread n percent middle width :=
    ⟨denotesW.value_pos,offM.mono (by linarith) (by norm_num [ulp,slack]),offW⟩
  have apart := spread_positive level enough spread
  have narrow := spread_width bounded spread
  have above := spread.middle.2
  rw [slack] at above
  obtain ⟨low,denotesL,offL⟩ := denotesM.sub denotesW ⟨le_trans (by norm_num) apart,by linarith [spread.positive]⟩
  obtain ⟨high,denotesU,offU⟩ := denotesM.add denotesW ⟨by linarith [spread.positive],by linarith⟩
  refine ⟨middle,width,low,high,spread,offL,offU,?_⟩
  have lower : Binary64.floor (Float.ofInt n * p - (heta : Float) * Float.sqrt (Float.ofInt n * p * (Float.ofInt 1 - p))) = ⌊low⌋ :=
    denotesL.floor
  have upper : Binary64.ceil (Float.ofInt n * p + (heta : Float) * Float.sqrt (Float.ofInt n * p * (Float.ofInt 1 - p))) = ⌈high⌉ :=
    denotesU.ceil
  rw [← lower,← upper]
  rfl

theorem rank_floor (n percent : Nat) : ((n * percent / 100 : Nat) : Int) = ⌊(n : ℚ) * share percent⌋ := by
  have fraction : (n : ℚ) * share percent = ((n * percent : Nat) : ℚ) / ((100 : Nat) : ℚ) := by
    rw [share]
    push_cast
    ring
  rw [fraction,Rat.floor_natCast_div_natCast]
  push_cast
  rfl

/-- The lower index is not above the percentile's own. -/
theorem lower_index {middle width low : ℚ} (level : Level p percent) (enough : 4 ≤ n) (bounded : n ≤ 2^20)
    (spread : Spread n percent middle width) (off : Off ulp low (middle - width)) :
    0 ≤ ⌊low⌋ ∧ ⌊low⌋ ≤ (n * percent / 100 : Nat) := by
  have least : (4 : ℚ) ≤ n := by exact_mod_cast enough
  have greatest : (n : ℚ) ≤ 2^20 := by exact_mod_cast bounded
  have apart := spread_positive level enough spread
  have above := spread.middle.2
  have below := spread.square.1
  obtain ⟨shared,shared'⟩ := middle_range level n
  obtain ⟨part,-⟩ := variance_range level n
  rw [rank_floor]
  constructor
  · refine Int.floor_nonneg.mpr ?_
    have small : (0 : ℚ) ≤ 1 - ulp := by norm_num [ulp]
    exact (mul_nonneg (by linarith) small).trans off.1
  · refine Int.floor_le_floor ?_
    have positive := spread.positive
    obtain ⟨-,high⟩ := off
    generalize n * share percent = place at shared shared' above below part ⊢
    rw [slack] at above below
    rw [ulp] at high
    -- the width is much more than the rounding of the middle
    have wide : place * (1 / 2^38) ≤ width := by
      by_contra narrow
      nlinarith
    linarith

theorem upper_index {middle width high : ℚ} (level : Level p percent) (enough : 4 ≤ n) (bounded : n ≤ 2^20)
    (spread : Spread n percent middle width) (off : Off ulp high (middle + width)) :
    (n * percent / 100 : Nat) < ⌈high⌉ + 1 ∧ ⌈high⌉ + 1 < 2^20 := by
  have least : (4 : ℚ) ≤ n := by exact_mod_cast enough
  have greatest : (n : ℚ) ≤ 2^20 := by exact_mod_cast bounded
  have narrow := spread_width bounded spread
  have positive := spread.positive
  obtain ⟨below,above⟩ := spread.middle
  obtain ⟨lower,upper⟩ := off
  obtain ⟨shared,shared'⟩ := middle_range level n
  rw [rank_floor]
  generalize n * share percent = place at shared shared' above below ⊢
  rw [slack] at above below
  rw [ulp] at lower upper
  constructor
  · refine Int.floor_lt.mpr ?_
    have ceiling := Int.le_ceil high
    push_cast
    linarith
  · have least' : ⌈high⌉ ≤ 2^20 - 2 := by
      refine Int.ceil_le.mpr ?_
      push_cast
      linarith
    omega

/-- At the 99th percentile the upper index is outside the samples unless there are enough. -/
theorem upper_index_outside {middle width high : ℚ} (bounded : n ≤ 2^20) (enough : 4 ≤ n)
    (spread : Spread n 99 middle width) (off : Off ulp high (middle + width)) : n ≤ ⌈high⌉ + 1 ↔ n < 726 := by
  have least : (4 : ℚ) ≤ n := by exact_mod_cast enough
  have greatest : (n : ℚ) ≤ 2^20 := by exact_mod_cast bounded
  have positive := spread.positive
  obtain ⟨below,above⟩ := spread.middle
  obtain ⟨narrow,wide⟩ := spread.square
  obtain ⟨lower,upper⟩ := off
  have part : share 99 = 99 / 100 := by norm_num [share]
  rw [part,slack] at below above narrow wide
  rw [ulp] at lower upper
  constructor
  · intro outside
    by_contra many
    have enough : (726 : ℚ) ≤ n := by exact_mod_cast Nat.le_of_not_lt many
    have inside : ⌈high⌉ ≤ (n : Int) - 2 := by
      refine Int.ceil_le.mpr ?_
      push_cast
      have room : width ≤ n * (1 / 100 - 1 / 2^38) - 2 := by
        by_contra less
        have squared := mul_self_le_mul_self (show 0 ≤ n * (1 / 100 - 1 / 2^38 : ℚ) - 2 by linarith) (le_of_not_ge less)
        nlinarith
      linarith
    omega
  · intro few
    have less : (n : ℚ) ≤ 725 := by exact_mod_cast Nat.le_of_lt_succ few
    by_contra inside
    have ceiling : ⌈high⌉ ≤ (n : Int) - 2 := by omega
    have under := Int.ceil_le.mp ceiling
    push_cast at under
    have room : width ≤ n * (1 / 100 + 1 / 2^38) - 2 := by linarith
    have squared := mul_self_le_mul_self positive.le room
    nlinarith

theorem word_of_range {value : Int} (nonneg : 0 ≤ value) (small : value < 2^32) : ((UInt32.ofInt value).toNat : Int) = value := by
  rw [UInt32.ofInt,UInt32.toNat_ofNat']
  omega

/-- The samples that a percentile and its interval are read from, lowest first. -/
theorem getCiBounds_indices (level : Level p percent) (enough : 4 ≤ n) (bounded : n ≤ 2^20) :
    (getCiBounds (n : Int) p).i.toNat ≤ n * percent / 100 ∧ n * percent / 100 < (getCiBounds (n : Int) p).k.toNat ∧
      (getCiBounds (n : Int) p).k.toNat < aggSampleSize := by
  obtain ⟨middle,width,low,high,spread,offL,offU,same⟩ := getCiBounds_spread level enough bounded
  obtain ⟨nonneg,below⟩ := lower_index level enough bounded spread offL
  obtain ⟨above,inside⟩ := upper_index level enough bounded spread offU
  have rank : n * percent / 100 < 2^20 := by
    have most := level.most
    exact (Nat.div_lt_iff_lt_mul (by norm_num)).mpr (by nlinarith)
  have lower := word_of_range nonneg (by omega)
  have upper := word_of_range (show 0 ≤ ⌈high⌉ + 1 by omega) (by omega)
  rw [UInt32.ofInt_add,UInt32.ofInt_one] at upper
  rw [same,aggSampleSize]
  dsimp only
  omega

theorem getCiBounds_outside (enough : 4 ≤ n) (bounded : n ≤ 2^20) :
    n ≤ (getCiBounds (n : Int) (0.99 : Float)).k.toNat ↔ n < 726 := by
  obtain ⟨middle,width,low,high,spread,offL,offU,same⟩ := getCiBounds_spread level99 enough bounded
  obtain ⟨above,inside⟩ := upper_index level99 enough bounded spread offU
  have upper := word_of_range (show 0 ≤ ⌈high⌉ + 1 by omega) (by omega)
  rw [UInt32.ofInt_add,UInt32.ofInt_one] at upper
  rw [same,← upper_index_outside bounded enough spread offU]
  dsimp only
  omega

end Formula
end Lancet.CiBounds
