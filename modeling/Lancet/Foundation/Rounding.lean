import Lancet.Foundation.CDouble
import Mathlib.Algebra.Order.Field.Power
import Mathlib.Tactic.Linarith
import Mathlib.Tactic.NormNum
import Mathlib.Tactic.Positivity
import Mathlib.Tactic.Ring

/-! Rounding of binary64 arithmetic. A positive double stands for a rational, and what an
operation rounds to is near its exact result, as long as the magnitudes stay far from
underflow and overflow. -/
namespace Foundation.Binary64
open Float.Model Float.Model.UnpackedFloat

def ulp : ℚ := 1 / 2^52

def dyadic (mantissa : Nat) (exponent : Int) : ℚ := mantissa * 2^exponent

def Moderate (value : ℚ) : Prop := 1 / 2^200 ≤ value ∧ value ≤ 2^200

/-- A positive double with all its bits, and the rational it is. -/
def Stands (unpacked : UnpackedFloat) (value : ℚ) : Prop :=
  ∃ mantissa exponent positive, unpacked = .finite .positive mantissa exponent positive ∧
    2^52 ≤ mantissa ∧ mantissa < 2^53 ∧ -300 ≤ exponent ∧ exponent ≤ 300 ∧ value = dyadic mantissa exponent

/-- Off by a part of the exact value at most. -/
def Off (error value exact : ℚ) : Prop := exact * (1 - error) ≤ value ∧ value ≤ exact * (1 + error)

theorem two_zpow_pos (exponent : Int) : (0 : ℚ) < 2^exponent := zpow_pos (by norm_num) _

theorem dyadic_shift (mantissa shift : Nat) (exponent : Int) :
    dyadic (mantissa * 2^shift) exponent = dyadic mantissa (exponent + shift) := by
  rw [dyadic,dyadic,Nat.cast_mul,Nat.cast_pow,Nat.cast_ofNat,mul_assoc,← zpow_natCast,
    ← zpow_add₀ (by norm_num : (2 : ℚ) ≠ 0),add_comm exponent]

theorem log2_range {mantissa : Nat} {exponent : Int} (positive : 0 < mantissa)
    (moderate : Moderate (dyadic mantissa exponent)) :
    -201 ≤ mantissa.log2 + exponent ∧ mantissa.log2 + exponent ≤ 200 := by
  obtain ⟨least,most⟩ := moderate
  have scale := two_zpow_pos exponent
  have two : (1 : ℚ) < 2 := by norm_num
  have low : (2 : ℚ)^((mantissa.log2 : Int) + exponent) ≤ dyadic mantissa exponent := by
    rw [zpow_add₀ (by norm_num),zpow_natCast,dyadic]
    have leading : ((2^mantissa.log2 : Nat) : ℚ) ≤ mantissa := Nat.cast_le.mpr (Nat.log2_self_le positive.ne')
    rw [Nat.cast_pow,Nat.cast_ofNat] at leading
    exact mul_le_mul_of_nonneg_right leading scale.le
  have high : dyadic mantissa exponent < (2 : ℚ)^((mantissa.log2 : Int) + 1 + exponent) := by
    rw [zpow_add₀ (by norm_num),dyadic]
    have leading : (mantissa : ℚ) < ((2^(mantissa.log2 + 1) : Nat) : ℚ) := Nat.cast_lt.mpr Nat.lt_log2_self
    rw [Nat.cast_pow,Nat.cast_ofNat] at leading
    refine mul_lt_mul_of_pos_right ?_ scale
    rw [← Nat.cast_succ,zpow_natCast]
    exact leading
  have floor : (2 : ℚ)^(-200 : Int) = 1 / 2^200 := by norm_num
  have ceiling : (2 : ℚ)^(200 : Int) = 2^200 := by norm_num
  rw [← floor] at least
  rw [← ceiling] at most
  have above := (zpow_lt_zpow_iff_right₀ two).mp (least.trans_lt high)
  have below := (zpow_le_zpow_iff_right₀ two).mp (low.trans most)
  omega

theorem target_eq {mantissa : Nat} {exponent : Int} (low : -1000 ≤ mantissa.log2 + exponent) :
    Format.binary64.targetExponent (totalExponent mantissa exponent) = mantissa.log2 + exponent - 52 := by
  simp only [Format.targetExponent,totalExponent,Format.mantissaBits,Format.minExponent]
  norm_num
  omega

theorem shift_mantissa (extended : ExtendedMantissa) (shift : Nat) :
    (extended >>> shift).mantissa = extended.mantissa / 2^shift := by
  have each : ∀ shift, (Nat.repeat ExtendedMantissa.shiftRightOne shift extended).mantissa = extended.mantissa / 2^shift := by
    intro shift
    induction shift with
    | zero => exact (Nat.div_one _).symm
    | succ shift ih =>
      rw [Nat.repeat,Nat.pow_succ,← Nat.div_div_eq_div_mul,← ih]
      rfl
  exact each shift

theorem rounded_range (extended : ExtendedMantissa) :
    extended.mantissa ≤ extended.roundedMantissa ∧ extended.roundedMantissa ≤ extended.mantissa + 1 := by
  obtain ⟨mantissa,round,sticky⟩ := extended
  have parity : mantissa % 2 < 2 := Nat.mod_lt _ (by norm_num)
  cases round <;> cases sticky <;>
    simp only [ExtendedMantissa.roundedMantissa,ExtendedMantissa.accuracy,Accuracy.roundToNearestEven] <;> omega

theorem shift_to_target {mantissa : Nat} {exponent : Int} (accuracy : Accuracy) (wide : 2^52 ≤ mantissa)
    (low : -1000 ≤ mantissa.log2 + exponent) :
    (shiftToTargetExponent .binary64 mantissa exponent accuracy).1.mantissa = mantissa / 2^(mantissa.log2 - 52) ∧
      (shiftToTargetExponent .binary64 mantissa exponent accuracy).2 = mantissa.log2 + exponent - 52 := by
  have leading : 52 ≤ mantissa.log2 := (Nat.le_log2 (by omega)).mpr wide
  have amount : (((mantissa.log2 : Int) + exponent - 52) - exponent).toNat = mantissa.log2 - 52 := by omega
  rw [shiftToTargetExponent,target_eq low,shiftToExponent,amount]
  constructor
  · rw [shift_mantissa]
    congr 1
    rcases accuracy with _ | ordering
    · rfl
    · cases ordering <;> rfl
  · dsimp only
    omega

/-- A carry out of the rounded mantissa is shifted out exactly. -/
theorem carry {mantissa : Nat} {exponent : Int} (wide : 2^52 ≤ mantissa) (narrow : mantissa ≤ 2^53)
    (low : -1000 ≤ exponent) :
    let second := shiftToTargetExponent .binary64 mantissa exponent .exact
    2^52 ≤ second.1.mantissa ∧ second.1.mantissa < 2^53 ∧ exponent ≤ second.2 ∧ second.2 ≤ exponent + 1 ∧
      dyadic second.1.mantissa second.2 = dyadic mantissa exponent := by
  obtain ⟨first,place⟩ := shift_to_target .exact wide (by omega : -1000 ≤ (mantissa.log2 : Int) + exponent)
  dsimp only
  rcases narrow.lt_or_eq with narrow | rfl
  · have leading : mantissa.log2 = 52 := (Nat.log2_eq_iff (by omega)).mpr ⟨wide,narrow⟩
    rw [leading] at first place
    rw [first,place,Nat.sub_self,Nat.pow_zero,Nat.div_one]
    refine ⟨wide,narrow,by omega,by omega,?_⟩
    congr 1
    omega
  · have leading : (2^53).log2 = 53 := Nat.log2_two_pow
    rw [leading] at first place
    rw [first,place]
    refine ⟨by norm_num,by norm_num,by omega,by omega,?_⟩
    have halved : (2^53 / 2^(53 - 52)) * 2^1 = 2^53 := by norm_num
    rw [← halved,dyadic_shift]
    congr 1
    omega

theorem dyadic_mono {less more : Nat} (exponent : Int) (below : less ≤ more) :
    dyadic less exponent ≤ dyadic more exponent :=
  mul_le_mul_of_nonneg_right (Nat.cast_le.mpr below) (two_zpow_pos exponent).le

theorem dyadic_add (first second : Nat) (exponent : Int) :
    dyadic (first + second) exponent = dyadic first exponent + dyadic second exponent := by
  rw [dyadic,dyadic,dyadic,Nat.cast_add,add_mul]

/-- Rounding changes a wide mantissa by at most a unit of its last kept place. -/
theorem round_near {mantissa : Nat} {exponent : Int} (accuracy : Accuracy) (wide : 2^52 ≤ mantissa)
    (low : -240 ≤ mantissa.log2 + exponent) (high : mantissa.log2 + exponent ≤ 340) :
    ∃ value, Stands (roundWithAccuracy .binary64 .positive mantissa exponent accuracy) value ∧
      Off ulp value (dyadic mantissa exponent) := by
  obtain ⟨first,place⟩ := shift_to_target accuracy wide (by omega : -1000 ≤ (mantissa.log2 : Int) + exponent)
  have leading : 52 ≤ mantissa.log2 := (Nat.le_log2 (by omega)).mpr wide
  obtain ⟨shift,shifted⟩ := Nat.exists_eq_add_of_le leading
  have size := Nat.log2_self_le (show mantissa ≠ 0 by omega)
  have bound := @Nat.lt_log2_self mantissa
  rw [shifted,Nat.add_sub_cancel_left] at first
  rw [shifted,Nat.pow_add] at size
  rw [shifted,show 52 + shift + 1 = 53 + shift by omega,Nat.pow_add] at bound
  have unit : 0 < 2^shift := Nat.two_pow_pos shift
  have kept : 2^52 ≤ mantissa / 2^shift := (Nat.le_div_iff_mul_le unit).mpr size
  have short : mantissa / 2^shift < 2^53 := (Nat.div_lt_iff_lt_mul unit).mpr bound
  have whole := Nat.div_mul_le_self mantissa (2^shift)
  have rest := Nat.lt_div_mul_add unit (a := mantissa)
  have near := rounded_range (shiftToTargetExponent .binary64 mantissa exponent accuracy).1
  rw [first] at near
  rw [roundWithAccuracy]
  generalize shiftToTargetExponent .binary64 mantissa exponent accuracy = outcome at first place near
  obtain ⟨extended,exponent'⟩ := outcome
  dsimp only at first place near ⊢
  generalize extended.roundedMantissa = rounded at near ⊢
  have carried := @carry rounded exponent' (by omega) (by omega) (by omega)
  dsimp only at carried
  generalize shiftToTargetExponent .binary64 rounded exponent' .exact = final at carried ⊢
  obtain ⟨⟨final,_,_⟩,exponent''⟩ := final
  obtain ⟨wide',narrow,low',high',same⟩ := carried
  dsimp only at wide' narrow low' high' same ⊢
  have positive : final ≠ 0 := by omega
  rw [dif_neg positive]
  refine ⟨_,⟨final,exponent'',Nat.pos_of_ne_zero positive,rfl,wide',narrow,by omega,by omega,rfl⟩,?_⟩
  have raised : exponent' = exponent + shift := by omega
  rw [same,raised,← dyadic_shift]
  have small : dyadic (2^shift) exponent ≤ dyadic mantissa exponent * ulp := by
    have scaled := dyadic_mono exponent size
    rw [dyadic,Nat.cast_mul] at scaled
    rw [ulp,dyadic]
    push_cast at scaled ⊢
    linarith
  have below : mantissa ≤ rounded * 2^shift + 2^shift := by
    have scaled := Nat.mul_le_mul_right (2^shift) near.1
    linarith only [scaled,rest]
  have above : rounded * 2^shift ≤ mantissa + 2^shift := by
    have scaled := Nat.mul_le_mul_right (2^shift) near.2
    rw [Nat.succ_mul] at scaled
    linarith only [scaled,whole]
  have below' := dyadic_mono exponent below
  have above' := dyadic_mono exponent above
  rw [dyadic_add] at below' above'
  constructor <;> linarith

theorem unpackSign_packComponents {spec : Format} (sign : Sign) (exponent : BitVec spec.exponentBits)
    (mantissa : BitVec spec.mantissaBitsWithoutImplicit) :
    unpackSign (packComponents spec sign exponent mantissa) = sign.toBitVec := by
  apply BitVec.eq_of_getLsbD_eq
  intro index inside
  have first : index = 0 := by omega
  subst first
  simp [unpackSign,packComponents,BitVec.getLsbD_append,BitVec.getElem_append]

theorem exponentBias_eq : Format.binary64.exponentBias = 1023 := rfl

theorem pack_finite {mantissa : Nat} {exponent : Int} (positive : 0 < mantissa) (leading : mantissa.log2 = 52)
    (high : exponent ≤ 300) :
    UnpackedFloat.pack .binary64 (.finite .positive mantissa exponent positive) =
      packComponents .binary64 .positive (BitVec.ofNat _ (exponent + 1023 + 52).toNat) (BitVec.ofNat _ mantissa) := by
  have fits : ¬2^11 ≤ (exponent + 1023 + 52).toNat + 1 := by omega
  rw [UnpackedFloat.pack,exponentBias_eq]
  dsimp only
  rw [leading]
  exact (if_neg fits).trans (if_pos rfl)

theorem unpack_components {spec : Format} {exponent : BitVec spec.exponentBits}
    {mantissa : BitVec spec.mantissaBitsWithoutImplicit} (finite : exponent ≠ -1#_) (normal : exponent ≠ 0#_) :
    ∃ positive, UnpackedFloat.unpack spec (packComponents spec .positive exponent mantissa) =
      .finite .positive (1#1 ++ mantissa).toNat
        ((exponent.toNat : Int) - (spec.exponentBias + spec.mantissaBitsWithoutImplicit)) positive := by
  rw [UnpackedFloat.unpack,unpackExponent_packComponents,unpackSign_packComponents,if_neg finite,if_neg normal]
  have meaning : Sign.ofBitVec Sign.positive.toBitVec = .positive := rfl
  rw [meaning]
  simp only [unpackMantissa_packComponents]
  exact ⟨by simp,trivial⟩

theorem implicit_bit {mantissa : Nat} (wide : 2^52 ≤ mantissa) (narrow : mantissa < 2^53) :
    (1#1 ++ BitVec.ofNat 52 mantissa).toNat = mantissa := by
  rw [BitVec.toNat_append,← Nat.shiftLeft_add_eq_or_of_lt (BitVec.isLt _),BitVec.toNat_ofNat (w := 52),Nat.shiftLeft_eq]
  have fraction : mantissa % 2^52 = mantissa - 2^52 := by omega
  rw [fraction]
  change 1 * 2^52 + (mantissa - 2^52) = mantissa
  omega

theorem Stands.pack {unpacked : UnpackedFloat} {value : ℚ} (stands : Stands unpacked value) :
    Stands (Float.Model.pack unpacked).unpack value := by
  obtain ⟨mantissa,exponent,positive,rfl,wide,narrow,low,high,rfl⟩ := stands
  have leading : mantissa.log2 = 52 := (Nat.log2_eq_iff (by omega)).mpr ⟨wide,narrow⟩
  have field : (BitVec.ofNat 11 (exponent + 1023 + 52).toNat).toNat = (exponent + 1023 + 52).toNat := by
    rw [BitVec.toNat_ofNat,Nat.mod_eq_of_lt (by omega)]
  have finite : BitVec.ofNat 11 (exponent + 1023 + 52).toNat ≠ -1#11 := by
    intro same
    have number := congrArg BitVec.toNat same
    rw [field] at number
    have reserved : (-1#11).toNat = 2047 := rfl
    omega
  have normal : BitVec.ofNat 11 (exponent + 1023 + 52).toNat ≠ 0#11 := by
    intro same
    have number := congrArg BitVec.toNat same
    rw [field] at number
    have reserved : (0#11).toNat = 0 := rfl
    omega
  obtain ⟨positive',unpacked⟩ := @unpack_components .binary64 _ (BitVec.ofNat 52 mantissa) finite normal
  have same := congrArg (UnpackedFloat.unpack .binary64) (pack_finite positive leading high)
  refine ⟨_,_,positive',same.trans unpacked,?_⟩
  have back : ((BitVec.ofNat 11 (exponent + 1023 + 52).toNat).toNat : Int) -
      ((Format.binary64.exponentBias : Int) + ((52 : Nat) : Int)) = exponent := by
    rw [field,exponentBias_eq]
    omega
  rw [back,implicit_bit wide narrow]
  exact ⟨wide,narrow,low,high,rfl⟩

end Foundation.Binary64
