import Lancet.Foundation.Doubles

/-! Operations on doubles that need no rounding: whole numbers with at most 53 bits. -/
namespace Foundation.Binary64
open Float.Model Float.Model.UnpackedFloat

theorem shift_exact (kept shift : Nat) :
    ((⟨kept * 2^shift,false,false⟩ : ExtendedMantissa) >>> shift) = ⟨kept,false,false⟩ := by
  have each : Nat.repeat ExtendedMantissa.shiftRightOne shift ⟨kept * 2^shift,false,false⟩ = ⟨kept,false,false⟩ := by
    induction shift generalizing kept with
    | zero => simp [Nat.repeat]
    | succ shift ih =>
      have halves := ih (kept * 2)
      rw [Nat.mul_assoc,← Nat.pow_succ'] at halves
      rw [Nat.repeat,halves]
      simp [ExtendedMantissa.shiftRightOne]
  exact each

theorem Off.rfl {value : ℚ} : Off 0 value value := by
  rw [Off,sub_zero,add_zero,mul_one]
  exact ⟨le_rfl,le_rfl⟩

/-- A mantissa whose low bits are clear loses nothing. -/
theorem round_exact {kept shift : Nat} {exponent : Int} (wide : 2^52 ≤ kept) (narrow : kept < 2^53)
    (low : -300 ≤ exponent + shift) (high : exponent + shift ≤ 299) :
    Stands (roundWithAccuracy .binary64 .positive (kept * 2^shift) exponent .exact) (dyadic (kept * 2^shift) exponent) := by
  have leading : kept.log2 = 52 := (Nat.log2_eq_iff (by omega)).mpr ⟨wide,narrow⟩
  have total : (kept * 2^shift).log2 = 52 + shift := by rw [log2_shift shift (by omega),leading]
  have first : shiftToTargetExponent .binary64 (kept * 2^shift) exponent .exact = (⟨kept,false,false⟩,exponent + shift) := by
    have target := @target_eq (kept * 2^shift) exponent (by omega)
    have amount : ((52 + shift : Nat) + exponent - 52 - exponent).toNat = shift := by omega
    rw [shiftToTargetExponent,target,total,shiftToExponent,amount]
    exact Prod.ext (shift_exact kept shift) rfl
  rw [roundWithAccuracy,first,dyadic_shift]
  dsimp only
  have carried := @carry kept (exponent + shift) wide narrow.le (by omega)
  have rounded : (⟨kept,false,false⟩ : ExtendedMantissa).roundedMantissa = kept := rfl
  rw [rounded]
  dsimp only at carried
  generalize shiftToTargetExponent .binary64 kept (exponent + shift) .exact = final at carried ⊢
  obtain ⟨⟨final,_,_⟩,exponent'⟩ := final
  obtain ⟨wide',narrow',low',high',same⟩ := carried
  dsimp only at wide' narrow' low' high' same ⊢
  rw [dif_neg (by omega),← same]
  exact ⟨final,exponent',by omega,rfl,wide',narrow',by omega,by omega,rfl⟩

theorem denotes_toFloat_exact {n : Nat} (positive : 0 < n) (small : n < 2^53) : Denotes n.toUInt64.toFloat n := by
  have leading : n.log2 ≤ 52 := Nat.le_of_lt_succ ((Nat.log2_lt positive.ne').mpr small)
  have word : n.toUInt64.toNat = n := Nat.mod_eq_of_lt (Nat.lt_trans small (by norm_num))
  have amount : ((0 : Int) - ((n.log2 : Int) + 0 - 52)).toNat = 52 - n.log2 := by omega
  have wide : 2^52 ≤ n * 2^(52 - n.log2) := by
    calc 2^52 = 2^n.log2 * 2^(52 - n.log2) := by rw [← Nat.pow_add,Nat.add_sub_cancel' leading]
      _ ≤ n * 2^(52 - n.log2) := Nat.mul_le_mul_right _ (Nat.log2_self_le positive.ne')
  have narrow : n * 2^(52 - n.log2) < 2^53 := by
    calc n * 2^(52 - n.log2) < 2^(n.log2 + 1) * 2^(52 - n.log2) :=
          Nat.mul_lt_mul_of_pos_right Nat.lt_log2_self (Nat.two_pow_pos _)
      _ = 2^53 := by
        rw [← Nat.pow_add]
        congr 1
        omega
  have value : dyadic (n * 2^(52 - n.log2) * 2^0) (0 - (52 - n.log2 : Nat)) = n := by
    rw [Nat.pow_zero,Nat.mul_one,dyadic_shift,sub_add_cancel,dyadic,zpow_zero,mul_one]
  have normalized : Stands (UnpackedFloat.normalize .binary64 n 0 .positive) n := by
    have greater : compare (n : Int) 0 = .gt := Std.compare_eq_gt.mpr (by omega)
    rw [UnpackedFloat.normalize,greater]
    dsimp only
    rw [Int.toNat_natCast,UnpackedFloat.round,target_eq (by omega),decreaseExponent,amount,Nat.shiftLeft_eq,← value]
    have rounded := @round_exact (n * 2^(52 - n.log2)) 0 (0 - (52 - n.log2 : Nat)) wide narrow (by omega) (by omega)
    simpa only [Nat.pow_zero,Nat.mul_one] using rounded
  have packed : Stands (Float.Model.pack (UnpackedFloat.normalize .binary64 n.toUInt64.toNat 0 .positive)).unpack n := by
    rw [word]
    exact normalized.pack
  exact packed

section Operations
variable {x zero : Float} {v : ℚ}

theorem unpack_one : (Float.ofBits 0x3FF0000000000000).toModel.unpack = .finite .positive (2^52) (-52) (by norm_num) := rfl

theorem Denotes.mul_one (denotes : Denotes x v) (moderate : Moderate v) :
    Denotes (x * Float.ofBits 0x3FF0000000000000) v := by
  obtain ⟨mantissa,exponent,positive,unpacked,wide,narrow,-,-,rfl⟩ := denotes
  have leading : mantissa.log2 = 52 := (Nat.log2_eq_iff (by omega)).mpr ⟨wide,narrow⟩
  have range := log2_range positive moderate
  have product : UnpackedFloat.mul .binary64 x.toModel.unpack (Float.ofBits 0x3FF0000000000000).toModel.unpack =
      roundWithAccuracy .binary64 .positive (mantissa * 2^52) (exponent + -52) .exact := by
    rw [unpacked,unpack_one]
    rfl
  have same : dyadic (mantissa * 2^52) (exponent + -52) = dyadic mantissa exponent := by
    rw [dyadic_shift]
    congr 1
    omega
  have multiplied : Stands (UnpackedFloat.mul .binary64 x.toModel.unpack (Float.ofBits 0x3FF0000000000000).toModel.unpack)
      (dyadic mantissa exponent) := by
    rw [product,← same]
    exact round_exact wide narrow (by omega) (by omega)
  exact multiplied.pack

theorem Denotes.add_zero (denotes : Denotes x v) {sign : Sign} (unsigned : zero.toModel.unpack = .zero sign) :
    Denotes (x + zero) v := by
  have stands : Stands x.toModel.unpack v := denotes
  obtain ⟨mantissa,exponent,positive,unpacked,-⟩ := denotes
  have sum : UnpackedFloat.add .binary64 x.toModel.unpack zero.toModel.unpack = x.toModel.unpack := by
    rw [unpacked,unsigned]
    rfl
  have packed : Stands (Float.Model.pack (UnpackedFloat.add .binary64 x.toModel.unpack zero.toModel.unpack)).unpack v := by
    rw [sum]
    exact stands.pack
  exact packed

theorem Denotes.toLong {n : Nat} (denotes : Denotes x n) (small : n < 2^63) : Binary64.toLong x = n := by
  obtain ⟨mantissa,exponent,positive,unpacked,-,-,-,-,value⟩ := denotes
  have whole := scaled_floor .positive mantissa exponent
  have same : ((Sign.positive.apply mantissa : Int) : ℚ) * 2^exponent = (n : Int) := by
    rw [Int.cast_natCast,value]
    rfl
  rw [same,Int.floor_intCast] at whole
  have applied : Sign.positive.apply (scaled .positive mantissa exponent 0) = n := whole
  rw [Binary64.toLong,unpacked]
  dsimp only
  rw [applied,if_pos (by omega)]

end Operations

theorem denotes_ofInt_exact {n : Nat} (positive : 0 < n) (small : n < 2^53) : Denotes (Float.ofInt n) n := by
  have least : (1 : ℚ) ≤ n := by exact_mod_cast positive
  have bounded : (n : ℚ) ≤ 2^53 := by exact_mod_cast small.le
  have moderate : Moderate (n : ℚ) := by
    rw [Moderate]
    constructor
    · exact le_trans (by norm_num) least
    · exact bounded.trans (by norm_num)
  have same : Float.ofInt n = n.toUInt64.toFloat * Float.ofBits 0x3FF0000000000000 := by
    have decimal : Float.ofInt n = Float.ofScientific n false 0 := rfl
    rw [decimal,Float.ofScientific,dif_pos ⟨small,by norm_num⟩]
    rfl
  rw [same]
  exact (denotes_toFloat_exact positive small).mul_one moderate

end Foundation.Binary64
