import Mathlib

/-! The bits of a double and the double of its bits. Only one pattern stands for "not a
number", so the two conversions are inverse on every `Float`. -/
namespace Foundation.Binary64
open Float.Model Float.Model.UnpackedFloat

theorem sign_toBitVec (sign : BitVec 1) : (Sign.ofBitVec sign).toBitVec = sign := by
  have bit : sign = 0#1 ∨ sign = 1#1 := by
    have range := sign.isLt
    rcases Nat.lt_or_ge sign.toNat 1 with zero | one
    · exact .inl (BitVec.eq_of_toNat_eq (Nat.lt_one_iff.mp zero))
    · exact .inr (BitVec.eq_of_toNat_eq (by simp; omega))
  rcases bit with rfl | rfl <;> rfl

/-- The three fields of a pattern put together again. -/
theorem pack_fields (bits : BitVec 64) :
    packComponents .binary64 (Sign.ofBitVec (@unpackSign .binary64 bits)) (@unpackExponent .binary64 bits)
      (@unpackMantissa .binary64 bits) = bits := by
  rw [packComponents,sign_toBitVec]
  apply BitVec.eq_of_getLsbD_eq
  intro index inside
  simp [unpackSign,unpackExponent,unpackMantissa]
  grind

theorem pack_subnormal {sign : Sign} {fraction : BitVec 52} {exponent : Int} (positive : 0 < fraction.toNat)
    (least : exponent = 1 - 1075) :
    pack .binary64 (.finite sign fraction.toNat exponent positive) = packComponents .binary64 sign 0#11 fraction := by
  have bias : (Format.binary64.exponentBias : Int) = 1023 := rfl
  have width : Format.binary64.mantissaBits = 53 := rfl
  have narrow : fraction.toNat.log2 < 52 := (Nat.log2_lt positive.ne').mpr fraction.isLt
  have biased : (exponent + Format.binary64.exponentBias + (Format.binary64.mantissaBitsWithoutImplicit : Nat)).toNat = 1 := by
    rw [bias,least]
    rfl
  rw [UnpackedFloat.pack]
  dsimp only
  rw [biased,width,if_neg (by decide),if_neg (by omega),BitVec.ofNat_toNat,BitVec.setWidth_eq]

theorem pack_normal {sign : Sign} {fraction : BitVec 52} {exponent : BitVec 11}
    (positive : 0 < (1#1 ++ fraction).toNat) (small : exponent ≠ -1#11) :
    pack .binary64 (.finite sign (1#1 ++ fraction).toNat (exponent.toNat - 1075) positive) =
      packComponents .binary64 sign exponent fraction := by
  have bias : (Format.binary64.exponentBias : Int) = 1023 := rfl
  have width : Format.binary64.mantissaBits = 53 := rfl
  have range := exponent.isLt
  have below := fraction.isLt
  have leading : (1#1 ++ fraction).toNat = 2^52 + fraction.toNat := by
    rw [BitVec.toNat_append,BitVec.toNat_ofNat,← Nat.shiftLeft_add_eq_or_of_lt below]
    rfl
  have log : (1#1 ++ fraction).toNat.log2 = 52 := by
    rw [Nat.log2_eq_iff positive.ne',leading]
    omega
  have biased : ((exponent.toNat : Int) - 1075 + Format.binary64.exponentBias +
      (Format.binary64.mantissaBitsWithoutImplicit : Nat)).toNat = exponent.toNat := by
    rw [bias]
    show ((exponent.toNat : Int) - 1075 + 1023 + (52 : Nat)).toNat = exponent.toNat
    omega
  have top : exponent.toNat ≠ 2047 := fun same => small (BitVec.eq_of_toNat_eq same)
  rw [UnpackedFloat.pack]
  dsimp only
  rw [biased,width,log,if_neg (by show ¬2^11 ≤ exponent.toNat + 1; omega),if_pos rfl,BitVec.ofNat_toNat,BitVec.setWidth_eq]
  congr 1
  rw [leading]
  apply BitVec.eq_of_toNat_eq
  rw [BitVec.toNat_ofNat]
  omega

theorem pack_unpack {bits : BitVec 64} (valid : Format.binary64.Valid bits) : pack .binary64 (unpack .binary64 bits) = bits := by
  have whole := pack_fields bits
  rw [UnpackedFloat.unpack]
  dsimp only
  split
  next infinite =>
    split
    next zero =>
      rw [infinite,zero] at whole
      exact whole
    next nonzero => exact (valid.eq_packedNaN infinite nonzero).symm
  next finite =>
    split
    next tiny =>
      split
      next zero =>
        rw [tiny,zero] at whole
        exact whole
      next nonzero =>
        rw [pack_subnormal _ (by rw [tiny]; rfl)]
        rw [tiny] at whole
        exact whole
    next normal => exact (pack_normal _ finite).trans whole

theorem ofBits_toBits (x : Float) : Float.ofBits x.toBits = x := by
  have bits : Float.Model.ofBits x.toModel.toBits = x.toModel := by
    have same : (Float.Model.ofBits x.toModel.toBits).toBits = x.toModel.toBits :=
      UInt64.toBitVec_inj.mp (pack_unpack x.toModel.valid)
    cases image : Float.Model.ofBits x.toModel.toBits with
    | mk toBits valid =>
      rw [image] at same
      subst same
      rfl
  exact congrArg Float.ofModel bits

end Foundation.Binary64
