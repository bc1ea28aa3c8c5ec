import Lancet.Foundation.Rounding

/-! The operations on positive doubles, each with the rational it comes near. -/
namespace Foundation.Binary64
open Float.Model Float.Model.UnpackedFloat

def Denotes (x : Float) (value : ℚ) : Prop := Stands x.toModel.unpack value

theorem dyadic_pos {mantissa : Nat} (exponent : Int) (positive : 0 < mantissa) : 0 < dyadic mantissa exponent :=
  mul_pos (Nat.cast_pos.mpr positive) (two_zpow_pos exponent)

theorem Stands.value_pos {unpacked : UnpackedFloat} {value : ℚ} (stands : Stands unpacked value) : 0 < value := by
  obtain ⟨mantissa,exponent,positive,-,-,-,-,-,rfl⟩ := stands
  exact dyadic_pos exponent positive

theorem dyadic_mul (first second : Nat) (low high : Int) :
    dyadic (first * second) (low + high) = dyadic first low * dyadic second high := by
  rw [dyadic,dyadic,dyadic,Nat.cast_mul,zpow_add₀ (by norm_num : (2 : ℚ) ≠ 0)]
  ring

theorem round_stands {mantissa : Nat} {exponent : Int} (positive : 0 < mantissa) (moderate : Moderate (dyadic mantissa exponent)) :
    ∃ value, Stands (UnpackedFloat.round .binary64 .positive mantissa exponent) value ∧ Off ulp value (dyadic mantissa exponent) := by
  have range := log2_range positive moderate
  have amount : (exponent - ((mantissa.log2 : Int) + exponent - 52)).toNat = 52 - mantissa.log2 := by omega
  have same : dyadic (mantissa * 2^(52 - mantissa.log2)) (exponent - (52 - mantissa.log2 : Nat)) = dyadic mantissa exponent := by
    rw [dyadic_shift,sub_add_cancel]
  have wide : 2^52 ≤ mantissa * 2^(52 - mantissa.log2) := by
    calc 2^52 ≤ 2^(mantissa.log2 + (52 - mantissa.log2)) := Nat.pow_le_pow_right (by norm_num) (by omega)
      _ = 2^mantissa.log2 * 2^(52 - mantissa.log2) := Nat.pow_add ..
      _ ≤ mantissa * 2^(52 - mantissa.log2) := Nat.mul_le_mul_right _ (Nat.log2_self_le positive.ne')
  have range' := log2_range (Nat.lt_of_lt_of_le (by norm_num) wide) (same.symm ▸ moderate)
  rw [UnpackedFloat.round,target_eq (by omega),decreaseExponent,amount,Nat.shiftLeft_eq,← same]
  exact round_near .exact wide (by omega) (by omega)

theorem normalize_stands {mantissa : Int} {exponent : Int} (positive : 0 < mantissa)
    (moderate : Moderate (dyadic mantissa.toNat exponent)) :
    ∃ value, Stands (UnpackedFloat.normalize .binary64 mantissa exponent .positive) value ∧ Off ulp value (dyadic mantissa.toNat exponent) := by
  have greater : compare mantissa 0 = .gt := Std.compare_eq_gt.mpr positive
  rw [UnpackedFloat.normalize,greater]
  exact round_stands (by omega) moderate

theorem Off.mono {error error' value exact : ℚ} (off : Off error value exact) (nonneg : 0 ≤ exact) (less : error ≤ error') :
    Off error' value exact :=
  ⟨(mul_le_mul_of_nonneg_left (by linarith) nonneg).trans off.1,off.2.trans (mul_le_mul_of_nonneg_left (by linarith) nonneg)⟩

theorem Off.mul {error error' value value' exact exact' : ℚ} (first : Off error value exact) (second : Off error' value' exact')
    (nonneg : 0 ≤ exact) (nonneg' : 0 ≤ exact') (small : 0 ≤ error ∧ error ≤ 1) (small' : 0 ≤ error' ∧ error' ≤ 1) :
    Off (error + error' + error * error') (value * value') (exact * exact') := by
  have below : 0 ≤ exact * (1 - error) := mul_nonneg nonneg (by linarith)
  have below' : 0 ≤ exact' * (1 - error') := mul_nonneg nonneg' (by linarith)
  have product : 0 ≤ exact * exact' * (error * error') := mul_nonneg (mul_nonneg nonneg nonneg') (mul_nonneg small.1 small'.1)
  constructor
  · have least := mul_le_mul first.1 second.1 below' (below.trans first.1)
    linarith
  · have most := mul_le_mul first.2 second.2 (below'.trans second.1) (mul_nonneg nonneg (by linarith))
    linarith

/-- What is off an approximation is off the exact value by both errors. -/
theorem Off.trans {error error' value middle exact : ℚ} (first : Off error middle exact) (second : Off error' value middle)
    (nonneg : 0 ≤ exact) (small : 0 ≤ error ∧ error ≤ 1) (small' : 0 ≤ error' ∧ error' ≤ 1) :
    Off (error + error' + error * error') value exact := by
  have product : 0 ≤ exact * (error * error') := mul_nonneg nonneg (mul_nonneg small.1 small'.1)
  have lower := mul_le_mul_of_nonneg_right first.1 (show 0 ≤ 1 - error' by linarith)
  have upper := mul_le_mul_of_nonneg_right first.2 (show 0 ≤ 1 + error' by linarith)
  constructor
  · linarith [second.1]
  · linarith [second.2]

theorem Off.moderate {error value exact : ℚ} (off : Off error value exact) (small : 0 ≤ error ∧ error ≤ 1 / 2)
    (low : 1 / 2^40 ≤ exact) (high : exact ≤ 2^40) : Moderate value := by
  have nonneg : 0 ≤ exact := le_trans (by norm_num) low
  have halved : exact / 2 ≤ exact * (1 - error) := by nlinarith
  have doubled : exact * (1 + error) ≤ exact * 2 := mul_le_mul_of_nonneg_left (by linarith) nonneg
  constructor
  · calc (1 : ℚ) / 2^200 ≤ 1 / 2^40 / 2 := by norm_num
      _ ≤ exact / 2 := by linarith
      _ ≤ value := halved.trans off.1
  · calc value ≤ exact * 2 := off.2.trans doubled
      _ ≤ 2^40 * 2 := by linarith
      _ ≤ 2^200 := by norm_num

section Operations
variable {x y : Float} {v w : ℚ}

theorem Denotes.value_pos (denotes : Denotes x v) : 0 < v := Stands.value_pos denotes

theorem Denotes.mul (first : Denotes x v) (second : Denotes y w) (moderate : Moderate (v * w)) :
    ∃ value, Denotes (x * y) value ∧ Off ulp value (v * w) := by
  obtain ⟨mantissa,exponent,positive,unpacked,wide,-,-,-,rfl⟩ := first
  obtain ⟨mantissa',exponent',positive',unpacked',wide',-,-,-,rfl⟩ := second
  rw [← dyadic_mul] at moderate ⊢
  have range := log2_range (Nat.mul_pos positive positive') moderate
  have big : 2^52 ≤ mantissa * mantissa' := by nlinarith
  obtain ⟨value,stands,near⟩ := @round_near _ (exponent + exponent') .exact big (by omega) (by omega)
  refine ⟨value,?_,near⟩
  have product : UnpackedFloat.mul .binary64 x.toModel.unpack y.toModel.unpack =
      roundWithAccuracy .binary64 .positive (mantissa * mantissa') (exponent + exponent') .exact := by
    rw [unpacked,unpacked']
    rfl
  have packed : Stands (Float.Model.pack (UnpackedFloat.mul .binary64 x.toModel.unpack y.toModel.unpack)).unpack value := by
    rw [product]
    exact stands.pack
  exact packed

/-- Two mantissas brought to one exponent. -/
theorem decrease_dyadic (mantissa : Nat) {exponent target : Int} (below : target ≤ exponent) :
    dyadic (decreaseExponent mantissa exponent target).1 target = dyadic mantissa exponent := by
  rw [decreaseExponent,Nat.shiftLeft_eq,dyadic_shift,Int.toNat_of_nonneg (by omega)]
  congr 1
  omega

theorem Denotes.add (first : Denotes x v) (second : Denotes y w) (moderate : Moderate (v + w)) :
    ∃ value, Denotes (x + y) value ∧ Off ulp value (v + w) := by
  obtain ⟨mantissa,exponent,positive,unpacked,-,-,-,-,rfl⟩ := first
  obtain ⟨mantissa',exponent',positive',unpacked',-,-,-,-,rfl⟩ := second
  have low := decrease_dyadic mantissa (min_le_left exponent exponent')
  have high := decrease_dyadic mantissa' (min_le_right exponent exponent')
  have sum : UnpackedFloat.add .binary64 x.toModel.unpack y.toModel.unpack =
      UnpackedFloat.normalize .binary64 ((decreaseExponent mantissa exponent (min exponent exponent')).1 +
        (decreaseExponent mantissa' exponent' (min exponent exponent')).1 : Nat) (min exponent exponent') .positive := by
    rw [unpacked,unpacked']
    rfl
  rw [← low,← high,← dyadic_add] at moderate ⊢
  generalize (decreaseExponent mantissa exponent (min exponent exponent')).1 +
    (decreaseExponent mantissa' exponent' (min exponent exponent')).1 = total at sum moderate ⊢
  have least : 0 < total := by
    by_contra empty
    have zero : total = 0 := by omega
    rw [zero,dyadic,Nat.cast_zero,zero_mul,Moderate] at moderate
    norm_num at moderate
  obtain ⟨value,stands,near⟩ := normalize_stands (Int.natCast_pos.mpr least) moderate
  have packed : Stands (Float.Model.pack (UnpackedFloat.add .binary64 x.toModel.unpack y.toModel.unpack)).unpack value := by
    rw [sum]
    exact stands.pack
  exact ⟨value,packed,near⟩

theorem Denotes.sub (first : Denotes x v) (second : Denotes y w) (moderate : Moderate (v - w)) :
    ∃ value, Denotes (x - y) value ∧ Off ulp value (v - w) := by
  obtain ⟨mantissa,exponent,positive,unpacked,-,-,-,-,rfl⟩ := first
  obtain ⟨mantissa',exponent',positive',unpacked',-,-,-,-,rfl⟩ := second
  have low := decrease_dyadic mantissa (min_le_left exponent exponent')
  have high := decrease_dyadic mantissa' (min_le_right exponent exponent')
  have difference : UnpackedFloat.sub .binary64 x.toModel.unpack y.toModel.unpack =
      UnpackedFloat.normalize .binary64 ((decreaseExponent mantissa exponent (min exponent exponent')).1 -
        (decreaseExponent mantissa' exponent' (min exponent exponent')).1 : Int) (min exponent exponent') .positive := by
    rw [unpacked,unpacked']
    rfl
  rw [← low,← high] at moderate ⊢
  generalize (decreaseExponent mantissa exponent (min exponent exponent')).1 = first at difference moderate ⊢
  generalize (decreaseExponent mantissa' exponent' (min exponent exponent')).1 = second at difference moderate ⊢
  have greater : second < first := by
    by_contra less
    have least := dyadic_mono (min exponent exponent') (Nat.le_of_not_lt less)
    have small : (0 : ℚ) < 1 / 2^200 := by norm_num
    linarith [moderate.1]
  have rest : ((first : Int) - second).toNat = first - second := by omega
  have parts : dyadic first (min exponent exponent') - dyadic second (min exponent exponent') =
      dyadic (first - second) (min exponent exponent') := by
    have total := dyadic_add (first - second) second (min exponent exponent')
    rw [Nat.sub_add_cancel greater.le] at total
    linarith
  rw [parts,← rest] at moderate ⊢
  obtain ⟨value,stands,near⟩ := normalize_stands (by omega) moderate
  have packed : Stands (Float.Model.pack (UnpackedFloat.sub .binary64 x.toModel.unpack y.toModel.unpack)).unpack value := by
    rw [difference]
    exact stands.pack
  exact ⟨value,packed,near⟩

theorem sqrt_log2 {square : Nat} (positive : 0 < square) :
    2 * square.sqrt.log2 ≤ square.log2 ∧ square.log2 ≤ 2 * square.sqrt.log2 + 1 := by
  have root : square.sqrt ≠ 0 := (Nat.sqrt_pos.mpr positive).ne'
  have below := Nat.sqrt_le square
  have above := Nat.lt_succ_sqrt square
  have least := Nat.log2_self_le root
  have most := @Nat.lt_log2_self square.sqrt
  constructor
  · refine (Nat.le_log2 positive.ne').mpr ?_
    calc 2^(2 * square.sqrt.log2) = 2^square.sqrt.log2 * 2^square.sqrt.log2 := by rw [two_mul,Nat.pow_add]
      _ ≤ square.sqrt * square.sqrt := Nat.mul_le_mul least least
      _ ≤ square := below
  · refine Nat.le_of_lt_succ ((Nat.log2_lt positive.ne').mpr ?_)
    calc square < (square.sqrt + 1) * (square.sqrt + 1) := above
      _ ≤ 2^(square.sqrt.log2 + 1) * 2^(square.sqrt.log2 + 1) := Nat.mul_le_mul most most
      _ = 2^(2 * square.sqrt.log2 + 1).succ := by
        rw [← Nat.pow_add]
        congr 1
        omega

/-- The exponent that a square root is computed at leaves enough bits. -/
theorem sqrt_target {mantissa : Nat} {exponent : Int} (low : -1000 ≤ mantissa.log2 + exponent) :
    let target := min (exponent.ediv 2) (Format.binary64.targetExponent ((totalExponent mantissa exponent + 1).ediv 2))
    2 * target ≤ exponent ∧ 104 ≤ mantissa.log2 + (exponent - 2 * target).toNat := by
  have half : ∀ value : Int, value.ediv 2 = value / 2 := fun _ => rfl
  simp only [Format.targetExponent,totalExponent,Format.mantissaBits,Format.minExponent,half]
  norm_num
  omega

theorem log2_shift {mantissa : Nat} (shift : Nat) (positive : 0 < mantissa) :
    (mantissa * 2^shift).log2 = mantissa.log2 + shift := by
  have least := Nat.log2_self_le positive.ne'
  have most := @Nat.lt_log2_self mantissa
  refine (Nat.log2_eq_iff (Nat.mul_pos positive (Nat.two_pow_pos shift)).ne').mpr ⟨?_,?_⟩
  · rw [Nat.pow_add]
    exact Nat.mul_le_mul_right _ least
  · rw [show mantissa.log2 + shift + 1 = mantissa.log2 + 1 + shift by omega,Nat.pow_add]
    exact Nat.mul_lt_mul_of_pos_right most (Nat.two_pow_pos shift)

theorem sqrt_error {value root place exact : ℚ} (near : Off ulp value root) (below : root * root ≤ exact)
    (above : exact ≤ (root + place) * (root + place)) (unit : place ≤ root * ulp) (positive : 0 < root) (placed : 0 < place) :
    Off (4 * ulp) (value * value) exact := by
  obtain ⟨least,most⟩ := near
  have small : (0 : ℚ) < 1 - ulp := by norm_num [ulp]
  have value_pos : 0 < value := lt_of_lt_of_le (mul_pos positive small) least
  have nonneg : 0 ≤ exact := (mul_pos positive positive).le.trans below
  constructor
  · have grown : root + place ≤ root * (1 + ulp) := by linarith
    have square : exact ≤ root^2 * (1 + ulp)^2 := by
      calc exact ≤ (root + place) * (root + place) := above
        _ ≤ (root * (1 + ulp)) * (root * (1 + ulp)) := mul_self_le_mul_self (by linarith) grown
        _ = root^2 * (1 + ulp)^2 := by ring
    have product : (1 + ulp)^2 * (1 - ulp)^2 ≤ 1 := by norm_num [ulp]
    have fourth : 1 - 4 * ulp ≤ (1 - ulp)^4 := by norm_num [ulp]
    calc exact * (1 - 4 * ulp) ≤ exact * (1 - ulp)^4 := mul_le_mul_of_nonneg_left fourth nonneg
      _ ≤ (root^2 * (1 + ulp)^2) * (1 - ulp)^4 := mul_le_mul_of_nonneg_right square (by positivity)
      _ = (root * (1 - ulp))^2 * ((1 + ulp)^2 * (1 - ulp)^2) := by ring
      _ ≤ (root * (1 - ulp))^2 := mul_le_of_le_one_right (by positivity) product
      _ ≤ value^2 := pow_le_pow_left₀ (mul_pos positive small).le least 2
      _ = value * value := sq value
  · have second : (1 + ulp)^2 ≤ 1 + 4 * ulp := by norm_num [ulp]
    calc value * value = value^2 := (sq value).symm
      _ ≤ (root * (1 + ulp))^2 := pow_le_pow_left₀ value_pos.le most 2
      _ = root * root * (1 + ulp)^2 := by ring
      _ ≤ exact * (1 + ulp)^2 := mul_le_mul_of_nonneg_right below (by positivity)
      _ ≤ exact * (1 + 4 * ulp) := mul_le_mul_of_nonneg_left second nonneg

theorem Denotes.sqrt (denotes : Denotes x v) (moderate : Moderate v) :
    ∃ value, Denotes (Float.sqrt x) value ∧ Off (4 * ulp) (value * value) v := by
  obtain ⟨mantissa,exponent,positive,unpacked,-,-,-,-,rfl⟩ := denotes
  have range := log2_range positive moderate
  obtain ⟨even,enough⟩ := @sqrt_target mantissa exponent (by omega)
  have root : UnpackedFloat.sqrt .binary64 x.toModel.unpack = roundWithAccuracy .binary64 .positive
      (sqrtCore .binary64 mantissa exponent).1 (sqrtCore .binary64 mantissa exponent).2.1
      (sqrtCore .binary64 mantissa exponent).2.2 := by
    rw [unpacked]
    rfl
  rw [sqrtCore] at root
  dsimp only at root
  generalize min (exponent.ediv 2) (Format.binary64.targetExponent ((totalExponent mantissa exponent + 1).ediv 2)) = target
    at root even enough
  rw [Nat.shiftLeft_eq] at root
  have same : dyadic (mantissa * 2^(exponent - 2 * target).toNat) (2 * target) = dyadic mantissa exponent := by
    rw [dyadic_shift,Int.toNat_of_nonneg (by omega),add_sub_cancel]
  have size := log2_shift (exponent - 2 * target).toNat positive
  have least : 0 < mantissa * 2^(exponent - 2 * target).toNat := Nat.mul_pos positive (Nat.two_pow_pos _)
  rw [← same]
  generalize mantissa * 2^(exponent - 2 * target).toNat = square at root size least ⊢
  obtain ⟨lower,upper⟩ := sqrt_log2 least
  have wide : 2^52 ≤ square.sqrt := (Nat.le_log2 (Nat.sqrt_pos.mpr least).ne').mp (by omega)
  obtain ⟨value,stands,near⟩ := @round_near square.sqrt target
    (if square - square.sqrt * square.sqrt = 0 then .exact
      else .inexact (if square - square.sqrt * square.sqrt ≤ square.sqrt then .lt else .gt)) wide (by omega) (by omega)
  have packed : Stands (Float.Model.pack (UnpackedFloat.sqrt .binary64 x.toModel.unpack)).unpack value := by
    rw [root]
    exact stands.pack
  refine ⟨value,packed,?_⟩
  have below : dyadic square.sqrt target * dyadic square.sqrt target ≤ dyadic square (2 * target) := by
    rw [← dyadic_mul,← two_mul]
    exact dyadic_mono _ (Nat.sqrt_le square)
  have above : dyadic square (2 * target) ≤ dyadic (square.sqrt + 1) target * dyadic (square.sqrt + 1) target := by
    rw [← dyadic_mul,← two_mul]
    exact dyadic_mono _ (Nat.lt_succ_sqrt square).le
  have unit : dyadic 1 target ≤ dyadic square.sqrt target * ulp := by
    have scaled := dyadic_mono target wide
    rw [dyadic] at scaled
    rw [ulp,dyadic]
    push_cast at scaled ⊢
    linarith
  rw [dyadic_add] at above
  have positive := dyadic_pos target (Nat.sqrt_pos.mpr least)
  have unit_pos := dyadic_pos target Nat.one_pos
  generalize dyadic square (2 * target) = exact at below above ⊢
  generalize dyadic square.sqrt target = rootValue at near below above unit positive
  generalize dyadic 1 target = place at above unit unit_pos
  exact sqrt_error near below above unit positive unit_pos

theorem scaled_floor (sign : Sign) (mantissa : Nat) (exponent : Int) :
    scaled sign mantissa exponent 0 = ⌊(sign.apply mantissa : ℚ) * 2^exponent⌋ := by
  rw [scaled]
  split
  next whole =>
    obtain ⟨shift,rfl⟩ := Int.eq_ofNat_of_zero_le whole
    have exact : (sign.apply mantissa : ℚ) * 2^(shift : Int) = (sign.apply mantissa * 2^shift : Int) := by
      push_cast
      rw [zpow_natCast]
    rw [exact,Int.floor_intCast,Int.toNat_natCast]
    cases sign with
    | negative => exact (Int.neg_mul _ _).symm
    | positive => rfl
  next fraction =>
    obtain ⟨shift,opposite⟩ := Int.eq_ofNat_of_zero_le (show 0 ≤ -exponent by omega)
    have power : (2 : ℚ)^exponent = 1 / (2^shift : Nat) := by
      rw [show exponent = -(shift : Int) by omega,zpow_neg,zpow_natCast,one_div]
      push_cast
      rfl
    rw [opposite,Int.toNat_natCast,power,mul_one_div,Rat.floor_intCast_div_natCast,Nat.cast_zero,zero_mul,add_zero]
    push_cast
    exact Int.mul_ediv_mul_of_pos _ _ (by norm_num)

theorem Denotes.floor (denotes : Denotes x v) : Binary64.floor x = ⌊v⌋ := by
  obtain ⟨mantissa,exponent,positive,unpacked,-,-,-,-,rfl⟩ := denotes
  rw [Binary64.floor,unpacked]
  exact scaled_floor .positive mantissa exponent

theorem Denotes.ceil (denotes : Denotes x v) : Binary64.ceil x = ⌈v⌉ := by
  obtain ⟨mantissa,exponent,positive,unpacked,-,-,-,-,rfl⟩ := denotes
  rw [Binary64.ceil,unpacked]
  have lowered := scaled_floor .negative mantissa exponent
  have opposite : ((Sign.negative.apply mantissa : Int) : ℚ) * 2^exponent = -dyadic mantissa exponent := by
    rw [dyadic,Sign.apply]
    push_cast
    ring
  rw [opposite,Int.floor_neg] at lowered
  exact (congrArg Neg.neg lowered).trans (neg_neg _)

end Operations

/-- A check by evaluation that a double stands within two fractions. -/
def standsBetween (x : Float) (low high denominator : Nat) : Bool :=
  match x.toModel.unpack with
  | .finite .positive mantissa exponent _ => decide (2^52 ≤ mantissa ∧ mantissa < 2^53 ∧ -300 ≤ exponent ∧ exponent ≤ 0 ∧
      low * 2^(-exponent).toNat ≤ mantissa * denominator ∧ mantissa * denominator ≤ high * 2^(-exponent).toNat)
  | _ => false

theorem denotes_of_check {x : Float} {low high denominator : Nat} (counted : 0 < denominator)
    (checked : standsBetween x low high denominator = true) :
    ∃ value, Denotes x value ∧ (low : ℚ) / denominator ≤ value ∧ value ≤ high / denominator := by
  rw [standsBetween] at checked
  split at checked
  next mantissa exponent positive unpacked =>
    obtain ⟨wide,narrow,least,most,below,above⟩ := of_decide_eq_true checked
    refine ⟨_,⟨mantissa,exponent,positive,unpacked,wide,narrow,least,by omega,rfl⟩,?_⟩
    obtain ⟨shift,opposite⟩ := Int.eq_ofNat_of_zero_le (show 0 ≤ -exponent by omega)
    have power : (2 : ℚ)^exponent = 1 / (2^shift : Nat) := by
      rw [show exponent = -(shift : Int) by omega,zpow_neg,zpow_natCast,one_div]
      push_cast
      rfl
    rw [opposite,Int.toNat_natCast] at below above
    have size : (0 : ℚ) < (2^shift : Nat) := by positivity
    have total : (0 : ℚ) < denominator := Nat.cast_pos.mpr counted
    rw [dyadic,power,mul_one_div,div_le_div_iff₀ total size,div_le_div_iff₀ size total]
    exact ⟨by exact_mod_cast below,by exact_mod_cast above⟩
  next => cases checked

end Foundation.Binary64
