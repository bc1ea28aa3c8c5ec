import Lancet.Foundation.CString

/-! Numbers as `printf` and `fmt.Sprintf` print them, and what `strtol` makes of them again. -/
namespace Foundation.Printing
open CString

/-- `%d` and `%ld`. -/
def decimalInt : Int → List Char
  | .ofNat value => Nat.toDigits 10 value
  | .negSucc value => '-' :: Nat.toDigits 10 (value + 1)

/-- `%0<width>d` of a number that is not negative. -/
def paddedDecimal (width value : Nat) : List Char :=
  List.replicate (width - (Nat.toDigits 10 value).length) '0' ++ Nat.toDigits 10 value

def ascii (text : List Char) : List UInt8 := text.map (fun char => UInt8.ofNat char.toNat)

@[simp] theorem ascii_length (text : List Char) : (ascii text).length = text.length := List.length_map _

theorem decimal_eq_ofDigitChars (digits : List Char) : decimal digits = Nat.ofDigitChars 10 digits 0 := by
  have fold : ∀ (digits : List Char) (value : Nat),
      digits.foldl (fun value char => value * 10 + (char.toNat - 48)) value = Nat.ofDigitChars 10 digits value := by
    intro digits
    induction digits with
    | nil => exact fun value => Nat.ofDigitChars_nil.symm
    | cons first digits ih =>
      intro value
      rw [List.foldl_cons,ih,Nat.ofDigitChars_cons,Nat.mul_comm]
      rfl
  exact fold digits 0

theorem decimal_toDigits (value : Nat) : decimal (Nat.toDigits 10 value) = value := by
  rw [decimal_eq_ofDigitChars,Nat.ofDigitChars_ten_toDigits]

theorem toDigits_digits (value : Nat) : ∀ char ∈ Nat.toDigits 10 value, char.isDigit = true :=
  fun _ inside => Nat.isDigit_of_mem_toDigits (by omega) (Nat.le_refl 10) inside

theorem decimal_padded (width value : Nat) : decimal (paddedDecimal width value) = value := by
  rw [decimal_eq_ofDigitChars,paddedDecimal,Nat.ofDigitChars_append,Nat.ofDigitChars_replicate_zero,Nat.mul_zero,
    Nat.ofDigitChars_ten_toDigits]

theorem padded_length {width value : Nat} (positive : 0 < width) (fits : value < 10^width) :
    (paddedDecimal width value).length = width := by
  have short : (Nat.toDigits 10 value).length ≤ width := (Nat.length_toDigits_le_iff (by omega) positive).mpr fits
  rw [paddedDecimal,List.length_append,List.length_replicate]
  omega

theorem padded_digits (width value : Nat) : ∀ char ∈ paddedDecimal width value, char.isDigit = true := by
  intro char inside
  rcases List.mem_append.mp inside with zero | digit
  · rw [(List.mem_replicate.mp zero).2]
    rfl
  · exact toDigits_digits value char digit

/-- Digits have no white space and no sign before them. -/
theorem digits_body {digits : List Char} (nonempty : digits ≠ []) (all : ∀ char ∈ digits, char.isDigit = true) :
    digits.dropWhile isSpace = digits ∧ digits.head? ≠ some '-' ∧ digits.head? ≠ some '+' := by
  obtain ⟨first,more,rfl⟩ := List.exists_cons_of_ne_nil nonempty
  have digit := all first List.mem_cons_self
  have range := isDigit_range digit
  have space : isSpace first = false := by
    have other : first ≠ ' ' := isDigit_ne digit (by decide)
    have above : ¬first.toNat ≤ 13 := by omega
    simp [isSpace,other,above]
  refine ⟨List.dropWhile_cons_of_neg (by simp [space]),?_,?_⟩
  · exact fun same => isDigit_ne digit (by decide) (Option.some.inj same)
  · exact fun same => isDigit_ne digit (by decide) (Option.some.inj same)

/-- What `%ld` has printed is read back. -/
theorem strtol_decimalInt {value : Int} (range : -2^63 ≤ value ∧ value < 2^63) : strtol (decimalInt value) = value := by
  have digits (number : Nat) : (Nat.toDigits 10 number).takeWhile Char.isDigit = Nat.toDigits 10 number :=
    List.takeWhile_eq_self_iff.mpr (toDigits_digits number)
  cases value with
  | ofNat number =>
    obtain ⟨body,minus,plus⟩ := digits_body Nat.toDigits_ne_nil (toDigits_digits number)
    have bound : (number : Int) < 2^63 := range.2
    rw [decimalInt,strtol,body,if_neg (not_or.mpr ⟨minus,plus⟩),if_neg minus,digits,decimal_toDigits,Int.ofNat_eq_natCast]
    omega
  | negSucc number =>
    have body : ('-' :: Nat.toDigits 10 (number + 1)).dropWhile isSpace = '-' :: Nat.toDigits 10 (number + 1) :=
      List.dropWhile_cons_of_neg (by decide)
    have sign : ('-' :: Nat.toDigits 10 (number + 1)).head? = some '-' := rfl
    have signed : ('-' :: Nat.toDigits 10 (number + 1)).head? = some '-' ∨
        ('-' :: Nat.toDigits 10 (number + 1)).head? = some '+' := .inl sign
    have bound := range.1
    rw [decimalInt,strtol,body,if_pos sign,if_pos signed,List.tail_cons,digits,decimal_toDigits]
    omega

end Foundation.Printing
