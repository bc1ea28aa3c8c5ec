import Mathlib

/-! The operations a program performs on a `double`, so that one definition can be
read over IEEE-754 binary64 (`Float`) or over another arithmetic. Rounding to an
integer type is split off: `floor`, `ceil` and `lround` give the integer itself. -/
namespace Foundation

class CDouble (F : Type) extends Add F, Sub F, Mul F, Div F, OfScientific F where
  ofInt : Int → F
  sqrt : F → F
  floor : F → Int
  ceil : F → Int
  lround : F → Int
  lt : F → F → Bool
  eq : F → F → Bool

namespace Binary64
open Float.Model.UnpackedFloat

/-- What the hardware conversion to a 64-bit integer yields for an operand it
cannot represent. -/
def indefinite : Int := -2^63

/-- `sign * mantissa * 2^exponent` rounded down after adding `half / 2`. -/
def scaled (sign : Sign) (mantissa : Nat) (exponent : Int) (half : Nat) : Int :=
  if 0 ≤ exponent then sign.apply (mantissa * 2^exponent.toNat)
  else (2 * sign.apply mantissa + half * 2^(-exponent).toNat) / (2 * 2^(-exponent).toNat)

def floor (x : Float) : Int :=
  match x.toModel.unpack with
  | .finite sign mantissa exponent _ => scaled sign mantissa exponent 0
  | .zero _ => 0
  | _ => indefinite

def ceil (x : Float) : Int :=
  match x.toModel.unpack with
  | .finite sign mantissa exponent _ => -scaled (-sign) mantissa exponent 0
  | .zero _ => 0
  | _ => indefinite

def lround (x : Float) : Int :=
  match x.toModel.unpack with
  | .finite sign mantissa exponent _ => sign.apply (scaled .positive mantissa exponent 1)
  | .zero _ => 0
  | _ => indefinite

def toLong (x : Float) : Int :=
  match x.toModel.unpack with
  | .finite sign mantissa exponent _ =>
    let whole := sign.apply (scaled .positive mantissa exponent 0)
    if -2^63 ≤ whole ∧ whole < 2^63 then whole else indefinite
  | .zero _ => 0
  | _ => indefinite

instance : CDouble Float where
  ofInt n := Float.ofInt n
  sqrt := Float.sqrt
  floor := floor
  ceil := ceil
  lround := lround
  lt a b := a < b
  eq a b := a == b

end Binary64
end Foundation
