import Tabletop.Double.Parts

/-! The exact remainder of a division, and the reading of an angle inside one turn. -/

namespace Tabletop.Double

/-- The remainder of `x / y` with the sign of `x`, for a finite `y` that is not zero. No digit is
lost: both are brought to one power of two and divided as natural numbers. -/
def remainder (x y : Float) : Float :=
  if x.isNaN || x.isInf then 0.0 / 0.0
  else if x.abs < y.abs then x
  else
    let a := parts x
    let b := parts y
    let common := min a.exponent b.exponent
    let left := a.significand * Nat.pow 2 (a.exponent - common).toNat
    let right := b.significand * Nat.pow 2 (b.exponent - common).toNat
    withSign a.negative ((Float.ofNat (left % right)).scaleB common)

/-- The remainder that is not negative. -/
def modulo (x y : Float) : Float :=
  let r := remainder x y
  if r < 0.0 then r + y.abs else r

end Tabletop.Double
