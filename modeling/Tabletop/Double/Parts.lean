/-! A double taken apart: its sign, and its magnitude as a natural number times a power of two. -/

namespace Tabletop.Double

/-- The number `± significand · 2 ^ exponent`. -/
structure Parts where
  negative : Bool
  significand : Nat
  exponent : Int
  deriving Repr, DecidableEq

/-- The least exponent of a double. -/
def leastExponent : Int := -1074

/-- The significand from which on doubles have full precision. -/
def fullSignificand : Nat := Nat.pow 2 52

/-- The parts of a finite double; the exponent field zero marks the doubles without a leading
one. -/
def parts (x : Float) : Parts :=
  let bits := x.toBits.toNat
  let field : Nat := bits / Nat.pow 2 52 % Nat.pow 2 11
  let fraction := bits % Nat.pow 2 52
  if field = 0 then ⟨Nat.pow 2 63 ≤ bits, fraction, leastExponent⟩
  else ⟨Nat.pow 2 63 ≤ bits, fullSignificand + fraction, field + (leastExponent - 1)⟩

/-- The sign bit, which zero and infinity have too. -/
def isNegative (x : Float) : Bool := Nat.pow 2 63 ≤ x.toBits.toNat

/-- The same magnitude with the given sign. -/
def withSign (negative : Bool) (x : Float) : Float := if negative then -x else x

end Tabletop.Double
