import Tabletop.Double.Parts

/-! Seconds as whole milliseconds, and back. -/

namespace Tabletop.Double

/-- `n / d` to the nearest natural number, the even one of two. -/
def nearest (n d : Nat) : Nat :=
  let q := n / d
  let r := n % d
  if 2 * r < d || (2 * r == d && q % 2 == 0) then q else q + 1

/-- The nanoseconds nearest to a number of seconds that is not negative. -/
def nanoseconds (seconds : Float) : Nat :=
  let p := parts seconds
  let n := p.significand * 1000000000
  if 0 ≤ p.exponent then n * Nat.pow 2 p.exponent.toNat
  else nearest n (Nat.pow 2 (-p.exponent).toNat)

/-- The milliseconds that a wait of some seconds takes: its nanoseconds, rounded up. -/
def milliseconds (seconds : Float) : Nat := (nanoseconds seconds + 999999) / 1000000

/-- Milliseconds as seconds. The whole seconds and the rest are converted apart. -/
def seconds (milliseconds : Nat) : Float :=
  Float.ofNat (milliseconds / 1000) + Float.ofNat (milliseconds % 1000 * 1000000) / 1000000000.0

end Tabletop.Double
