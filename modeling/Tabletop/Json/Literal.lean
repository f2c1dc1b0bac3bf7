import Tabletop.Json.Basic

/-! The number a JSON literal stands for. An integer in the range of 64 bits stays an integer. All
else is a double, computed from the leading digits that fit an unsigned 64-bit word and one power of
ten. -/

namespace Tabletop.Json

/-- The parts of a number literal, as digits. -/
structure Literal where
  negative : Bool
  whole : List Char
  fraction : List Char
  exponent : Int
  integral : Bool

def wordLimit : Nat := Nat.pow 2 64

/-- Takes digits into `n` as long as it stays below the limit; the digits left excess come
second. -/
def takeDigits (n : Nat) : List Char → Nat × List Char
  | [] => (n, [])
  | c :: rest =>
    let next := 10 * n + (c.toNat - '0'.toNat)
    if next < wordLimit then takeDigits next rest else (n, c :: rest)

/-- The double for a power of ten. -/
def tenTo (k : Nat) : Float := Float.ofScientific 1 false k

/-- `x · 10 ^ e` in at most `steps` divisions by `10 ^ 308` and one operation more; no number where
it is too large. -/
def scale (steps : Nat) (x : Float) (e : Int) : Option Float :=
  if e.natAbs ≤ 308 then
    if 0 ≤ e then
      let y := x * tenTo e.natAbs
      if y.isInf then none else some y
    else some (x / tenTo e.natAbs)
  else if x == 0.0 then some x
  else if 0 ≤ e then none
  else match steps with
    | 0 => some 0.0
    | steps + 1 => scale steps (x / tenTo 308) (e + 308)

/-- The magnitude of a literal that is no integer in range. Digits of the fraction that do not fit
are dropped; digits of the whole part that do not fit count as zeros. -/
def Literal.magnitude (l : Literal) : Option Float :=
  let (n, excess) := takeDigits 0 l.whole
  let (n, dropped) := takeDigits n l.fraction
  let taken : Int := l.fraction.length - dropped.length
  scale 4 (Float.ofNat n) (l.exponent + excess.length - taken)

def Literal.double (l : Literal) : Option Number :=
  l.magnitude.map fun x => .double (if l.negative then -x else x)

/-- The number of a literal, if there is one. Minus zero is a double. -/
def Literal.number (l : Literal) : Option Number :=
  let (n, excess) := takeDigits 0 l.whole
  if l.integral && excess.isEmpty then
    if !l.negative then some (.integer n)
    else if n ≠ 0 && n ≤ Nat.pow 2 63 then some (.integer (-(n : Int)))
    else l.double
  else l.double

end Tabletop.Json
