import Tabletop.Double.Parts

/-! Reading a text as a double: an optional sign, then a word for infinity or for no number, or
digits with an optional point and exponent. The result is the double nearest to the number
written. -/

namespace Tabletop.Decimal

/-- The number with these decimal digits, most significant first, continuing from `start`. -/
def natOfDigits (start : Nat) (digits : List Char) : Nat :=
  digits.foldl (fun n c => 10 * n + (c.toNat - '0'.toNat)) start

/-- The double nearest to `n · 10 ^ e`. Powers far beyond the range of doubles are never formed. -/
def nearest (n : Nat) (e : Int) : Float :=
  if n = 0 then 0.0
  else
    let point := (Nat.toDigits 10 n).length + e
    if 310 < point then 1.0 / 0.0
    else if point < -330 then 0.0
    else Float.ofScientific n (e < 0) e.natAbs

/-- An exponent after its letter. -/
def readExponent? (s : List Char) : Option Int :=
  let (negative, digits) := match s with
    | '-' :: rest => (true, rest)
    | '+' :: rest => (false, rest)
    | rest => (false, rest)
  if digits.isEmpty || !digits.all Char.isDigit then none
  else
    let n : Int := natOfDigits 0 digits
    some (if negative then -n else n)

/-- Digits with an optional point and exponent; at least one digit stands before the exponent. -/
def readMagnitude? (s : List Char) : Option Float :=
  let whole := s.takeWhile Char.isDigit
  let rest := s.dropWhile Char.isDigit
  let (fraction, rest) := match rest with
    | '.' :: more => (more.takeWhile Char.isDigit, more.dropWhile Char.isDigit)
    | _ => ([], rest)
  if whole.isEmpty && fraction.isEmpty then none
  else
    let n := natOfDigits (natOfDigits 0 whole) fraction
    match rest with
    | [] => some (nearest n (-fraction.length))
    | c :: more =>
      if c = 'e' || c = 'E' then (readExponent? more).map fun e => nearest n (e - fraction.length)
      else none

/-- A number without its sign. -/
def readUnsigned? (s : List Char) : Option Float :=
  match String.ofList (s.map Char.toLower) with
  | "inf" | "infinity" => some (1.0 / 0.0)
  | "nan" => some (0.0 / 0.0)
  | _ => readMagnitude? s

/-- The number a text spells, if it spells one from end to end. -/
def read? (s : String) : Option Float :=
  match s.toList with
  | '-' :: rest => (readUnsigned? rest).map (-·)
  | '+' :: rest => readUnsigned? rest
  | all => readUnsigned? all

end Tabletop.Decimal
