import Tabletop.Decimal.Shortest

/-! How the digits of a number are laid out as text. -/

namespace Tabletop.Decimal

/-- The choices of one number format. A number `0.d₁d₂… · 10 ^ point` is written without an exponent
when `positional point` holds. -/
structure Style where
  positional : Int → Bool
  whole : String
  tie : Tie

/-- The digits, with `whole` after a number that has no fraction. -/
def positionalText (whole : String) (digits : List Char) (point : Int) : String :=
  if point ≤ 0 then
    "0." ++ String.ofList (List.replicate (-point).toNat '0' ++ digits)
  else
    let before := digits.take point.toNat
    let padding := List.replicate (point.toNat - digits.length) '0'
    match digits.drop point.toNat with
    | [] => String.ofList (before ++ padding) ++ whole
    | after => String.ofList (before ++ '.' :: after)

/-- One digit, the others behind a point, and the exponent with its sign. -/
def exponentText (digits : List Char) (point : Int) : String :=
  let mantissa := match digits with
    | d :: e :: rest => d :: '.' :: e :: rest
    | few => few
  let exponent := point - 1
  let sign := if exponent < 0 then "e-" else "e+"
  String.ofList mantissa ++ sign ++ toString exponent.natAbs

/-- The magnitude of a finite double. -/
def Style.magnitude (style : Style) (x : Float) : String :=
  let p := Double.parts x
  if p.significand = 0 then "0" ++ style.whole
  else
    let d := shortest style.tie p.significand p.exponent
    let digits := Nat.toDigits 10 d.digits
    let point := digits.length + d.scale
    if style.positional point then positionalText style.whole digits point
    else exponentText digits point

/-- A finite double. -/
def Style.render (style : Style) (x : Float) : String :=
  if Double.isNegative x then "-" ++ style.magnitude x else style.magnitude x

/-- Numbers shown to people: never an exponent, and no point after a whole number. -/
def plain : Style where
  positional _ := true
  whole := ""
  tie := .up

/-- Numbers in JSON: a point or an exponent marks every double, and from `10 ^ 16` up or below
`10 ^ -5` the exponent is written out. -/
def notated : Style where
  positional point := -5 < point && point ≤ 16
  whole := ".0"
  tie := .even

end Tabletop.Decimal
