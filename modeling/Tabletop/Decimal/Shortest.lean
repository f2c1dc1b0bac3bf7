import Tabletop.Double.Parts

/-! The shortest decimal that reads back as a given double. The reals that round to the double
`m · 2 ^ q` form an interval around it; among the decimal grids `10 ^ s` the coarsest one with a
point in that interval is taken, and of its points the one nearest to the double. -/

namespace Tabletop.Decimal

/-- Which of two equally near decimals is written. -/
inductive Tie where
  | even | up
  deriving DecidableEq, Repr

/-- The number `digits · 10 ^ scale`. -/
structure Scaled where
  digits : Nat
  scale : Int
  deriving DecidableEq, Repr

/-- A double and its grid brought to one unit: `centre`, `low` and `high` in quarters of the last
binary place, `step` the distance of two points of the grid. -/
structure Window where
  centre : Nat
  low : Nat
  high : Nat
  step : Nat
  closed : Bool

/-- The window of `m · 2 ^ q` on the grid `10 ^ s`. The neighbour below a power of two is only half
as far away as the one above. The ends belong to the interval when the significand is even. -/
def Window.of (m : Nat) (q s : Int) : Window :=
  let unit := Nat.pow 2 (q - 2).toNat * Nat.pow 10 (-s).toNat
  let below := if m = Double.fullSignificand && Double.leastExponent < q then 1 else 2
  { centre := 4 * m * unit
    low := (4 * m - below) * unit
    high := (4 * m + 2) * unit
    step := Nat.pow 2 (2 - q).toNat * Nat.pow 10 s.toNat
    closed := m % 2 == 0 }

/-- Whether the point `d` of the grid rounds to the double. -/
def Window.holds (w : Window) (d : Nat) : Bool :=
  let at_ := d * w.step
  if w.closed then w.low ≤ at_ && at_ ≤ w.high else w.low < at_ && at_ < w.high

/-- The point of the grid nearest to the double among those that round to it. -/
def Window.nearest? (tie : Tie) (w : Window) : Option Nat :=
  let down := w.centre / w.step
  let up := down + 1
  let below := w.centre - down * w.step
  let above := up * w.step - w.centre
  match w.holds down, w.holds up with
  | false, false => none
  | true, false => some down
  | false, true => some up
  | true, true =>
    if below < above then some down
    else if above < below then some up
    else match tie with
      | .even => if down % 2 == 0 then some down else some up
      | .up => some up

/-- Whether `10 ^ k ≤ m · 2 ^ q`. -/
def reaches (m : Nat) (q k : Int) : Bool :=
  Nat.pow 10 k.toNat * Nat.pow 2 (-q).toNat ≤ m * Nat.pow 2 q.toNat * Nat.pow 10 (-k).toNat

/-- The `k` with `10 ^ (k - 1) ≤ m · 2 ^ q < 10 ^ k`, looked for from an estimate that is at most
one too small. -/
def pointAfter (m : Nat) (q : Int) : Int :=
  let estimate := ((Nat.log2 m : Int) + q) * 30103 / 100000 - 1
  let bump := fun k => if reaches m q k then k + 1 else k
  bump (bump (bump (bump estimate)))

/-- The first grid with a hit, trying `count` grids of growing fineness from `10 ^ s`. -/
def firstHit (tie : Tie) (m : Nat) (q : Int) : Nat → Int → Scaled
  | 0, s => ⟨(Window.of m q s).centre / (Window.of m q s).step, s⟩
  | count + 1, s =>
    match (Window.of m q s).nearest? tie with
    | some d => ⟨d, s⟩
    | none => firstHit tie m q count (s - 1)

/-- The shortest decimal that rounds to `m · 2 ^ q`, for `m` not zero. The first grid has no point
but zero and the next power of ten; seventeen digits always do. -/
def shortest (tie : Tie) (m : Nat) (q : Int) : Scaled :=
  firstHit tie m q 18 (pointAfter m q)

end Tabletop.Decimal
