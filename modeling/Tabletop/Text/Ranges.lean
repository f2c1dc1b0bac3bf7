/-! Sets of characters, as ranges of code points. -/

namespace Tabletop.Text

/-- Whether a character lies in one of some inclusive ranges. -/
def inRanges (ranges : List (Nat × Nat)) (c : Char) : Bool :=
  ranges.any fun r => r.1 ≤ c.toNat && c.toNat ≤ r.2

end Tabletop.Text
