/-! Random numbers. The source is a counter in steps of one odd number, each value of which is
stirred until all of its bits depend on each other. -/

namespace Tabletop

structure Entropy where
  counter : UInt64 := 0

namespace Entropy

/-- Stirs the bits of a word. -/
def stir (x : UInt64) : UInt64 :=
  let y := (x ^^^ (x >>> 30)) * 0xbf58476d1ce4e5b9
  let z := (y ^^^ (y >>> 27)) * 0x94d049bb133111eb
  z ^^^ (z >>> 31)

/-- The next word. -/
def word (e : Entropy) : UInt64 × Entropy :=
  let counter := e.counter + 0x9e3779b97f4a7c15
  (stir counter, ⟨counter⟩)

/-- A number of 32 bits. -/
def tag (e : Entropy) : Nat × Entropy :=
  let (w, e) := e.word
  ((w >>> 32).toNat, e)

/-- An integer between two bounds, either of which may come. -/
def between (low high : Int) (e : Entropy) : Int × Entropy :=
  let (w, e) := e.word
  (low + (w.toNat : Int) % (high - low + 1), e)

/-- A number from zero on and below one. -/
def fraction (e : Entropy) : Float × Entropy :=
  let (w, e) := e.word
  ((Float.ofNat (w >>> 11).toNat) / 9007199254740992.0, e)

/-- A number from `low` on and below `high`. One that rounding takes up to `high` is drawn again, so
many times at most; the last resort is `low`. -/
def within (low high : Float) : Nat → Entropy → Float × Entropy
  | 0, e => (low, e)
  | times + 1, e =>
    let (part, e) := e.fraction
    let x := part * (high - low) + low
    if x < high then (x, e) else within low high times e

end Entropy

end Tabletop
