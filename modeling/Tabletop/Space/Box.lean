import Tabletop.Scene.Object
import Tabletop.Double.Angle
import Tabletop.Double.Order

/-! Boxes with sides along the axes, over any kind of coordinate. -/

namespace Tabletop.Space

/-- What boxes need of their coordinates. -/
class Coordinate (α : Type) where
  lt : α → α → Bool
  le : α → α → Bool
  same : α → α → Bool
  least : α → α → α
  greatest : α → α → α

open Coordinate

structure Point (α : Type) where
  x : α
  y : α
  deriving Inhabited

/-- The points from `lo` to `hi`; nothing asks that `lo` be the smaller. -/
structure Box (α : Type) where
  lo : Point α
  hi : Point α
  deriving Inhabited

namespace Box

variable {α : Type} [Coordinate α]

/-- Boxes that only share an edge do not overlap. -/
def overlaps (a b : Box α) : Bool :=
  lt a.lo.x b.hi.x && lt b.lo.x a.hi.x && lt a.lo.y b.hi.y && lt b.lo.y a.hi.y

def contains (a b : Box α) : Bool :=
  le a.lo.x b.lo.x && le a.lo.y b.lo.y && le b.hi.x a.hi.x && le b.hi.y a.hi.y

/-- The least box that contains both. -/
def union (a b : Box α) : Box α :=
  ⟨⟨least a.lo.x b.lo.x, least a.lo.y b.lo.y⟩, ⟨greatest a.hi.x b.hi.x, greatest a.hi.y b.hi.y⟩⟩

def same (a b : Box α) : Bool :=
  Coordinate.same a.lo.x b.lo.x && Coordinate.same a.lo.y b.lo.y &&
    Coordinate.same a.hi.x b.hi.x && Coordinate.same a.hi.y b.hi.y

end Box

instance : Coordinate Float where
  lt a b := a < b
  le a b := a ≤ b
  same a b := a == b
  least := Double.least
  greatest := Double.greatest

namespace Box

def ofCenter (center : Vec) (halfWidth halfHeight : Float) : Box Float :=
  ⟨⟨center.x - halfWidth, center.y - halfHeight⟩, ⟨center.x + halfWidth, center.y + halfHeight⟩⟩

/-- The box around the scaled footprint of an object, turned about its position. -/
def ofObject (o : SceneObject) : Box Float :=
  let width := (o.size.x * o.scale.x).abs
  let height := (o.size.y * o.scale.y).abs
  let angle := Double.radians o.rotation
  let sin := angle.sin.abs
  let cos := angle.cos.abs
  ofCenter o.position ((cos * width + sin * height) / 2.0) ((sin * width + cos * height) / 2.0)

def perimeter (b : Box Float) : Float := 2.0 * ((b.hi.x - b.lo.x) + (b.hi.y - b.lo.y))

end Box

end Tabletop.Space
