import Tabletop.Space.Tree
import Tabletop.Names
import Tabletop.Snapshot

/-! Which objects overlap, kept up to date from what changes. Only objects that changed are looked
up; the tree holds all of them before the first look-up. -/

namespace Tabletop

namespace Space

/-- What one batch of changes says of the boxes: the ids that are gone, in order, and the objects
that are new or changed, each with its box if it takes part. -/
structure Movement (α : Type) where
  gone : List String
  touched : List (String × Option (Box α))

/-- Two ids, the smaller first. -/
structure Pair where
  a : String
  b : String
  deriving DecidableEq, Repr

def Pair.of (x y : String) : Pair := if y < x then ⟨y, x⟩ else ⟨x, y⟩

def Pair.involves (p : Pair) (id : String) : Bool := p.a == id || p.b == id

/-- The pairs that began and that ended to overlap, in the order they were found. -/
structure OverlapChange where
  started : List Pair := []
  finished : List Pair := []

/-- The tree of all boxes, and the overlaps, each from both of its sides. -/
structure Overlaps (α : Type) where
  tree : Tree α := {}
  links : List (String × String) := []

namespace Overlaps

variable {α : Type}

def touching (s : Overlaps α) (a b : String) : Bool := s.links.contains (a, b)

/-- The ids that overlap one. -/
def neighbours (s : Overlaps α) (id : String) : List String :=
  Names.ofList (s.links.filterMap fun l => if l.1 = id then some l.2 else none)

/-- Whether each overlap is there from both of its sides. -/
def isSymmetric (s : Overlaps α) : Bool := s.links.all fun l => s.links.contains (l.2, l.1)

def tracks [Inhabited α] (s : Overlaps α) (id : String) : Bool := s.tree.contains id

/-- Adds an overlap that is not there yet. -/
def link (a b : String) (s : Overlaps α) (c : OverlapChange) : Overlaps α × OverlapChange :=
  if s.touching a b then (s, c)
  else ({ s with links := (a, b) :: (b, a) :: s.links },
    { c with started := c.started ++ [.of a b] })

/-- Ends an overlap. -/
def unlink (a b : String) (s : Overlaps α) (c : OverlapChange) : Overlaps α × OverlapChange :=
  ({ s with links := s.links.filter fun l => l != (a, b) && l != (b, a) },
    { c with finished := c.finished ++ [.of a b] })

variable [Inhabited α] [Coordinate α]

/-- Takes an id out of the tree and ends all of its overlaps. -/
def forget (id : String) (s : Overlaps α) (c : OverlapChange) : Overlaps α × OverlapChange :=
  let others := s.neighbours id
  ({ tree := s.tree.remove id
     links := s.links.filter fun l => l.1 != id && l.2 != id },
    { c with finished := c.finished ++ others.map (Pair.of id) })

/-- Brings the overlaps of one object up to date. -/
def relink (id : String) (box : Box α) (s : Overlaps α) (c : OverlapChange) :
    Overlaps α × OverlapChange :=
  let now := Names.ofList ((s.tree.query box).filter (· != id))
  let ended := Names.minus (s.neighbours id) now
  let linked := now.foldl (fun p other => link id other p.1 p.2) (s, c)
  ended.foldl (fun p other => unlink id other p.1 p.2) linked

/-- Places a changed object in the tree, or forgets it where it takes no part. -/
def place (choose : Chooser α) (s : Overlaps α) (c : OverlapChange) :
    String × Option (Box α) → Overlaps α × OverlapChange
  | (id, some box) => ({ s with tree := s.tree.insert choose id box }, c)
  | (id, none) => forget id s c

/-- Takes in a batch of changes. -/
def update (choose : Chooser α) (m : Movement α) (s : Overlaps α) : Overlaps α × OverlapChange :=
  let afterGone := m.gone.foldl (fun p id => forget id p.1 p.2) (s, {})
  let placed := m.touched.foldl (fun p o => place choose p.1 p.2 o) afterGone
  m.touched.foldl (fun p o => match o.2 with
    | some box => relink o.1 box p.1 p.2
    | none => p) placed

end Overlaps

end Space

namespace SnapshotDiff

/-- The boxes that changed, with a box for each object. Only objects that can collide take part. -/
def movementBy {α : Type} (boxOf : SceneObject → Space.Box α) (d : SnapshotDiff) :
    Space.Movement α where
  gone := d.deleted
  touched := d.touched.map fun o => (o.id, if o.isCollidable then some (boxOf o) else none)

def movement (d : SnapshotDiff) : Space.Movement Float := d.movementBy .ofObject

end SnapshotDiff

end Tabletop
