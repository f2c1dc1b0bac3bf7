import Tabletop.Space.Box
import Tabletop.Keyed

/-! A tree of boxes. A leaf holds one id with its box, and a fork the box around its two children,
so a search leaves out every part whose box misses the one searched for. The nodes lie in one array
with links between them; slots that fall free are used again. -/

namespace Tabletop.Space

structure Node (α : Type) where
  box : Box α
  parent : Option Nat
  children : Option (Nat × Nat)
  height : Nat
  key : Option String
  deriving Inhabited

structure Tree (α : Type) where
  nodes : Array (Node α) := #[]
  free : List Nat := []
  root : Option Nat := none
  leaves : List (String × Nat) := []

/-- Where the search for a new leaf's place goes on. -/
inductive Descent where
  | here | left | right
  deriving DecidableEq, Repr

/-- What decides, at a fork of a tree, where a new box goes. -/
abbrev Chooser (α : Type) := Tree α → Nat → Box α → Descent

namespace Tree

variable {α : Type} [Inhabited α]

def node (t : Tree α) (i : Nat) : Node α := t.nodes.getD i default

def modifyNode (t : Tree α) (i : Nat) (f : Node α → Node α) : Tree α :=
  { t with nodes := t.nodes.modify i f }

def size (t : Tree α) : Nat := t.leaves.length

def isEmpty (t : Tree α) : Bool := t.leaves.isEmpty

def contains (t : Tree α) (id : String) : Bool := Keyed.has id t.leaves

/-- The box of an id. -/
def get? (t : Tree α) (id : String) : Option (Box α) :=
  (t.leaves.lookup id).map fun i => (t.node i).box

def height (t : Tree α) : Nat :=
  match t.root with
  | none => 0
  | some i => (t.node i).height

/-- Puts a node into a free slot or a new one, and gives its index. -/
def allocate (t : Tree α) (n : Node α) : Nat × Tree α :=
  match t.free with
  | i :: free => (i, { t with nodes := t.nodes.modify i fun _ => n, free })
  | [] => (t.nodes.size, { t with nodes := t.nodes.push n })

/-- Frees the slot of a node. -/
def release (t : Tree α) (i : Nat) : Tree α :=
  let t := t.modifyNode i fun n => { n with key := none, parent := none, children := none }
  { t with free := i :: t.free }

/-- Puts one child of a fork in the place of another; without a fork, the new one becomes the
root. -/
def replaceChild (t : Tree α) (fork : Option Nat) (old new : Nat) : Tree α :=
  match fork with
  | none => { t with root := some new }
  | some i => t.modifyNode i fun n =>
    { n with children := n.children.map fun c => if c.1 = old then (new, c.2) else (c.1, new) }

variable [Coordinate α]

/-- Makes boxes and heights right from a fork up to the root. -/
def refit : Nat → Option Nat → Tree α → Tree α
  | fuel + 1, some i, t =>
    match (t.node i).children with
    | none => t
    | some (l, r) =>
      let box := (t.node l).box.union (t.node r).box
      let height := 1 + max (t.node l).height (t.node r).height
      refit fuel (t.node i).parent (t.modifyNode i fun n => { n with box, height })
  | _, _, t => t

/-- The node beside which a box goes. -/
def descend (choose : Chooser α) (t : Tree α) (box : Box α) : Nat → Nat → Nat
  | 0, i => i
  | fuel + 1, i =>
    match (t.node i).children with
    | none => i
    | some (l, r) =>
      match choose t i box with
      | .here => i
      | .left => descend choose t box fuel l
      | .right => descend choose t box fuel r

/-- Hangs a leaf into the tree, beside the node chosen for it and under a new fork. -/
def insertLeaf (choose : Chooser α) (leaf : Nat) (t : Tree α) : Tree α :=
  match t.root with
  | none => { t.modifyNode leaf fun n => { n with parent := none } with root := some leaf }
  | some root =>
    let box := (t.node leaf).box
    let sibling := descend choose t box t.nodes.size root
    let above := (t.node sibling).parent
    let (fork, t) := t.allocate
      { box := (t.node sibling).box.union box
        parent := above
        children := some (sibling, leaf)
        height := (t.node sibling).height + 1
        key := none }
    let t := t.replaceChild above sibling fork
    let t := t.modifyNode sibling fun n => { n with parent := some fork }
    let t := t.modifyNode leaf fun n => { n with parent := some fork }
    refit t.nodes.size above t

/-- Takes a leaf out of the tree; its slot stays in use. The fork above it gives way to the leaf's
sibling. -/
def removeLeaf (leaf : Nat) (t : Tree α) : Tree α :=
  if t.root = some leaf then { t with root := none }
  else match (t.node leaf).parent with
    | none => t
    | some fork =>
      let above := (t.node fork).parent
      match (t.node fork).children with
      | none => t
      | some (l, r) =>
        let sibling := if l = leaf then r else l
        let t := t.replaceChild above fork sibling
        let t := t.modifyNode sibling fun n => { n with parent := above }
        let t := t.release fork
        let t := t.modifyNode leaf fun n => { n with parent := none }
        refit t.nodes.size above t

/-- Stores an id with its box, in place of any box it had. -/
def insert (choose : Chooser α) (id : String) (box : Box α) (t : Tree α) : Tree α :=
  match t.leaves.lookup id with
  | some leaf =>
    if (t.node leaf).box.same box then t
    else
      let t := t.removeLeaf leaf
      let t := t.modifyNode leaf fun n => { n with box }
      t.insertLeaf choose leaf
  | none =>
    let (leaf, t) := t.allocate
      { box, parent := none, children := none, height := 0, key := some id }
    insertLeaf choose leaf { t with leaves := (id, leaf) :: t.leaves }

/-- Takes an id out. -/
def remove (id : String) (t : Tree α) : Tree α :=
  match t.leaves.lookup id with
  | none => t
  | some leaf =>
    ({ t with leaves := Keyed.erase id t.leaves }.removeLeaf leaf).release leaf

/-- The ids below a node whose boxes overlap a box. -/
def collect (t : Tree α) (box : Box α) : Nat → Nat → List String
  | 0, _ => []
  | fuel + 1, i =>
    let n := t.node i
    if n.box.overlaps box then
      match n.children with
      | none => n.key.toList
      | some (l, r) => collect t box fuel l ++ collect t box fuel r
    else []

/-- The ids whose boxes overlap a box. -/
def query (t : Tree α) (box : Box α) : List String :=
  match t.root with
  | none => []
  | some root => collect t box t.nodes.size root

end Tree

/-- What it costs to push a box down into a node. -/
def descendCost (n : Node Float) (box : Box Float) : Float :=
  let joined := (n.box.union box).perimeter
  if n.children.isNone then joined else joined - n.box.perimeter

/-- A new box goes where it lengthens the boxes around it the least. -/
def leastGrowth : Chooser Float := fun t i box =>
  match (t.node i).children with
  | none => .here
  | some (l, r) =>
    let area := (t.node i).box.perimeter
    let combined := ((t.node i).box.union box).perimeter
    let cost := 2.0 * combined
    let inherited := 2.0 * (combined - area)
    let left := descendCost (t.node l) box + inherited
    let right := descendCost (t.node r) box + inherited
    if cost < left && cost < right then .here
    else if left < right then .left
    else .right

end Tabletop.Space
