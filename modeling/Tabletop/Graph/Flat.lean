import Tabletop.Graph.Block

/-! Graphs in their flat form: one record for each block, which names the block it hangs from.
Records are written each before what hangs from it, so the nested form comes back with every order
kept. -/

namespace Tabletop

/-- Where a block hangs: after another one, or in a slot of it. -/
inductive ParentLink where
  | next (parent : String)
  | input (parent slot : String)
  deriving DecidableEq, Repr

/-- The block that is hung from. -/
def ParentLink.parent : ParentLink → String
  | .next parent => parent
  | .input parent _ => parent

/-- The name by which a link is told to be taken. -/
def ParentLink.slotName : ParentLink → String
  | .next _ => "next"
  | .input _ slot => slot

/-- One record. Top-level blocks have no link. -/
structure FlatNode where
  id : String
  kind : String
  fields : List (String × Json)
  link : Option ParentLink

structure FlatGraph where
  nodes : List FlatNode

/-- Why a graph cannot be read. -/
inductive GraphError where
  | malformed
  | duplicateId (id : String)
  | unknownParent (child parent : String)
  | slotConflict (parent slot first second : String)
  | unreachable (id : String)

def GraphError.message : GraphError → String
  | malformed => "malformed graph json"
  | duplicateId id => s!"duplicate block id `{id}`"
  | unknownParent child parent => s!"block `{child}` points at unknown parent `{parent}`"
  | slotConflict parent slot first second =>
    s!"slot `{slot}` of block `{parent}` is claimed by both `{first}` and `{second}`"
  | unreachable id => s!"block `{id}` is not reachable from any top-level block"

namespace Block

mutual

/-- The records of a block that hangs at `link`, of what its slots hold, and of its successors. -/
def flatten (link : Option ParentLink) : Block → List FlatNode
  | ⟨id, kind, fields, inputs, next⟩ =>
    ⟨id, kind, fields, link⟩ :: (flattenInputs id inputs ++ flattenNext id next)

def flattenInputs (parent : String) : List (String × Block) → List FlatNode
  | [] => []
  | (slot, b) :: rest => flatten (some (.input parent slot)) b ++ flattenInputs parent rest

def flattenNext (parent : String) : Option Block → List FlatNode
  | none => []
  | some b => flatten (some (.next parent)) b

end

end Block

namespace FlatGraph

/-- The flat form of a graph. -/
def ofGraph (g : Graph) : FlatGraph := ⟨g.blocks.flatMap (Block.flatten none)⟩

/-- The first id that stands in `seen` or twice. -/
def repeatedId? (seen : List String) : List FlatNode → Option String
  | [] => none
  | n :: rest => if seen.contains n.id then some n.id else repeatedId? (n.id :: seen) rest

/-- What is wrong with the first link that is wrong: its parent is not among the `ids`, or a record
before it, of those in `earlier`, has the same place. -/
def badLink? (ids : List String) (earlier : List FlatNode) : List FlatNode → Option GraphError
  | [] => none
  | n :: rest =>
    match n.link with
    | none => badLink? ids (earlier ++ [n]) rest
    | some link =>
      if !ids.contains link.parent then some (.unknownParent n.id link.parent)
      else match earlier.find? (·.link == some link) with
        | some first => some (.slotConflict link.parent link.slotName first.id n.id)
        | none => badLink? ids (earlier ++ [n]) rest

/-- The record that follows a block. -/
def successor? (nodes : List FlatNode) (id : String) : Option FlatNode :=
  nodes.find? (·.link == some (.next id))

/-- The records in the slots of a block, by slot. -/
def slotsOf (nodes : List FlatNode) (id : String) : List (String × FlatNode) :=
  nodes.filterMap fun n => match n.link with
    | some (.input parent slot) => if parent = id then some (slot, n) else none
    | _ => none

/-- The block of a record with all that hangs from it, down to a depth. -/
def build (nodes : List FlatNode) : Nat → FlatNode → Block
  | 0, n => ⟨n.id, n.kind, n.fields, [], none⟩
  | depth + 1, n =>
    { id := n.id
      kind := n.kind
      fields := n.fields
      inputs := (slotsOf nodes n.id).map fun s => (s.1, build nodes depth s.2)
      next := (successor? nodes n.id).map (build nodes depth) }

/-- The top-level blocks with all that hangs from them. No block hangs deeper than there are
records. -/
def forest (nodes : List FlatNode) : Graph :=
  ⟨(nodes.filter (·.link.isNone)).map (build nodes nodes.length)⟩

/-- The nested form. Ids are looked at first, then the links in their order, then whether every
record hangs below a top-level one. -/
def toGraph (f : FlatGraph) : Except GraphError Graph :=
  match repeatedId? [] f.nodes with
  | some id => .error (.duplicateId id)
  | none =>
    match badLink? (f.nodes.map (·.id)) [] f.nodes with
    | some e => .error e
    | none =>
      let g := forest f.nodes
      let reached := g.ids
      match f.nodes.find? fun n => !reached.contains n.id with
      | some n => .error (.unreachable n.id)
      | none => .ok g

end FlatGraph

namespace ParentLink

def encode : ParentLink → Document
  | next parent => .string parent
  | input parent slot => .ofStrings [parent, slot]

/-- An id alone, or an id and a slot in a list. -/
def decode : Decoder ParentLink
  | .string parent => some (next parent)
  | .array [.string parent, .string slot] => some (input parent slot)
  | _ => none

end ParentLink

namespace FlatNode

/-- A record as an object; empty fields and an absent link are left out. -/
def encode (n : FlatNode) : Document := .object (
  [("id", .string n.id), ("type", .string n.kind)]
  ++ (if n.fields.isEmpty then [] else [("fields", .object (Document.ofMembers n.fields))])
  ++ (match n.link with
    | none => []
    | some link => [("p", link.encode)]))

def shape : Json.Shape := .record "struct FlatNode" [("id", .text), ("type", .text)]
  [("fields", .entries .any), ("p", .maybe .any)]

def decode : Decoder FlatNode := fun d => do
  let f ← Decode.fields shape.declared d
  let id ← f.need "id" Decode.string
  let kind ← f.need "type" Decode.string
  let fields ← f.get "fields" (Decode.entries Decode.json) []
  return ⟨id, kind, fields, ← f.get "p" (Decode.optional ParentLink.decode) none⟩

end FlatNode

namespace FlatGraph

def encode (f : FlatGraph) : Document := .object [("nodes", .array (f.nodes.map FlatNode.encode))]

def shape : Json.Shape := .record "struct FlatGraph" [("nodes", .list FlatNode.shape)] []

def decode : Decoder FlatGraph := fun d => do
  let f ← Decode.fields shape.declared d
  return ⟨← f.need "nodes" (Decode.list FlatNode.decode)⟩

def format : Format FlatGraph := { shape, decode }

/-- The flat form as text. -/
def text (f : FlatGraph) : String := f.encode.compact

end FlatGraph

end Tabletop
