import Tabletop.Json.Format

/-! Graphs of instruction blocks in their nested form: a forest in which a block holds the blocks in
its input slots and the block that follows it. -/

namespace Tabletop

/-- One instruction block. A slot that is absent is empty. -/
structure Block where
  id : String
  kind : String
  fields : List (String × Json)
  inputs : List (String × Block)
  next : Option Block

/-- A forest of blocks. -/
structure Graph where
  blocks : List Block

namespace Block

/-- A field as text. Numbers and truth values are written out; `null` counts as absent. -/
def fieldText? (name : String) (fields : List (String × Json)) : Option String :=
  match fields.lookup name with
  | none => none
  | some .null => none
  | some (.string s) => some s
  | some j => some j.text

mutual

/-- The number of blocks in a block, its slots and its successors. -/
def size : Block → Nat
  | ⟨_, _, _, inputs, next⟩ => 1 + sizeInputs inputs + sizeNext next

def sizeInputs : List (String × Block) → Nat
  | [] => 0
  | (_, b) :: rest => b.size + sizeInputs rest

def sizeNext : Option Block → Nat
  | none => 0
  | some b => b.size

end

mutual

/-- The ids of a block, of the blocks in its slots, and of its successors, in this order. -/
def ids : Block → List String
  | ⟨id, _, _, inputs, next⟩ => id :: (idsInputs inputs ++ idsNext next)

def idsInputs : List (String × Block) → List String
  | [] => []
  | (_, b) :: rest => b.ids ++ idsInputs rest

def idsNext : Option Block → List String
  | none => []
  | some b => b.ids

end

/-- Links blocks into one chain, each to the one after it. -/
def chain : List Block → Option Block
  | [] => none
  | b :: rest => some { b with next := chain rest }

/-- The ids of a block and of its successors. -/
def chainIds : Block → List String
  | ⟨id, _, _, _, next⟩ => id :: match next with
    | none => []
    | some b => b.chainIds

mutual

/-- A block as an object; empty fields, slots and successors are left out. -/
def encode : Block → Document
  | ⟨id, kind, fields, inputs, next⟩ => .object (
      [("id", .string id), ("type", .string kind)]
      ++ (if fields.isEmpty then [] else [("fields", .object (Document.ofMembers fields))])
      ++ (if inputs.isEmpty then [] else [("inputs", .object (encodeInputs inputs))])
      ++ encodeNext next)

def encodeInputs : List (String × Block) → List (String × Document)
  | [] => []
  | (slot, b) :: rest => (slot, b.encode) :: encodeInputs rest

def encodeNext : Option Block → List (String × Document)
  | none => []
  | some b => [("next", b.encode)]

end

def shape : Json.Shape := .record "struct BlockNode" [("id", .text), ("type", .text)]
  [("fields", .entries .any), ("inputs", .entries .same), ("next", .maybe .same)]

mutual

/-- A block from either written form of a structure. -/
def decode : Document → Option Block
  | .object members => do
    let f ← Decode.fields shape.declared (.object members)
    let id ← f.need "id" Decode.string
    let kind ← f.need "type" Decode.string
    let fields ← f.get "fields" (Decode.entries Decode.json) []
    return ⟨id, kind, fields, ← decodeInputsIn members, ← decodeNextIn members⟩
  | .array items => do
    let f ← Decode.fields shape.declared (.array items)
    let id ← f.need "id" Decode.string
    let kind ← f.need "type" Decode.string
    let fields ← f.get "fields" (Decode.entries Decode.json) []
    let inputs ← decodeInputsAt shape.declared items
    return ⟨id, kind, fields, inputs, ← decodeNextAt shape.declared items⟩
  | _ => none

/-- The slots, from the member that holds them. -/
def decodeInputsIn : List (String × Document) → Option (List (String × Block))
  | [] => some []
  | (k, d) :: rest => if k = "inputs" then decodeInputs d else decodeInputsIn rest

/-- The slots, from the item that stands at their place. -/
def decodeInputsAt : List String → List Document → Option (List (String × Block))
  | k :: ks, d :: ds => if k = "inputs" then decodeInputs d else decodeInputsAt ks ds
  | _, _ => some []

def decodeInputs : Document → Option (List (String × Block))
  | .object members => decodeSlots [] members
  | _ => none

/-- The slots in the order of their first appearance, each with its last block. -/
def decodeSlots (seen : List (String × Block)) :
    List (String × Document) → Option (List (String × Block))
  | [] => some seen
  | (slot, d) :: rest => do decodeSlots (Keyed.put slot (← decode d) seen) rest

def decodeNextIn : List (String × Document) → Option (Option Block)
  | [] => some none
  | (k, d) :: rest =>
    if k = "next" then match d with
      | .null => some none
      | d => do return some (← decode d)
    else decodeNextIn rest

def decodeNextAt : List String → List Document → Option (Option Block)
  | k :: ks, d :: ds =>
    if k = "next" then match d with
      | .null => some none
      | d => do return some (← decode d)
    else decodeNextAt ks ds
  | _, _ => some none

end

def format : Format Block := { shape, decode }

end Block

namespace Graph

/-- The number of blocks in the forest. -/
def size (g : Graph) : Nat := g.blocks.foldr (fun b n => b.size + n) 0

/-- The ids of all blocks, each top-level block before what lies below it. -/
def ids (g : Graph) : List String := g.blocks.flatMap Block.ids

def encode (g : Graph) : Document := .object [("blocks", .array (g.blocks.map Block.encode))]

def shape : Json.Shape := .record "struct BlockGraph" [] [("blocks", .list Block.shape)]

def decode : Decoder Graph := fun d => do
  let f ← Decode.fields shape.declared d
  return ⟨← f.get "blocks" (Decode.list Block.decode) []⟩

def format : Format Graph := { shape, decode }

/-- The nested form as text. -/
def text (g : Graph) : String := g.encode.compact

end Graph

end Tabletop
