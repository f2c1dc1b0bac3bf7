import Tabletop.Value

/-! Objects of a scene and the properties of theirs that scripts can watch. -/

namespace Tabletop

structure Vec where
  x : Float
  y : Float
  deriving BEq

namespace Vec

def distance (a b : Vec) : Float :=
  let dx := a.x - b.x
  let dy := a.y - b.y
  (dx * dx + dy * dy).sqrt

/-- The coordinates between parentheses. -/
def shown (v : Vec) : String := s!"({plainText v.x}, {plainText v.y})"
where
  plainText (x : Float) : String :=
    if x.isInf then (if x < 0.0 then "-inf" else "inf") else Value.numberText x

def encode (v : Vec) : Document := .object [("x", .ofFloat v.x), ("y", .ofFloat v.y)]

def shape : Json.Shape := .record "struct Vector2" [("x", .float), ("y", .float)] []

def decode : Decoder Vec := fun d => do
  let f ← Decode.fields shape.declared d
  return ⟨← f.need "x" Decode.float, ← f.need "y" Decode.float⟩

end Vec

inductive ObjectKind where
  | image | shape | text | label
  deriving DecidableEq, Repr

namespace ObjectKind

def names : List (String × ObjectKind) :=
  [("IMAGE", image), ("SHAPE", shape), ("TEXT", text), ("LABEL", label)]

def shown : ObjectKind → String
  | image => "IMAGE"
  | shape => "SHAPE"
  | text => "TEXT"
  | label => "LABEL"

end ObjectKind

/-- A movable object. The host raises `lastModified` with every write; `size` is the footprint
before scaling. -/
structure SceneObject where
  id : String
  name : String := ""
  kind : ObjectKind := .image
  layer : String := "CHARACTER"
  position : Vec := ⟨0.0, 0.0⟩
  rotation : Float := 0.0
  scale : Vec := ⟨1.0, 1.0⟩
  size : Vec := ⟨150.0, 150.0⟩
  visible : Bool := true
  locked : Bool := false
  text : String := ""
  attachedTo : Option String := none
  zIndex : Float := 0.0
  lastModified : Nat := 0
  metadata : List (String × Json) := []

/-- The properties whose changes can start scripts. -/
inductive TrackedProperty where
  | x | y | rotation | visible | locked | layer | text | name | scale | attachedTo
  deriving DecidableEq, Repr

namespace TrackedProperty

def all : List TrackedProperty :=
  [x, y, rotation, visible, locked, layer, text, name, scale, attachedTo]

def shown : TrackedProperty → String
  | x => "x"
  | y => "y"
  | rotation => "rotation"
  | visible => "visible"
  | locked => "locked"
  | layer => "layer"
  | text => "text"
  | name => "name"
  | scale => "scale"
  | attachedTo => "attachedTo"

/-- The name in capitals that graphs may use instead. -/
def capitals : TrackedProperty → String
  | x => "X"
  | y => "Y"
  | rotation => "ROTATION"
  | visible => "VISIBLE"
  | locked => "LOCKED"
  | layer => "LAYER"
  | text => "TEXT"
  | name => "NAME"
  | scale => "SCALE"
  | attachedTo => "ATTACHED_TO"

/-- The property of either name. -/
def ofName? (s : String) : Option TrackedProperty :=
  all.find? fun p => p.shown == s || p.capitals == s

/-- An authored literal as a value of the kind that the property has. -/
def literal? (p : TrackedProperty) (s : String) : Option Value :=
  match p with
  | x | y | rotation | scale =>
    match Decimal.read? (Text.trim s) with
    | some n => if n.isFinite then some (.number n) else none
    | none => none
  | visible | locked =>
    match (Text.trim s).map Char.toLower with
    | "true" => some (.bool true)
    | "false" => some (.bool false)
    | _ => none
  | attachedTo => if s = "" then some .nothing else some (.text s)
  | layer | text | name => some (.text s)

end TrackedProperty

namespace SceneObject

/-- The layers whose objects collide. -/
def collidableLayers : List String := ["CHARACTER", "MOUNT", "PROP", "ATTACHMENT"]

def isCollidable (o : SceneObject) : Bool :=
  (o.kind == .image || o.kind == .shape) && collidableLayers.contains o.layer

/-- The strings of a list stored as metadata. -/
def stringsOf : Json → List String
  | .array items => items.filterMap fun j => match j with
    | .string s => some s
    | _ => none
  | _ => []

/-- The tags, which are stored in the metadata. -/
def tags (o : SceneObject) : List String :=
  match o.metadata.lookup "tags" with
  | some j => stringsOf j
  | none => []

def hasTag (o : SceneObject) (tag : String) : Bool := o.tags.contains tag

/-- Stores a value in the metadata. -/
def withMetadata (o : SceneObject) (key : String) (j : Json) : SceneObject :=
  { o with metadata := Json.insertMember key j o.metadata }

def withoutMetadata (o : SceneObject) (key : String) : SceneObject :=
  { o with metadata := Json.eraseMember key o.metadata }

def withTags (o : SceneObject) (tags : List String) : SceneObject :=
  o.withMetadata "tags" (.array (tags.map .string))

/-- The size in percent, which is the same as the tracked scale. -/
def percent (o : SceneObject) : Float := o.scale.x * 100.0

def property (o : SceneObject) : TrackedProperty → Value
  | .x => .number o.position.x
  | .y => .number o.position.y
  | .rotation => .number o.rotation
  | .visible => .bool o.visible
  | .locked => .bool o.locked
  | .layer => .text o.layer
  | .text => .text o.text
  | .name => .text o.name
  | .scale => .number o.percent
  | .attachedTo => match o.attachedTo with
    | some id => .text id
    | none => .nothing

def encode (o : SceneObject) : Document := .object (
  [("id", .string o.id), ("name", .string o.name), ("kind", .string o.kind.shown),
    ("layer", .string o.layer), ("position", o.position.encode),
    ("rotation", .ofFloat o.rotation), ("scale", o.scale.encode), ("size", o.size.encode),
    ("visible", .bool o.visible), ("locked", .bool o.locked), ("text", .string o.text)]
  ++ (match o.attachedTo with
    | some id => [("attachedTo", .string id)]
    | none => [])
  ++ [("zIndex", .ofFloat o.zIndex), ("lastModified", .ofNat o.lastModified),
    ("metadata", .object (Document.ofMembers o.metadata))])

def shape : Json.Shape := .record "struct SceneObject" [("id", .text)]
  [("name", .text), ("kind", .name (ObjectKind.names.map (·.1))), ("layer", .text),
    ("position", Vec.shape), ("rotation", .float), ("scale", Vec.shape), ("size", Vec.shape),
    ("visible", .truth), ("locked", .truth), ("text", .text), ("attachedTo", .maybe .text),
    ("zIndex", .float), ("lastModified", .count), ("metadata", .entries .any)]

def decode : Decoder SceneObject := fun d => do
  let f ← Decode.fields shape.declared d
  let plain : SceneObject := { id := ← f.need "id" Decode.string }
  return {
    id := plain.id
    name := ← f.get "name" Decode.string plain.name
    kind := ← f.get "kind" (Decode.name ObjectKind.names) plain.kind
    layer := ← f.get "layer" Decode.string plain.layer
    position := ← f.get "position" Vec.decode plain.position
    rotation := ← f.get "rotation" Decode.float plain.rotation
    scale := ← f.get "scale" Vec.decode plain.scale
    size := ← f.get "size" Vec.decode plain.size
    visible := ← f.get "visible" Decode.bool plain.visible
    locked := ← f.get "locked" Decode.bool plain.locked
    text := ← f.get "text" Decode.string plain.text
    attachedTo := ← f.get "attachedTo" (Decode.optional Decode.string) plain.attachedTo
    zIndex := ← f.get "zIndex" Decode.float plain.zIndex
    lastModified := ← f.get "lastModified" Decode.count plain.lastModified
    metadata := ← f.get "metadata" Decode.jsonObject plain.metadata }

def format : Format SceneObject := { shape, decode }

/-- The stored behavior, if there is one under the key. -/
def stored? (o : SceneObject) (key : String) : Option Json := o.metadata.lookup key

end SceneObject

end Tabletop
