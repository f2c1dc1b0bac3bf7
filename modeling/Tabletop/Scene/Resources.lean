import Tabletop.Value

/-! What a scene offers all of its scripts: tags, messages, sounds and shared variables. -/

namespace Tabletop

structure Sound where
  name : String
  url : String

structure SharedVariable where
  id : String
  name : String
  initial : Json

structure Resources where
  tags : List String := []
  messages : List String := []
  sounds : List Sound := []
  shared : List SharedVariable := []

def Sound.encode (s : Sound) : Document :=
  .object [("name", .string s.name), ("url", .string s.url)]

def Sound.shape : Json.Shape :=
  .record "struct SoundDefinition" [("name", .text), ("url", .text)] []

def Sound.decode : Decoder Sound := fun d => do
  let f ← Decode.fields shape.declared d
  return ⟨← f.need "name" Decode.string, ← f.need "url" Decode.string⟩

namespace SharedVariable

def encode (v : SharedVariable) : Document :=
  .object [("id", .string v.id), ("name", .string v.name), ("initial", .ofJson v.initial)]

def shape : Json.Shape :=
  .record "struct VariableDeclaration" [("id", .text), ("name", .text)] [("initial", .any)]

def decode : Decoder SharedVariable := fun d => do
  let f ← Decode.fields shape.declared d
  let id ← f.need "id" Decode.string
  return ⟨id, ← f.need "name" Decode.string, ← f.get "initial" Decode.json .null⟩

end SharedVariable

namespace Resources

def encode (r : Resources) : Document := .object
  [("tags", .ofStrings r.tags), ("messages", .ofStrings r.messages),
    ("sounds", .array (r.sounds.map Sound.encode)),
    ("variables", .array (r.shared.map SharedVariable.encode))]

def shape : Json.Shape := .record "struct SceneResources" []
  [("tags", .list .text), ("messages", .list .text), ("sounds", .list Sound.shape),
    ("variables", .list SharedVariable.shape)]

def decode : Decoder Resources := fun d => do
  let f ← Decode.fields shape.declared d
  let tags ← f.get "tags" (Decode.list Decode.string) []
  let messages ← f.get "messages" (Decode.list Decode.string) []
  let sounds ← f.get "sounds" (Decode.list Sound.decode) []
  return ⟨tags, messages, sounds, ← f.get "variables" (Decode.list SharedVariable.decode) []⟩

def format : Format Resources := { shape, decode }

/-- The resources stored under a key of the scene's metadata; none where they cannot be read. -/
def ofMetadata (metadata : List (String × Json)) (key : String) : Resources :=
  match metadata.lookup key with
  | none => {}
  | some j => (decode (.ofJson j)).getD {}

/-- The first sound of a name. -/
def sound? (r : Resources) (name : String) : Option Sound := r.sounds.find? (·.name == name)

/-- The ids of the shared variables. -/
def globals (r : Resources) : List String := r.shared.map (·.id)

end Resources

end Tabletop
