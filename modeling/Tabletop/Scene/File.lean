import Tabletop.Scene.Memory

/-! A scene as a file: its objects and its metadata. -/

namespace Tabletop

structure SceneFile where
  objects : List SceneObject := []
  metadata : List (String × Json) := []

namespace SceneFile

def shape : Json.Shape :=
  .record "struct SceneFile" [] [("objects", .list SceneObject.shape), ("metadata", .entries .any)]

def decode : Decoder SceneFile := fun d => do
  let f ← Decode.fields shape.declared d
  let objects ← f.get "objects" (Decode.list SceneObject.decode) []
  return ⟨objects, ← f.get "metadata" Decode.jsonObject []⟩

def format : Format SceneFile := { shape, decode }

/-- The scene of a file. -/
def scene (f : SceneFile) : Scene :=
  let empty : Scene := {}
  (empty.add f.objects).extendMetadata f.metadata

end SceneFile

end Tabletop
