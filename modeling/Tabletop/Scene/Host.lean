import Tabletop.Scene.Object

/-! What a host can refuse, and how reads from it are narrowed. -/

namespace Tabletop

inductive HostError where
  | notFound (id : String)
  | rejected (why : String)
  | unavailable
  deriving DecidableEq, Repr

def HostError.message : HostError → String
  | notFound id => s!"object not found: {id}"
  | rejected why => s!"host rejected the request: {why}"
  | unavailable => "host is unavailable"

/-- Which objects a read is about. -/
inductive ObjectFilter where
  | ids (wanted : List String)
  | attachedTo (parent : String)
  | layer (name : String)
  deriving DecidableEq, Repr

def ObjectFilter.accepts : ObjectFilter → SceneObject → Bool
  | .ids wanted, o => wanted.contains o.id
  | .attachedTo parent, o => o.attachedTo == some parent
  | .layer name, o => o.layer == name

/-- A change of one object. -/
abbrev Edit := SceneObject → SceneObject

/-- A write of several objects at once: their ids, and what is done to each. -/
structure Batch where
  ids : List String
  edit : Edit

end Tabletop
