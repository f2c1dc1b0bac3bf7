import Tabletop.Scene.Object
import Tabletop.Keyed
import Tabletop.Names

/-! What changed between two snapshots of a scene. An object counts as updated when its
`lastModified` moved, whatever else did or did not. -/

namespace Tabletop

structure Update where
  previous : SceneObject
  current : SceneObject

namespace Update

/-- The tracked properties whose value differs, with the new value. -/
def changed (u : Update) : List (TrackedProperty × Value) :=
  TrackedProperty.all.filterMap fun p =>
    let now := u.current.property p
    if u.previous.property p == now then none else some (p, now)

end Update

/-- The ids that are gone are in order. -/
structure SnapshotDiff where
  created : List SceneObject
  updated : List Update
  deleted : List String

namespace SnapshotDiff

def isEmpty (d : SnapshotDiff) : Bool := d.created.isEmpty && d.updated.isEmpty && d.deleted.isEmpty

/-- The objects that are new or changed, as they are now. -/
def touched (d : SnapshotDiff) : List SceneObject := d.created ++ d.updated.map (·.current)

end SnapshotDiff

/-- The last snapshot, by id. -/
structure Differ where
  previous : List (String × SceneObject) := []

namespace Differ

/-- A snapshot by id. An id that repeats keeps its first place and its last object. -/
def byId (snapshot : List SceneObject) : List (String × SceneObject) :=
  snapshot.foldl (fun entries o => Keyed.put o.id o entries) []

/-- Compares a snapshot with the last one, and remembers it. -/
def update (snapshot : List SceneObject) (d : Differ) : SnapshotDiff × Differ :=
  let current := byId snapshot
  let created := current.filterMap fun e =>
    if Keyed.has e.1 d.previous then none else some e.2
  let updated := current.filterMap fun e =>
    match d.previous.lookup e.1 with
    | some o => if o.lastModified = e.2.lastModified then none else some ⟨o, e.2⟩
    | none => none
  let deleted := (Keyed.keys d.previous).filter fun id => !Keyed.has id current
  (⟨created, updated, Names.ofList deleted⟩, ⟨current⟩)

/-- The object of an id in the last snapshot. -/
def get? (d : Differ) (id : String) : Option SceneObject := d.previous.lookup id

end Differ

end Tabletop
