import Tabletop.Session.Basic

/-! What events of the scene do to a session: a new snapshot, a new selection, a broadcast, a
signal. -/

namespace Tabletop

/-- What one snapshot did. -/
structure ChangeReport where
  created : Nat := 0
  updated : Nat := 0
  deleted : Nat := 0
  /-- The objects with a newly installed behavior. -/
  installed : List String := []
  /-- The objects with a new behavior that could not be read or compiled. -/
  failed : List String := []
  collisionsStarted : Nat := 0
  collisionsFinished : Nat := 0
  /-- The executions started by properties and collisions. -/
  dispatched : Nat := 0

/-- What became of the stored behavior of an object. -/
inductive Uptake where
  | unchanged
  | installed
  | failed
  deriving DecidableEq, Repr

/-- What the scene tells a session. -/
inductive SceneEvent where
  | objects (snapshot : List SceneObject)
  | selection (ids : List String)
  | broadcast (name : String) (targets : Option (List String))
  | signal (name : String) (targets : Option (List String)) (payload : List (String × Value))

namespace Session

/-- Takes over the resources of the scene, and declares their variables. -/
def setResources (r : Resources) (s : Session) : Session :=
  { s with
    memory := r.shared.foldl (fun m v => m.declare v.id (.ofJson v.initial)) s.memory
    globals := Names.ofList r.globals
    resources := r }

/-- Reads the resources from the metadata of the scene. -/
def loadResources (s : Session) : Resources × Session :=
  let r := Resources.ofMetadata s.scene.metadata s.config.resourcesKey
  (r, s.setResources r)

/-- Whether an object is marked as a fresh clone. -/
def isFreshClone (s : Session) (o : SceneObject) : Bool :=
  match o.stored? s.config.cloneFlagKey with
  | some (.bool true) => true
  | _ => false

/-- Compiles a graph and installs it on an object, which gives the number of executions started. The
mark of a fresh clone is taken off with the next flush. -/
def install (o : SceneObject) (g : Graph) (version : Nat) (except : Option String) (s : Session) :
    Except CompileError Nat × Session :=
  let (compiled, cache) := s.cache.getOrCompile Digest.sha256 s.globals g
  let fresh := s.isFreshClone o
  let (count, s) :=
    dispatch (Registry.reinstall o.id version except fresh compiled) { s with cache }
  match compiled with
  | .error e => (.error e, s)
  | .ok _ =>
    let key := s.config.cloneFlagKey
    (.ok count, if fresh then (s.write (.id o.id) (·.withoutMetadata key)).2 else s)

/-- Stops the scripts of an object and drops them. -/
def uninstall (object : String) (s : Session) : Session :=
  (s.dispatch (Registry.stop object none)).2

/-- A stored record, as a version and a graph. -/
def readRecord (j : Json) : Except GraphError (Nat × Graph) := do
  let record ← BehaviorRecord.ofJson j
  return (record.version, ← record.graph.toGraph)

/-- Takes up a changed object: installs its stored behavior if that is new, or drops the installed
one if the record is gone. A record that fails leaves the object without scripts, and is not tried
again until it changes. -/
def takeUp (o : SceneObject) (s : Session) : Uptake × Session :=
  match o.stored? s.config.behaviorKey with
  | none =>
    if Keyed.has o.id s.handled then
      (.unchanged, { s with handled := Keyed.erase o.id s.handled }.uninstall o.id)
    else (.unchanged, s)
  | some raw =>
    let stamp := RecordStamp.ofJson raw
    let seen := match s.handled.lookup o.id with
      | some last => !stamp.supersedes last
      | none => false
    if seen then (.unchanged, s)
    else
      let s := { s with handled := Keyed.put o.id stamp s.handled }
      match readRecord raw with
      | .error _ => (.failed, s.uninstall o.id)
      | .ok (version, g) =>
        match s.install o g version none with
        | (.ok _, s) => (.installed, s)
        | (.error e, s) =>
          let note := s!"Behavior on {o.id} failed to compile: {e.message}"
          (.failed, { s with scene := s.scene.notify note })

/-- Takes up changed objects one after another; gives those installed and those failed. -/
def takeUpAll (objects : List SceneObject) (s : Session) : (List String × List String) × Session :=
  objects.foldl (fun (result, s) o =>
    match s.takeUp o with
    | (.unchanged, s) => (result, s)
    | (.installed, s) => ((result.1 ++ [o.id], result.2), s)
    | (.failed, s) => ((result.1, result.2 ++ [o.id]), s)) (([], []), s)

/-- Carries out operations of the registry, one for each entry of a list. -/
def dispatchAll {α : Type} (op : α → Registry → Dispatched) (xs : List α) (s : Session) :
    Nat × Session :=
  xs.foldl (fun (n, s) x =>
    let (k, s) := s.dispatch (op x)
    (n + k, s)) (0, s)

/-- Tells scripts about properties that changed. -/
def dispatchProperties (updates : List Update) (s : Session) : Nat × Session :=
  let changes := updates.flatMap fun u => u.changed.map fun c => (u.current.id, c)
  s.dispatchAll (fun c => Registry.propertyChanged c.1 c.2.1 c.2.2) changes

/-- Tells scripts about overlaps that ended and that began. -/
def dispatchOverlaps (c : Space.OverlapChange) (s : Session) : Nat × Session :=
  let finished := c.finished.map fun p => (p, CollisionPhase.finish)
  let started := c.started.map fun p => (p, CollisionPhase.start)
  s.dispatchAll (fun e => Registry.collision e.1.a e.1.b e.2) (finished ++ started)

/-- Drops compiled graphs that are installed nowhere. -/
def prune (s : Session) : Session := { s with cache := s.cache.prune s.registry.holds }

/-- Forgets an object that is gone. -/
def forget (id : String) (s : Session) : Session :=
  { s.uninstall id with handled := Keyed.erase id s.handled }

/-- Takes in a snapshot. -/
def change (snapshot : List SceneObject) (s : Session) : ChangeReport × Session :=
  let (diff, differ) := s.differ.update snapshot
  let s := { s with differ }
  if diff.isEmpty then ({}, s)
  else
    let s := diff.deleted.foldl (fun s id => s.forget id) s
    let ((installed, failed), s) := s.takeUpAll diff.touched
    let s := if diff.deleted.isEmpty && installed.isEmpty then s else s.prune
    let (byProperty, s) := s.dispatchProperties diff.updated
    let (overlaps, overlapChange) := s.overlaps.update Space.leastGrowth diff.movement
    let (byOverlap, s) := { s with overlaps }.dispatchOverlaps overlapChange
    ({ created := diff.created.length
       updated := diff.updated.length
       deleted := diff.deleted.length
       installed, failed
       collisionsStarted := overlapChange.started.length
       collisionsFinished := overlapChange.finished.length
       dispatched := byProperty + byOverlap }, s)

/-- Takes in the scene as it is. -/
def sync (s : Session) : ChangeReport × Session := s.change s.scene.snapshot

/-- Takes in a selection; what left it is told first. -/
def select (ids : List String) (s : Session) : Nat × Session :=
  let next := Names.ofList ids
  let left := (Names.minus s.selection next).map fun id => (id, false)
  let entered := (Names.minus next s.selection).map fun id => (id, true)
  let (n, s) := s.dispatchAll (fun e => Registry.selectionChanged e.1 e.2) (left ++ entered)
  (n, { s with selection := next })

def broadcast (name : String) (targets : Option (List String)) (s : Session) : Nat × Session :=
  s.dispatch (Registry.broadcast name targets)

def signal (name : String) (targets : Option (List String)) (payload : List (String × Value))
    (s : Session) : Nat × Session :=
  s.dispatch (Registry.signal name targets payload)

/-- Takes in an event. -/
def apply (s : Session) : SceneEvent → Session
  | .objects snapshot => (s.change snapshot).2
  | .selection ids => (s.select ids).2
  | .broadcast name targets => (s.broadcast name targets).2
  | .signal name targets payload => (s.signal name targets payload).2

end Session

end Tabletop
