import Tabletop.Scene.Host
import Tabletop.Keyed

/-! A scene kept in memory. Every write counts up one clock for the whole scene and stamps the
object with it. An object that is added keeps a stamp of its own that is greater, and the clock does
not follow. -/

namespace Tabletop

structure Scene where
  objects : List (String × SceneObject) := []
  metadata : List (String × Json) := []
  /-- The ids of each batch that was written, failed or not; like the other logs, the last one
  first. -/
  writes : List (List String) := []
  /-- With what the next batch fails. -/
  failure : Option HostError := none
  notes : List String := []
  sounds : List String := []
  soundStops : Nat := 0
  clock : Nat := 0
  /-- The snapshots not yet taken by a subscriber, if there is one. -/
  mailbox : Option (List (List SceneObject)) := none

namespace Scene

def snapshot (s : Scene) : List SceneObject := s.objects.map (·.2)

def object? (s : Scene) (id : String) : Option SceneObject := s.objects.lookup id

/-- The objects that a filter accepts, or all of them. -/
def read (filter : Option ObjectFilter) (s : Scene) : List SceneObject :=
  match filter with
  | none => s.snapshot
  | some f => s.snapshot.filter f.accepts

/-- Hands the present snapshot to the subscriber. -/
def publish (s : Scene) : Scene :=
  { s with mailbox := s.mailbox.map fun waiting => waiting ++ [s.snapshot] }

def subscribe (s : Scene) : Scene := { s with mailbox := some [] }

def unsubscribe (s : Scene) : Scene := { s with mailbox := none }

/-- Takes the oldest snapshot that waits. -/
def receive? (s : Scene) : Option (List SceneObject × Scene) :=
  match s.mailbox with
  | some (first :: rest) => some (first, { s with mailbox := some rest })
  | _ => none

/-- Adds an object; a stamp of its own counts where it is greater. -/
def put (s : Scene) (o : SceneObject) : Scene :=
  let clock := s.clock + 1
  { s with
    clock
    objects := Keyed.put o.id { o with lastModified := max o.lastModified clock } s.objects }

def add (objects : List SceneObject) (s : Scene) : Scene := (objects.foldl put s).publish

/-- Changes one object and stamps it; the clock moves even where there is none. -/
def touch (id : String) (edit : Edit) (s : Scene) : Scene :=
  let clock := s.clock + 1
  { s with
    clock
    objects := Keyed.modify id (fun o => { edit o with lastModified := clock }) s.objects }

/-- A write that comes from outside. -/
def edit (id : String) (edit : Edit) (s : Scene) : Scene := (s.touch id edit).publish

def delete (ids : List String) (s : Scene) : Scene :=
  publish { s with objects := s.objects.filter fun e => !ids.contains e.1 }

/-- Writes a batch, or fails and changes no object. -/
def write (b : Batch) (s : Scene) : Except HostError Unit × Scene :=
  let s := { s with writes := b.ids :: s.writes }
  match s.failure with
  | some e => (.error e, { s with failure := none })
  | none => (.ok (), (b.ids.foldl (fun s id => s.touch id b.edit) s).publish)

/-- Stores metadata of the scene. -/
def extendMetadata (update : List (String × Json)) (s : Scene) : Scene :=
  { s with metadata := update.foldl (fun sorted m => Json.insertMember m.1 m.2 sorted) s.metadata }

def notify (message : String) (s : Scene) : Scene := { s with notes := message :: s.notes }

def startSound (name : String) (s : Scene) : Scene := { s with sounds := name :: s.sounds }

def stopSounds (s : Scene) : Scene := { s with soundStops := s.soundStops + 1 }

end Scene

end Tabletop
