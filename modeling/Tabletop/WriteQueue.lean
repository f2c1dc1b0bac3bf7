import Tabletop.Scene.Host
import Tabletop.Keyed

/-! Writes to the host, gathered in windows. The first write after a flush opens a window; the flush
of the window carries all writes queued until it starts, and all of them share its result. Reads see
what is queued through a cache of the objects that writers passed in. -/

namespace Tabletop

/-- What a write is aimed at. An object passed in fills the cache. -/
inductive WriteTarget where
  | id (target : String)
  | object (o : SceneObject)

def WriteTarget.key : WriteTarget → String
  | .id target => target
  | .object o => o.id

/-- The result of a flush. -/
abbrev FlushResult := Except HostError Unit

structure WriteQueue where
  queue : List (String × Edit) := []
  cache : List (String × SceneObject) := []
  /-- The window whose flush is still to start. -/
  pending : Option Nat := none
  /-- The window whose flush the host is working on. -/
  inFlight : Option Nat := none
  flushes : Nat := 0
  /-- How many windows were opened; they are numbered in this order. -/
  windows : Nat := 0
  /-- The results of the windows that are closed. -/
  results : List (Nat × FlushResult) := []

namespace WriteQueue

/-- Puts an object passed in into the cache, unless there is a copy already. -/
def seed : WriteTarget → List (String × SceneObject) → List (String × SceneObject)
  | .id _, cache => cache
  | .object o, cache => if Keyed.has o.id cache then cache else Keyed.put o.id o cache

/-- Queues a write. Gives the window that will carry it, and whether that was opened for it. -/
def write (target : WriteTarget) (edit : Edit) (q : WriteQueue) : (Nat × Bool) × WriteQueue :=
  let q := { q with
    cache := Keyed.modify target.key edit (seed target q.cache)
    queue := q.queue ++ [(target.key, edit)] }
  match q.pending with
  | some window => ((window, false), q)
  | none => ((q.windows, true), { q with pending := some q.windows, windows := q.windows + 1 })

/-- The ids written to, in the order of their first write. -/
def idsOf (writes : List (String × Edit)) : List String := (Keyed.keys writes).eraseDups

/-- All writes to one object, one after another. -/
def editOf (writes : List (String × Edit)) : Edit := fun o =>
  (writes.filter fun w => w.1 == o.id).foldl (fun o w => w.2 o) o

/-- Starts the flush of a window: takes all that is queued. An empty flush is over at once. -/
def begin_ (window : Nat) (q : WriteQueue) : Option Batch × WriteQueue :=
  let started := { q with queue := [], cache := [], pending := none, inFlight := q.pending }
  if q.queue.isEmpty then
    (none, { started with inFlight := none, results := (window, .ok ()) :: q.results })
  else (some ⟨idsOf q.queue, editOf q.queue⟩, started)

/-- Ends the flush of a window. -/
def complete (window : Nat) (result : FlushResult) (q : WriteQueue) : WriteQueue :=
  { q with
    inFlight := none
    flushes := q.flushes + 1
    results := (window, result) :: q.results }

/-- The result of a window, once it is closed. -/
def result? (q : WriteQueue) (window : Nat) : Option FlushResult := q.results.lookup window

/-- The windows that a reader has to wait for, in this order. -/
def outstanding (q : WriteQueue) : List Nat := q.inFlight.toList ++ q.pending.toList

def cached? (q : WriteQueue) (id : String) : Option SceneObject := q.cache.lookup id

/-- Drops the cache. -/
def invalidate (q : WriteQueue) : WriteQueue := { q with cache := [] }

def hasPending (q : WriteQueue) : Bool := q.pending.isSome || q.inFlight.isSome

end WriteQueue

end Tabletop
