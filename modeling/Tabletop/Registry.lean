import Tabletop.Compile.Cache
import Tabletop.Keyed

/-! The scripts that are installed on objects, and which of them run. A handler has one live run at
most: starting it again cancels the run before. Objects count in the order of their installation and
handlers in the order of their hats. The registry itself runs nothing; what it wants to have
cancelled and launched it gives as orders. -/

namespace Tabletop

/-- A handler with its live run. -/
structure InstalledHandler where
  handler : Handler
  live : Option Nat := none

namespace InstalledHandler

def hat (h : InstalledHandler) : String := h.handler.descriptor.hat

def trigger (h : InstalledHandler) : Trigger := h.handler.descriptor.trigger

end InstalledHandler

/-- What is installed on an object. -/
structure Installed where
  version : Nat
  /-- What the handlers were compiled to, unless that failed. -/
  compiled : Option Compiled
  /-- The ids of the object's own variables by slot. -/
  layout : List String
  /-- The table that holds these variables. -/
  table : Nat
  handlers : List InstalledHandler

/-- A run to be started. -/
structure Launch where
  object : String
  hat : String
  other : Option String
  body : List Stmt
  table : Nat
  run : Nat

/-- What is to be done to the runs of scripts. -/
inductive Order where
  | cancel (run : Nat)
  | launch (l : Launch)

structure Registry where
  installed : List (String × Installed) := []
  /-- How many runs were numbered. -/
  runs : Nat := 0
  /-- How many tables of variables were numbered. -/
  tables : Nat := 0

/-- A registry after an operation, with its orders in order and a number of runs: those that were
started, or those that were stopped. -/
structure Dispatched where
  registry : Registry
  orders : List Order := []
  count : Nat := 0

namespace Dispatched

/-- Goes on with another operation. -/
def andThen (d : Dispatched) (op : Registry → Dispatched) : Dispatched :=
  let next := op d.registry
  ⟨next.registry, d.orders ++ next.orders, d.count + next.count⟩

end Dispatched

namespace Registry

def ids (r : Registry) : List String := Keyed.keys r.installed

def installed? (r : Registry) (object : String) : Option Installed := r.installed.lookup object

def version? (r : Registry) (object : String) : Option Nat :=
  (r.installed? object).map (·.version)

def hash? (r : Registry) (object : String) : Option Hash :=
  (r.installed? object).bind fun i => i.compiled.map (·.procedure.hash)

def descriptors (r : Registry) (object : String) : List Descriptor :=
  match r.installed? object with
  | some i => i.handlers.map (·.handler.descriptor)
  | none => []

/-- All live runs. -/
def live (r : Registry) : List Nat :=
  r.installed.flatMap fun e => e.2.handlers.filterMap (·.live)

/-- The first handler of a hat. -/
def handler? (r : Registry) (object hat : String) : Option InstalledHandler :=
  (r.installed? object).bind fun i => i.handlers.find? (·.hat == hat)

def isRunning (r : Registry) (object hat : String) : Bool :=
  match r.handler? object hat with
  | some h => h.live.isSome
  | none => false

/-- Whether a compiled graph is installed on some object. -/
def holds (r : Registry) (number : Nat) : Bool :=
  r.installed.any fun e => match e.2.compiled with
    | some c => c.number == number
    | none => false

/-- The orders that cancel the live runs of some handlers. -/
def cancelAll (handlers : List InstalledHandler) : List Order :=
  handlers.filterMap fun h => h.live.map .cancel

/-- Sets the live run of the first handler of a hat. -/
def setLive (hat : String) (live : Option Nat) : List InstalledHandler → List InstalledHandler
  | [] => []
  | h :: rest => if h.hat = hat then { h with live } :: rest else h :: setLive hat live rest

/-- Starts the first handler of a hat, in the place of its live run. A number is spent even where
there is no such handler. -/
def start (object hat : String) (other : Option String) (r : Registry) : Dispatched :=
  let run := r.runs
  let counted := { r with runs := run + 1 }
  match r.installed? object, r.handler? object hat with
  | some i, some h =>
    let begun := fun i : Installed => { i with handlers := setLive hat (some run) i.handlers }
    let installed := Keyed.modify object begun r.installed
    { registry := { counted with installed }
      orders := cancelAll [h] ++ [.launch ⟨object, hat, other, h.handler.body, i.table, run⟩]
      count := 1 }
  | _, _ => { registry := counted }

/-- The handlers that a test accepts, by object and hat. -/
def collect (wants : String → Trigger → Bool) (r : Registry) : List (String × String) :=
  r.installed.flatMap fun e =>
    (e.2.handlers.filter fun h => wants e.1 h.trigger).map fun h => (e.1, h.hat)

def startAll (hits : List (String × String)) (other : Option String) (r : Registry) : Dispatched :=
  hits.foldl (fun d hit => d.andThen (start hit.1 hit.2 other)) { registry := r }

/-- Starts what a test accepts. -/
def dispatch (wants : String → Trigger → Bool) (other : Option String) (r : Registry) :
    Dispatched :=
  r.startAll (r.collect wants) other

/-- Whether an object is among those that something goes to; none given means all. -/
def isTarget (targets : Option (List String)) (object : String) : Bool :=
  match targets with
  | none => true
  | some ids => ids.contains object

def broadcast (name : String) (targets : Option (List String)) : Registry → Dispatched :=
  dispatch (fun object t => isTarget targets object && match t with
    | .broadcast wanted => wanted == name
    | _ => false) none

def propertyChanged (object : String) (p : TrackedProperty) (v : Value) : Registry → Dispatched :=
  dispatch (fun id t => id == object && match t with
    | .propertyChanged property criterion => property == p && criterion.accepts v
    | _ => false) none

def selectionChanged (object : String) (selected : Bool) : Registry → Dispatched :=
  dispatch (fun id t => id == object && match t with
    | .selectionChanged wanted => wanted == selected
    | _ => false) none

/-- One side of a collision: what `object` does about the other one. -/
def collided (object other : String) (phase : CollisionPhase) : Registry → Dispatched :=
  dispatch (fun id t => id == object && match t with
    | .collision wanted => wanted == phase
    | _ => false) (some other)

/-- Both sides of a collision. -/
def collision (a b : String) (phase : CollisionPhase) (r : Registry) : Dispatched :=
  (r.collided a b phase).andThen (collided b a phase)

/-- A signal starts what is for it, where each criterion accepts the payload under its key. -/
def signal (name : String) (targets : Option (List String)) (payload : List (String × Value)) :
    Registry → Dispatched :=
  dispatch (fun object t => isTarget targets object && match t with
    | .signal wanted criteria => wanted == name &&
      criteria.all fun c => c.2.accepts ((payload.lookup c.1).getD .nothing)
    | _ => false) none

/-- The end of a run. It is no longer live, unless another took its place. -/
def finish (object hat : String) (run : Nat) (r : Registry) : Registry :=
  match r.handler? object hat with
  | some h =>
    let ended := fun i : Installed => { i with handlers := setLive hat none i.handlers }
    if h.live = some run then { r with installed := Keyed.modify object ended r.installed } else r
  | none => r

/-- Stops the scripts of an object and drops its handlers, but those of the hat `except`. -/
def stop (object : String) (except : Option String) (r : Registry) : Dispatched :=
  match r.installed? object with
  | none => { registry := r }
  | some i =>
    let kept := i.handlers.filter fun h => except == some h.hat
    let orders := cancelAll (i.handlers.filter fun h => except != some h.hat)
    let installed :=
      if kept.isEmpty then Keyed.erase object r.installed
      else Keyed.modify object (fun i => { i with handlers := kept }) r.installed
    { registry := { r with installed }, orders, count := orders.length }

/-- Stops and drops everything. -/
def stopAll (r : Registry) : Dispatched :=
  let orders := cancelAll (r.installed.flatMap (·.2.handlers))
  { registry := { r with installed := [] }, orders, count := orders.length }

/-- A handler that outlives a new installation, with its table and that table's layout. -/
structure Survivor where
  handler : InstalledHandler
  layout : List String
  table : Nat

/-- Takes an object out. Of the handlers the first with the hat `except` survives. -/
def detach (object : String) (except : Option String) (r : Registry) :
    Option Survivor × Dispatched :=
  match r.installed? object with
  | none => (none, { registry := r })
  | some i =>
    let survives := fun h : InstalledHandler => except == some h.hat
    let others := i.handlers.eraseP survives
    ((i.handlers.find? survives).map fun h => ⟨h, i.layout, i.table⟩,
      { registry := { r with installed := Keyed.erase object r.installed }
        orders := cancelAll others })

/-- Puts an object in, at the end. -/
def put (object : String) (i : Installed) (r : Registry) : Registry :=
  { r with installed := Keyed.put object i r.installed }

/-- The handlers of a procedure, joined by one that survives: it hands its run to the handler of its
hat, or else stays as the last one. -/
def merge (p : Procedure) (survivor : Option Survivor) : List InstalledHandler :=
  let fresh : List InstalledHandler := p.handlers.map fun h => ⟨h, none⟩
  match survivor with
  | none => fresh
  | some s =>
    if fresh.any (·.hat == s.handler.hat) then setLive s.handler.hat s.handler.live fresh
    else fresh ++ [s.handler]

/-- Installs a compiled graph. The survivor's table is shared when its layout is that of the graph;
otherwise the object gets a new one. -/
def install (object : String) (version : Nat) (c : Compiled) (survivor : Option Survivor)
    (r : Registry) : Registry :=
  let shared := survivor.filter fun s => s.layout == c.procedure.locals
  let i : Installed := {
    version
    compiled := some c
    layout := c.procedure.locals
    table := match shared with
      | some s => s.table
      | none => r.tables
    handlers := merge c.procedure survivor }
  { r with tables := r.tables + 1 }.put object i

/-- Keeps nothing but a survivor, where compiling failed. -/
def keep (object : String) (version : Nat) (survivor : Option Survivor) (r : Registry) : Registry :=
  match survivor with
  | none => r
  | some s => r.put object ⟨version, none, s.layout, s.table, [s.handler]⟩

/-- Starts handlers of an object by their hats. -/
def startHats (object : String) (hats : List String) : Registry → Dispatched :=
  startAll (hats.map fun hat => (object, hat)) none

/-- What becomes of an object when a graph for it was compiled: what was installed is stopped, all
but a survivor, and the new handlers take its place; those for a fresh installation start, and on a
fresh clone those for clones after them. -/
def reinstall (object : String) (version : Nat) (except : Option String) (freshClone : Bool)
    (compiled : Except CompileError Compiled) (r : Registry) : Dispatched :=
  let (survivor, detached) := r.detach object except
  match compiled with
  | .error _ => detached.andThen fun r => { registry := r.keep object version survivor }
  | .ok c =>
    let hats := c.procedure.immediateHats ++ if freshClone then c.procedure.cloneHats else []
    (detached.andThen fun r => { registry := r.install object version c survivor }).andThen
      (startHats object hats)

end Registry

end Tabletop
