import Tabletop.Script.Expr
import Tabletop.Scene.Resources
import Tabletop.Session.Config
import Tabletop.Execution.Control
import Tabletop.WriteQueue

/-! What scripts do, as trees of acts. An act asks for things that are answered at once and waits
for things that are not; what stands between is pure. Whoever carries an act out decides what the
answers are, and what happens while it waits. -/

namespace Tabletop

/-- Who runs a script, and the counterpart of the event that started it. -/
structure Actor where
  object : String
  hat : String
  other : Option String
  config : Config

/-- What is answered at once. -/
inductive Request where
  /-- Whether the execution was cancelled. -/
  | cancelled
  | read (v : Variable)
  | assign (v : Variable) (x : Value)
  /-- The milliseconds since the session started. -/
  | now
  /-- The copy of an object that has unflushed writes. -/
  | cached (id : String)
  /-- The windows that a reader has to wait for. -/
  | outstanding
  | objects (filter : ObjectFilter)
  /-- Queues a write to an object, which gives the window that carries it. -/
  | write (id : String) (edit : Edit)
  /-- Drops the copies of objects that have unflushed writes. -/
  | invalidate
  /-- Whether an object overlaps another one, or any. -/
  | touching (id : String) (target : Option String)
  /-- A random integer between two, either of which may be drawn. -/
  | draw (low high : Int)
  /-- A random number from `low` on and below `high`. -/
  | drawWithin (low high : Float)
  /-- A new number of 32 bits. -/
  | tag
  | sound (name : String)
  /-- Starts a sound, which gives the milliseconds it takes. -/
  | startSound (s : Sound)
  /-- Leaves a sound to play on its own. -/
  | detachSound (s : Sound)
  | stopSounds
  /-- Sends a message to some objects or to all, which gives the number of executions started. -/
  | broadcast (message : String) (targets : Option (List String))
  /-- Stops the scripts of an object but those of one hat. -/
  | stopOthers (object hat : String)
  | stopAll
  | add (o : SceneObject)
  | delete (id : String)

namespace Request

abbrev Answer : Request → Type
  | cancelled => Bool
  | read _ => Value
  | assign _ _ => Unit
  | now => Nat
  | cached _ => Option SceneObject
  | outstanding => List Nat
  | objects _ => List SceneObject
  | write _ _ => Nat
  | invalidate => Unit
  | touching _ _ => Bool
  | draw _ _ => Int
  | drawWithin _ _ => Float
  | tag => Nat
  | sound _ => Option Sound
  | startSound _ => Nat
  | detachSound _ => Unit
  | stopSounds => Unit
  | broadcast _ _ => Nat
  | stopOthers _ _ => Unit
  | stopAll => Unit
  | add _ => Unit
  | delete _ => Unit

end Request

/-- What is waited for. -/
inductive Pause where
  /-- A turn of all others that are ready. -/
  | turn
  /-- A point in time, or the cancellation before it. -/
  | deadline (clock : Nat)
  /-- The end of a flush. -/
  | flushed (window : Nat)
  /-- What never comes: an execution that has broken down goes on with nothing. -/
  | never

namespace Pause

abbrev Answer : Pause → Type
  | turn => Unit
  | deadline _ => Unit
  | flushed _ => FlushResult
  | never => Empty

end Pause

/-- A computation that gives an `α`. -/
inductive Act (α : Type) where
  | done (a : α)
  | fail (e : ExecError)
  | ask (r : Request) (next : r.Answer → Act α)
  | wait (p : Pause) (next : p.Answer → Act α)
  /-- Spends one of the loop iterations that the execution may spend. -/
  | tick (next : Act α)

namespace Act

variable {α β : Type}

def bind : Act α → (α → Act β) → Act β
  | done a, f => f a
  | fail e, _ => fail e
  | ask r next, f => ask r fun answer => (next answer).bind f
  | wait p next, f => wait p fun answer => (next answer).bind f
  | tick next, f => tick (next.bind f)

instance : Monad Act where
  pure := done
  bind := bind

def request (r : Request) : Act r.Answer := ask r done

def pause (p : Pause) : Act p.Answer := wait p done

/-- Waits for the end of a flush. -/
def flushed (window : Nat) : Act FlushResult := pause (.flushed window)

/-- Goes on unless the execution was cancelled. -/
def check : Act Unit := do
  if ← request .cancelled then fail .cancelled

/-- The milliseconds that a wait takes at most: those of thirty years. -/
def longestWait : Nat := 30 * 365 * 86400000

/-- Lets some milliseconds pass, fewer if the execution is cancelled before their end. -/
def elapse (milliseconds : Nat) : Act Unit := do
  let now ← request .now
  pause (.deadline (now + min milliseconds longestWait))
  check

/-- Waits for some milliseconds. The scene may have moved meanwhile, so no copies are kept. -/
def sleep (milliseconds : Nat) : Act Unit := do
  elapse milliseconds
  request .invalidate

/-- Breaks down. -/
def breakDown : Act α := do
  nomatch ← pause .never

/-- Begins a loop iteration: spends it and gives all others their turn. -/
def iteration : Act Unit := do
  tick (done ())
  pause .turn
  check

/-- Waits for flushes, whatever their results. -/
def settle : List Nat → Act Unit
  | [] => return
  | window :: rest => do
    let _ ← flushed window
    settle rest

/-- Waits for flushes up to the first that fails. -/
def flush : List Nat → Act Unit
  | [] => return
  | window :: rest => do
    match ← flushed window with
    | .ok () => flush rest
    | .error e => fail (.host e)

/-- The latest state of an object: its copy, or else what the scene holds once the outstanding
flushes are over. -/
def fetch (id : String) : Act (Option SceneObject) := do
  match ← request (.cached id) with
  | some o => return o
  | none =>
    settle (← request .outstanding)
    return (← request (.objects (.ids [id]))).getLast?

/-- The objects that a filter accepts, after the outstanding flushes. -/
def fetchAll (filter : ObjectFilter) : Act (List SceneObject) := do
  untilFailure (← request .outstanding)
  request (.objects filter)
where
  /-- Waits for flushes; after one that fails, no more. -/
  untilFailure : List Nat → Act Unit
    | [] => return
    | window :: rest => do
      match ← flushed window with
      | .ok () => untilFailure rest
      | .error _ => return

/-- The object that runs the script. -/
def self (me : Actor) : Act SceneObject := do
  let found ← fetch me.object
  check
  match found with
  | some o => return o
  | none => fail (.missingObject me.object)

/-- A name that a value spells, if that is more than blanks. -/
def nameOf? (v : Value) : Option String :=
  let name := Text.trim v.shown
  if name.isEmpty then none else some name

/-- The object that a value names, if there is one. -/
def lookup (target : Value) : Act (Option SceneObject) := do
  match nameOf? target with
  | none => return none
  | some id =>
    let found ← fetch id
    check
    return found

/-- Writes to the object that runs the script, and waits until that is flushed. -/
def mutate (me : Actor) (edit : Edit) : Act Unit := do
  let window ← request (.write me.object edit)
  match ← flushed window with
  | .ok () => check
  | .error e => fail (.host e)

end Act

end Tabletop
