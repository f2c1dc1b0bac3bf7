import Tabletop.Session.Step
import Tabletop.Session.Change

/-! Waiting, which is when tasks get their turns, in rounds. The one who waits is looked after
before each round, and before the tasks that wake at the same time. -/

namespace Tabletop

namespace Session

/-- Steps and jumps that a wait may take; no script that its loop guard stops comes near. -/
def patience : Nat := Nat.pow 2 40

/-- The turns of one round. -/
def roundLength : Nat := 61

/-- Lets the tasks go on that gave up their turn, the last one first. -/
def returnTurns (s : Session) : Session :=
  s.yielded.foldl (fun s t => s.wake t) { s with yielded := [] }

/-- One round. Those that gave up their turn are ready for the next one. -/
def round (s : Session) : Session :=
  { (s.takeTurns patience roundLength).returnTurns with allowance := fullAllowance }

/-- The earliest timer, or the end of the wait if that is earlier. -/
def nextMoment? (deadline : Option Nat) (s : Session) : Option Nat :=
  (deadline.toList ++ s.timers.map (·.due)).min?

/-- Moves on to a later moment and wakes the tasks that are due, in the order of their timers. -/
def moveTo (moment : Nat) (s : Session) : Session :=
  let (due, timers) := s.timers.partition fun t => decide (t.due ≤ moment)
  due.foldl (fun s t => s.wake t.task) { s with clock := moment, timers }

/-- What is taken of the allowance for finding a wait over: as much as `done` says, or one at the
deadline; nothing where it is not over. -/
def dues? (done : Session → Option Nat) (deadline : Option Nat) (s : Session) : Option Nat :=
  match deadline with
  | some d => if s.isPast d then some 1 else done s
  | none => done s

/-- Waits until `done`, or until the deadline if there is one. Time passes only when no task is
ready, and a wait that the allowance does not cover ends one round later. -/
def waitUntil (done : Session → Option Nat) (deadline : Option Nat) : Nat → Session → Session
  | 0, s => s
  | fuel + 1, s =>
    match s.dues? done deadline with
    | some n =>
      if n ≤ s.allowance then { s with allowance := s.allowance - n }
      else waitUntil done deadline fuel s.round
    | none =>
      let next := s.round
      if !next.ready.isEmpty || (next.dues? done deadline).isSome then
        waitUntil done deadline fuel next
      else match next.nextMoment? (deadline.map next.ringsAt) with
        | none => next
        | some moment => waitUntil done deadline fuel (next.moveTo moment)

/-- Lets some milliseconds pass. -/
def sleep (milliseconds : Nat) (s : Session) : Session :=
  s.waitUntil (fun _ => none) (some (s.clock + min milliseconds Act.longestWait)) patience

/-- Waits for the result of a window. -/
def waitForWindow (window : Nat) (s : Session) : FlushResult × Session :=
  let done := fun s : Session => (s.queue.result? window).map fun _ => s.cost (.flushed window)
  let s := s.waitUntil done none patience
  ((s.queue.result? window).getD (.error .unavailable), { s.take window with recalled := false })

/-- Waits for windows up to the first that fails. -/
def waitForWindows : List Nat → Session → FlushResult × Session
  | [], s => (.ok (), s)
  | window :: rest, s => match s.waitForWindow window with
    | (.ok (), s) => waitForWindows rest s
    | failed => failed

/-- Waits for all writes that are queued. -/
def flush (s : Session) : FlushResult × Session := s.waitForWindows s.queue.outstanding

/-- The latest state of an object: its copy, or what the scene holds after the outstanding
flushes. -/
def get (id : String) (s : Session) : Option SceneObject × Session :=
  match s.queue.cached? id with
  | some o => (some o, s)
  | none =>
    let s := s.queue.outstanding.foldl (fun s window => (s.waitForWindow window).2) s
    ((s.scene.read (some (.ids [id]))).getLast?, s)

/-- The objects that a filter accepts, after the outstanding flushes. -/
def getAll (filter : Option ObjectFilter) (s : Session) : List SceneObject × Session :=
  let s := s.flush.2
  (s.scene.read filter, s)

/-- Stops everything, and waits for all writes that are queued. -/
def shutdown (s : Session) : FlushResult × Session := (s.dispatch Registry.stopAll).2.flush

/-- Waits for what is there already. -/
def receive (s : Session) : Session := s.waitUntil (fun _ => some 1) none patience

/-- Takes in events until there are no more. Each of them is waited for, and so is their end. -/
def run : List SceneEvent → Session → Session
  | [], s => s.receive
  | e :: rest, s => run rest (s.receive.apply e)

/-- Takes in each snapshot that the scene publishes up to a deadline. -/
def follow (deadline : Nat) : Nat → List ChangeReport → Session → List ChangeReport × Session
  | 0, reports, s => (reports.reverse, s)
  | fuel + 1, reports, s =>
    let published := fun s : Session => s.scene.receive?.map fun _ => 1
    let s := s.waitUntil published (some deadline) patience
    if s.isPast deadline then (reports.reverse, s)
    else match s.scene.receive? with
      | none => (reports.reverse, s)
      | some (snapshot, scene) =>
        let (report, s) := { s with scene }.change snapshot
        follow deadline fuel (report :: reports) s

def subscribe (s : Session) : Session := { s with scene := s.scene.subscribe }

def unsubscribe (s : Session) : Session := { s with scene := s.scene.unsubscribe }

/-- Takes in each snapshot that the scene publishes from now on within some milliseconds. -/
def pump (milliseconds : Nat) (s : Session) : List ChangeReport × Session :=
  let deadline := s.clock + min milliseconds Act.longestWait
  let (reports, s) := follow deadline patience [] s.subscribe
  (reports, s.unsubscribe)

end Session

end Tabletop
