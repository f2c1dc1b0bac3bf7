import Tabletop.Execution.Machine
import Tabletop.Registry
import Tabletop.Variables
import Tabletop.Entropy
import Tabletop.Scene.Memory
import Tabletop.Snapshot
import Tabletop.Space.Overlap

/-! A session: one scene, the scripts installed on its objects, and the tasks that carry them out.
Time is simulated. It stands still while any task is ready, and then moves on to the next timer. In
one turn only so many waits may be found over; after that the turn has to be given up. -/

namespace Tabletop

/-- A script that runs. -/
structure Execution where
  actor : Actor
  run : Nat
  /-- The table of its own variables. -/
  table : Nat
  machine : Machine
  /-- Whether it was set aside at the pause its machine is at. -/
  parked : Bool := false

/-- What takes its turns in a session. -/
inductive Task where
  | script (e : Execution)
  /-- The flush of a window, with the time it is due at once that is set. -/
  | flush (window : Nat) (due : Option Nat)
  /-- A sound that nobody waits for. -/
  | sound (s : Sound)

/-- A point in time at which a task goes on. -/
structure Timer where
  due : Nat
  task : Nat

/-- The waits that may be found over in one turn. -/
def Session.fullAllowance : Nat := 128

structure Session where
  config : Config
  scene : Scene
  /-- The milliseconds that a sound takes. -/
  soundLength : Nat := 0
  queue : WriteQueue := {}
  registry : Registry := {}
  cache : ProcedureCache := {}
  resources : Resources := {}
  /-- The set of the ids of shared variables. -/
  globals : List String := []
  memory : Variables := {}
  overlaps : Space.Overlaps Float := {}
  differ : Differ := {}
  selection : List String := []
  /-- The stamp of the last record that was processed for an object, installed or not. -/
  handled : List (String × RecordStamp) := []
  entropy : Entropy := {}
  cancellations : Cancellations := {}
  clock : Nat := 0
  tasks : List (Nat × Task) := []
  /-- How many tasks were numbered. -/
  taskCount : Nat := 0
  /-- The task whose turn it is. -/
  current : Option Nat := none
  /-- The tasks that are ready, in order. -/
  ready : List Nat := []
  /-- The tasks that gave up their turn, the last one first. -/
  yielded : List Nat := []
  /-- The tasks that wait for the end of a flush, in the order they began to. -/
  waiters : List (Nat × Nat) := []
  /-- The timers in the order they were set. -/
  timers : List Timer := []
  /-- How much later than asked a timer goes off: not at all on a clock that stands on its ticks, a
  millisecond on one that runs between them. -/
  lag : Nat := 0
  /-- The waits that may still be found over in this turn. -/
  allowance : Nat := Session.fullAllowance
  /-- Whether the task whose turn it is was woken meanwhile. -/
  recalled : Bool := false
  /-- The windows whose result was taken by someone. -/
  taken : List Nat := []

namespace Session

def task? (s : Session) (t : Nat) : Option Task := s.tasks.lookup t

/-- Changes a script that runs. -/
def modifyExecution (t : Nat) (f : Execution → Execution) (s : Session) : Session :=
  { s with tasks := s.tasks.map fun e => match e with
      | (u, .script x) => if u = t then (u, .script (f x)) else e
      | _ => e }

def setTask (t : Nat) (task : Task) (s : Session) : Session :=
  { s with tasks := s.tasks.map fun e => if e.1 = t then (t, task) else e }

/-- Ends a task. -/
def dropTask (t : Nat) (s : Session) : Session :=
  { s with tasks := s.tasks.filter (·.1 != t), current := none, recalled := false }

/-- Ends the turn of a task, which is ready again if it was woken meanwhile. -/
def endTurn (t : Nat) (s : Session) : Session :=
  { s with
    current := none
    ready := if s.recalled then s.ready ++ [t] else s.ready
    recalled := false }

/-- Adds a task, which is ready at once. -/
def spawn (task : Task) (s : Session) : Session :=
  { s with
    tasks := s.tasks ++ [(s.taskCount, task)]
    taskCount := s.taskCount + 1
    ready := s.ready ++ [s.taskCount] }

/-- Makes a task ready, unless it is over or ready anyway. -/
def wake (t : Nat) (s : Session) : Session :=
  if (s.task? t).isNone || s.ready.contains t then s else { s with ready := s.ready ++ [t] }

/-- The time at which a timer for `due` goes off. -/
def ringsAt (due : Nat) (s : Session) : Nat := due + s.lag

def isPast (due : Nat) (s : Session) : Bool := s.ringsAt due ≤ s.clock

def setTimer (due task : Nat) (s : Session) : Session :=
  { s with timers := s.timers ++ [⟨s.ringsAt due, task⟩] }

/-- Drops the timers of a task. -/
def clearTimer (task : Nat) (s : Session) : Session :=
  { s with timers := s.timers.filter (·.task != task) }

/-- Cancels a run. It wakes if it has a timer; otherwise it notices later. -/
def cancel (run : Nat) (s : Session) : Session :=
  let asleep := s.tasks.filter fun e => match e.2 with
    | .script x => x.run == run && s.timers.any (·.task == e.1)
    | _ => false
  asleep.foldl (fun s e => s.wake e.1) { s with cancellations := s.cancellations.cancel run }

def launch (l : Launch) (s : Session) : Session :=
  s.spawn (.script {
    actor := ⟨l.object, l.hat, l.other, s.config⟩
    run := l.run
    table := l.table
    machine := .start l.body s.config.loopGuard })

def obey (s : Session) : Order → Session
  | .cancel run => s.cancel run
  | .launch l => s.launch l

/-- Carries out an operation of the registry, with its orders. -/
def dispatch (op : Registry → Dispatched) (s : Session) : Nat × Session :=
  let d := op s.registry
  (d.count, d.orders.foldl obey { s with registry := d.registry })

/-- Queues a write. The first one of a window brings about its flush. -/
def write (target : WriteTarget) (edit : Edit) (s : Session) : Nat × Session :=
  let ((window, opened), queue) := s.queue.write target edit
  let s := { s with queue }
  (window, if opened then s.spawn (.flush window none) else s)

end Session

end Tabletop
