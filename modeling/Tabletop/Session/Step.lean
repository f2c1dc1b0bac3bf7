import Tabletop.Session.Basic

/-! One step of a session: the task whose turn it is takes a step, or the next ready task gets its
turn. Answering a request is part of the step that asks. -/

namespace Tabletop

namespace Session

/-- Gives what was drawn, and goes on with the rest of the source. -/
def drawn {α : Type} (result : α × Entropy) (s : Session) : α × Session :=
  (result.1, { s with entropy := result.2 })

/-- Answers what an execution asks. -/
def answer (x : Execution) (s : Session) : (r : Request) → r.Answer × Session
  | .cancelled => (s.cancellations.has x.run, s)
  | .read v => (s.memory.read x.table v, s)
  | .assign v a => ((), { s with memory := s.memory.assign x.table a v })
  | .now => (s.clock, s)
  | .cached id => (s.queue.cached? id, s)
  | .outstanding => (s.queue.outstanding, s)
  | .objects filter => (s.scene.read filter, s)
  | .write id edit => s.write (.id id) edit
  | .invalidate => ((), { s with queue := s.queue.invalidate })
  | .touching id none => (!(s.overlaps.neighbours id).isEmpty, s)
  | .touching id (some other) => (s.overlaps.touching id other, s)
  | .draw low high => s.drawn (s.entropy.between low high)
  | .drawWithin low high => s.drawn (s.entropy.within low high 64)
  | .tag => s.drawn s.entropy.tag
  | .sound name => (s.resources.sound? name, s)
  | .startSound sound => (s.soundLength, { s with scene := s.scene.startSound sound.name })
  | .detachSound sound => ((), s.spawn (.sound sound))
  | .stopSounds => ((), { s with scene := s.scene.stopSounds })
  | .broadcast name targets => s.dispatch (Registry.broadcast name targets)
  | .stopOthers object hat => ((), (s.dispatch (Registry.stop object (some hat))).2)
  | .stopAll => ((), (s.dispatch Registry.stopAll).2)
  | .add o => ((), { s with scene := s.scene.add [o] })
  | .delete id => ((), { s with scene := s.scene.delete [id] })

/-- What a pause has come to, once it is over. -/
def result? (x : Execution) (s : Session) : (p : Pause) → Option p.Answer
  | .turn => if x.parked then some () else none
  | .deadline due => if s.cancellations.has x.run || s.isPast due then some () else none
  | .flushed window => s.queue.result? window
  | .never => none

/-- What finding a pause over takes of the allowance. The result of a flush costs only the first who
takes it. -/
def cost (s : Session) : Pause → Nat
  | .turn => 0
  | .deadline _ => 1
  | .flushed window => if s.taken.contains window then 0 else 1
  | .never => 0

/-- Gives up the turn of a task until the others had theirs. -/
def yield (t : Nat) (s : Session) : Session :=
  if s.yielded.head? == some t then s else { s with yielded := t :: s.yielded }

/-- Sets an execution aside at a pause that it has come to. -/
def park (t : Nat) (p : Pause) (s : Session) : Session :=
  let s := s.modifyExecution t fun x => { x with parked := true }
  match p with
  | .turn => s.yield t
  | .deadline due => s.setTimer due t
  | .flushed window => { s with waiters := s.waiters ++ [(window, t)] }
  | .never => s

/-- Takes the result of a window. The first who does so wakes all who still wait for it, itself
among them. -/
def take (window : Nat) (s : Session) : Session :=
  if s.taken.contains window then s else { s with taken := window :: s.taken, recalled := true }

/-- Leaves a pause that is over. -/
def leave (t : Nat) (p : Pause) (s : Session) : Session :=
  let s := { s with allowance := s.allowance - s.cost p }
  match p with
  | .turn => s
  | .deadline _ => s.clearTimer t
  | .flushed window => s.take window
  | .never => s

/-- The end of an execution. Unless it was cancelled, an error is told to the users. -/
def finish (t : Nat) (x : Execution) (result : Except ExecError Unit) (s : Session) : Session :=
  let s := { s with
    registry := s.registry.finish x.actor.object x.actor.hat x.run
    cancellations := s.cancellations.forget x.run }
  let s := match result with
    | .ok () => s
    | .error .cancelled => s
    | .error e =>
      { s with scene := s.scene.notify s!"Behavior error on {x.actor.object}: {e.message}" }
  s.dropTask t

/-- A step of an execution. -/
def stepScript (t : Nat) (x : Execution) (s : Session) : Session :=
  match x.machine.step x.actor with
  | .silent m => s.modifyExecution t fun x => { x with machine := m }
  | .finished result => s.finish t x result
  | .ask r next =>
    let (a, s) := s.answer x r
    s.modifyExecution t fun x => { x with machine := next a }
  | .wait p next =>
    if s.allowance < s.cost p then (s.yield t).endTurn t
    else match s.result? x p with
      | some a =>
        (s.leave t p).modifyExecution t fun x => { x with machine := next a, parked := false }
      | none => (if x.parked then s else s.park t p).endTurn t

/-- Lets those go on who wait for a window. -/
def release (window : Nat) (s : Session) : Session :=
  let waiting := s.waiters.filter (·.1 == window)
  waiting.foldl (fun s w => s.wake w.2)
    { s with waiters := s.waiters.filter (·.1 != window) }

/-- Flushes a window. -/
def flushWindow (t window : Nat) (s : Session) : Session :=
  let (batch, queue) := s.queue.begin_ window
  let s := match batch with
    | none => { s with queue }
    | some b =>
      let (result, scene) := s.scene.write b
      { s with scene, queue := queue.complete window result }
  (s.release window).dropTask t

/-- A step of the task whose turn it is. A flush sets its timer in its first turn. -/
def stepTask (t : Nat) (s : Session) : Session :=
  match s.task? t with
  | none => s.endTurn t
  | some (.script x) => s.stepScript t x
  | some (.sound sound) => { s with scene := s.scene.startSound sound.name }.dropTask t
  | some (.flush window none) =>
    let due := s.clock + min s.config.flushInterval Act.longestWait
    if s.isPast due then s.flushWindow t window
    else ((s.setTask t (.flush window (some due))).setTimer due t).endTurn t
  | some (.flush window (some due)) =>
    if s.isPast due then s.flushWindow t window else s.endTurn t

/-- The next step, if a task has its turn or is ready. -/
def step? (s : Session) : Option Session :=
  match s.current with
  | some t => some (s.stepTask t)
  | none => match s.ready with
    | t :: rest => some { s with current := some t, ready := rest, allowance := fullAllowance }
    | [] => none

/-- Takes steps until so many turns are over, or no task is ready. -/
def takeTurns : Nat → Nat → Session → Session
  | 0, _, s => s
  | fuel + 1, turns, s =>
    if s.current.isNone && turns == 0 then s
    else match s.step? with
      | some next => takeTurns fuel (if s.current.isNone then turns - 1 else turns) next
      | none => s

end Session

end Tabletop
