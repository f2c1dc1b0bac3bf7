import Tabletop.Execution.Effects

/-! Executions of scripts, one step at a time. A machine holds the act of the statement at hand and
a stack of frames, which are what is left to do around it. A step shows what the machine asks or
waits for; whoever drives it supplies the answers. -/

namespace Tabletop

/-- What is left to do once the statement at hand is done. -/
inductive Frame where
  | block (rest : List Stmt)
  | forever (body : List Stmt)
  | times (n : Nat) (body : List Stmt)
  | repeatUntil (condition : Expr) (body : List Stmt)
  | waitUntil (condition : Expr)
  | glide (g : Glide)

/-- How an execution goes on after a piece of it. -/
inductive Turn where
  /-- With the topmost frame. -/
  | next
  /-- With a new frame on top. -/
  | enter (f : Frame)
  /-- Without the topmost frame. -/
  | leave
  /-- Not at all. -/
  | halt

/-- The act of an operation on the host. -/
def Effect.perform (me : Actor) : Effect → Act Turn
  | .goTo x y => do
    let a ← x.eval me
    let b ← y.eval me
    Act.goTo me ⟨a.toNumber, b.toNumber⟩
    return .next
  | .changeX dx => do
    let d := (← dx.eval me).toNumber
    Act.mutate me fun o => { o with position := ⟨o.position.x + d, o.position.y⟩ }
    return .next
  | .changeY dy => do
    let d := (← dy.eval me).toNumber
    Act.mutate me fun o => { o with position := ⟨o.position.x, o.position.y + d⟩ }
    return .next
  | .setX x => do
    let a := (← x.eval me).toNumber
    Act.mutate me fun o => { o with position := ⟨a, o.position.y⟩ }
    return .next
  | .setY y => do
    let b := (← y.eval me).toNumber
    Act.mutate me fun o => { o with position := ⟨o.position.x, b⟩ }
    return .next
  | .turn degrees clockwise => do
    let d := (← degrees.eval me).toNumber
    Act.turn me (if clockwise then d else -d)
    return .next
  | .pointInDirection angle => do
    let direction := Double.withinTurn (← angle.eval me).toNumber
    Act.mutate me fun o => { o with rotation := direction }
    return .next
  | .moveSteps steps => do
    let n := (← steps.eval me).toNumber
    Act.mutate me fun o => { o with position := Act.moved o n }
    return .next
  | .glide seconds x y => do
    let duration := (← seconds.eval me).toNumber
    let a ← x.eval me
    let b ← y.eval me
    let target : Vec := ⟨a.toNumber, b.toNumber⟩
    if duration <= 0.0 then
      Act.goTo me target
      return .next
    else
      let start := (← Act.self me).position
      let began ← Act.request .now
      return .enter (.glide ⟨start, target, began, duration⟩)
  | .goToObject target => do
    Act.goToObject me (← target.eval me)
    return .next
  | .setVisible visible => do
    Act.mutate me fun o => { o with visible }
    return .next
  | .setSize percent => do
    let scale := Act.notNegative ((← percent.eval me).toNumber / 100.0)
    Act.mutate me fun o => { o with scale := ⟨scale, scale⟩ }
    return .next
  | .changeSize percent => do
    let d := (← percent.eval me).toNumber / 100.0
    Act.mutate me fun o =>
      { o with scale := ⟨Act.notNegative (o.scale.x + d), Act.notNegative (o.scale.y + d)⟩ }
    return .next
  | .setText content => do
    let text := (← content.eval me).shown
    Act.mutate me fun o => { o with text }
    return .next
  | .setLayer layer => do
    Act.mutate me fun o => { o with layer }
    return .next
  | .arrange order => do
    Act.arrange me order
    return .next
  | .setLocked locked => do
    Act.mutate me fun o => { o with locked }
    return .next
  | .playSound name toEnd => do
    Act.play (← name.eval me) toEnd
    return .next
  | .stopSounds => do
    Act.request .stopSounds
    return .next
  | .addTag tag => do
    Act.addTag me (← tag.eval me)
    return .next
  | .removeTag tag => do
    Act.removeTag me (← tag.eval me)
    return .next
  | .cloneSelf => do
    Act.cloneSelf me
    return .next
  | .deleteSelf => do
    if ← Act.deleteSelf me then return .halt else return .next

/-- The objects that a message goes to; none given means all. -/
def BroadcastTarget.resolve (me : Actor) : BroadcastTarget → Act (Option (List String))
  | .everyone => return none
  | .onlySelf => return some [me.object]
  | .attachments => do
    let attached ← Act.fetchAll (.attachedTo me.object)
    Act.check
    return some (attached.map (·.id))
  | .object id => do return some [(← id.eval me).shown]

def StopScope.perform (me : Actor) : StopScope → Act Turn
  | .thisScript => return .halt
  | .otherScripts => do
    Act.request (.stopOthers me.object me.hat)
    return .next
  | .all => do
    Act.request .stopSounds
    Act.request .stopAll
    return .halt

/-- How often a body is repeated that is to be repeated a number of times: as often as the nearest
whole number says, where halves go up. It is not repeated for a number below zero, and no more often
than 64 bits can say. From 2⁵³ on all numbers are whole. -/
def repetitions (x : Float) : Nat :=
  let whole := x.toUInt64.toNat
  if whole < Nat.pow 2 53 ∧ 0.5 ≤ x - Float.ofNat whole then whole + 1 else whole

/-- The act of a statement, up to the frame that it leaves. -/
def Stmt.perform (me : Actor) : Stmt → Act Turn
  | .effect e => e.perform me
  | .setVariable v value => do
    let x ← value.eval me
    Act.request (.assign v x)
    return .next
  | .changeVariable v by_ => do
    let d := (← by_.eval me).toNumber
    let x ← Act.request (.read v)
    Act.request (.assign v (.number (Value.toNumber x + d)))
    return .next
  | .ifElse condition yes no => do
    if (← condition.eval me).isTrue then return .enter (.block yes) else return .enter (.block no)
  | .forever body => return .enter (.forever body)
  | .repeated times body => do
    return .enter (.times (repetitions (← times.eval me).toNumber) body)
  | .repeatUntil condition body => return .enter (.repeatUntil condition body)
  | .waitUntil condition => return .enter (.waitUntil condition)
  | .wait seconds => do
    let x := (← seconds.eval me).toNumber
    Act.sleep (Double.milliseconds (Act.notNegative x))
    return .next
  | .broadcast message target => do
    let name := (← message.eval me).shown
    let targets ← target.resolve me
    let _ ← Act.request (.broadcast name targets)
    Act.check
    return .next
  | .stop scope => scope.perform me

namespace Frame

/-- Begins one more iteration of a loop. -/
def again (body : List Stmt) : Act Turn := do
  Act.iteration
  return .enter (.block body)

/-- The next piece of a frame, and the frame after it; nothing when the frame is done. -/
def resume (me : Actor) : Frame → Option (Frame × Act Turn)
  | block [] => none
  | block (s :: rest) => some (block rest, do Act.check; s.perform me)
  | forever body => some (forever body, again body)
  | times 0 _ => none
  | times (n + 1) body => some (times n body, again body)
  | repeatUntil condition body => some (repeatUntil condition body, do
      if (← condition.eval me).isTrue then return .leave else again body)
  | waitUntil condition => some (waitUntil condition, do
      if (← condition.eval me).isTrue then return .leave
      else
        Act.tick (return)
        Act.sleep me.config.frame
        return .next)
  | glide g => some (glide g, do
      Act.sleep me.config.frame
      let t := g.part (← Act.request .now)
      Act.goTo me (g.at_ t)
      if 1.0 <= t then return .leave else return .next)

end Frame

structure Machine where
  guard : LoopGuard
  act : Act Turn
  stack : List Frame

/-- What a machine does next. -/
inductive Step where
  | silent (m : Machine)
  | ask (r : Request) (next : r.Answer → Machine)
  | wait (p : Pause) (next : p.Answer → Machine)
  | finished (result : Except ExecError Unit)

namespace Machine

/-- The machine of a script that may spend some loop iterations. -/
def start (body : List Stmt) (iterations : Nat) : Machine :=
  ⟨⟨iterations⟩, do Act.check; return .next, [.block body]⟩

/-- Goes on with the topmost frame. -/
def unwind (me : Actor) (guard : LoopGuard) : List Frame → Step
  | [] => .finished (.ok ())
  | f :: rest =>
    match f.resume me with
    | some (left, act) => .silent ⟨guard, act, left :: rest⟩
    | none => .silent ⟨guard, .done .next, rest⟩

def step (me : Actor) (m : Machine) : Step :=
  match m.act with
  | .done .next => unwind me m.guard m.stack
  | .done (.enter f) => unwind me m.guard (f :: m.stack)
  | .done .leave => unwind me m.guard m.stack.tail
  | .done .halt => .finished (.ok ())
  | .fail e => .finished (.error e)
  | .ask r next => .ask r fun answer => { m with act := next answer }
  | .wait p next => .wait p fun answer => { m with act := next answer }
  | .tick next => match m.guard.tick with
    | .ok guard => .silent { m with guard, act := next }
    | .error e => .finished (.error e)

end Machine

end Tabletop
