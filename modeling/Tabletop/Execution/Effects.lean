import Tabletop.Execution.Eval
import Tabletop.Script.Stmt
import Tabletop.Double.Angle

/-! What the operations on the host do. Each write goes through the queue and is waited for. -/

namespace Tabletop

namespace Act

/-- A number, or zero in the place of one below it. -/
def notNegative (x : Float) : Float := Double.greatest x 0.0

/-- Places the object above or below all others of its layer. -/
def arrange (me : Actor) (order : ZOrder) : Act Unit := do
  let object ← self me
  let layer ← fetchAll (.layer object.layer)
  check
  let others := (layer.filter (·.id != object.id)).map (·.zIndex)
  let z := match order with
    | .front => others.foldl Double.greatest object.zIndex + 1.0
    | .back => others.foldl Double.least object.zIndex - 1.0
  mutate me fun o => { o with zIndex := z }

/-- Plays a sound of the scene, and waits for its end if asked to. -/
def play (name : Value) (toEnd : Bool) : Act Unit := do
  match nameOf? name with
  | none => return
  | some wanted =>
    match ← soundOf wanted with
    | none => return
    | some sound =>
      if toEnd then
        let duration ← request (.startSound sound)
        if 0 < duration then elapse duration else check
      else request (.detachSound sound)
where
  soundOf (name : String) : Act (Option Sound) := request (.sound name)

def addTag (me : Actor) (tag : Value) : Act Unit := do
  match nameOf? tag with
  | none => return
  | some tag => mutate me fun o => if o.hasTag tag then o else o.withTags (o.tags ++ [tag])

def removeTag (me : Actor) (tag : Value) : Act Unit := do
  match nameOf? tag with
  | none => return
  | some tag => mutate me fun o => if o.hasTag tag then o.withTags (o.tags.filter (· != tag)) else o

/-- The id of a copy: that of the object and a number in eight hexadecimal digits. -/
def cloneId (source : String) (tag : Nat) : String :=
  let digits := Nat.toDigits 16 tag
  source ++ "-" ++ String.ofList (List.replicate (8 - digits.length) '0' ++ digits)

/-- A copy of an object, marked as fresh and with the id of the object it was made from. -/
def copyOf (me : Actor) (source : SceneObject) (tag : Nat) : SceneObject :=
  let copy := { source with id := cloneId source.id tag, lastModified := 0 }
  (copy.withMetadata me.config.cloneFlagKey (.bool true)).withMetadata me.config.cloneSourceKey
    (.string source.id)

def cloneSelf (me : Actor) : Act Unit := do
  let source ← self me
  let tag ← request .tag
  request (.add (copyOf me source tag))
  check

/-- Removes the object if it is a copy, and tells whether it was. -/
def deleteSelf (me : Actor) : Act Bool := do
  let object ← self me
  if (object.stored? me.config.cloneSourceKey).isSome then
    flush (← request .outstanding)
    request (.delete object.id)
    return true
  else return false

def goTo (me : Actor) (target : Vec) : Act Unit := mutate me fun o => { o with position := target }

/-- The position moved by some steps; rotation zero faces up the screen. -/
def moved (o : SceneObject) (steps : Float) : Vec :=
  let angle := Double.radians o.rotation
  ⟨o.position.x + steps * angle.sin, o.position.y - steps * angle.cos⟩

def goToObject (me : Actor) (target : Value) : Act Unit := do
  match ← lookup target with
  | none => return
  | some other => goTo me other.position

def turn (me : Actor) (degrees : Float) : Act Unit :=
  mutate me fun o => { o with rotation := Double.withinTurn (o.rotation + degrees) }

end Act

/-- A movement to a target that takes some seconds. -/
structure Glide where
  start : Vec
  target : Vec
  began : Nat
  seconds : Float

namespace Glide

/-- How much of the way is done after some milliseconds. -/
def part (g : Glide) (now : Nat) : Float :=
  let t := Double.seconds (now - g.began) / g.seconds
  if t < 1.0 then t else 1.0

/-- The place where a part of the way is done. -/
def at_ (g : Glide) (t : Float) : Vec :=
  ⟨g.start.x + (g.target.x - g.start.x) * t, g.start.y + (g.target.y - g.start.y) * t⟩

end Glide

end Tabletop
