import Tabletop.Script.Expr

/-! Statements of scripts. -/

namespace Tabletop

inductive StopScope where
  | thisScript
  /-- Every other script of the object; the one that stops them goes on. -/
  | otherScripts
  | all
  deriving DecidableEq, Repr

inductive BroadcastTarget where
  | everyone
  | onlySelf
  /-- Every object attached to the one that runs the script. -/
  | attachments
  | object (id : Expr)

inductive ZOrder where
  | front | back
  deriving DecidableEq, Repr

/-- An operation on the host, with its arguments. -/
inductive Effect where
  | goTo (x y : Expr)
  | changeX (by_ : Expr)
  | changeY (by_ : Expr)
  | setX (x : Expr)
  | setY (y : Expr)
  | turn (degrees : Expr) (clockwise : Bool)
  | pointInDirection (angle : Expr)
  | moveSteps (steps : Expr)
  | glide (seconds x y : Expr)
  | goToObject (target : Expr)
  | setVisible (visible : Bool)
  | setSize (percent : Expr)
  | changeSize (percent : Expr)
  | setText (content : Expr)
  | setLayer (layer : String)
  | arrange (order : ZOrder)
  | setLocked (locked : Bool)
  | playSound (name : Expr) (wait : Bool)
  | stopSounds
  | addTag (tag : Expr)
  | removeTag (tag : Expr)
  | cloneSelf
  | deleteSelf

inductive Stmt where
  | effect (e : Effect)
  | setVariable (v : Variable) (value : Expr)
  | changeVariable (v : Variable) (by_ : Expr)
  | ifElse (condition : Expr) (yes no : List Stmt)
  | forever (body : List Stmt)
  | repeated (times : Expr) (body : List Stmt)
  | repeatUntil (condition : Expr) (body : List Stmt)
  | waitUntil (condition : Expr)
  | wait (seconds : Expr)
  | broadcast (message : Expr) (target : BroadcastTarget)
  | stop (scope : StopScope)

end Tabletop
