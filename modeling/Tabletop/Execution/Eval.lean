import Tabletop.Execution.Act
import Tabletop.Double.Duration
import Tabletop.Double.Order

/-! The values of expressions. Evaluation asks and waits, but changes nothing. -/

namespace Tabletop

/-- The remainder of the modulo has the sign of the divisor. -/
def ArithOp.apply : ArithOp → Float → Float → Float
  | .add, x, y => x + y
  | .sub, x, y => x - y
  | .mul, x, y => x * y
  | .div, x, y => x / y
  | .mod, x, y => x - y * (x / y).floor

def CompareOp.holds : CompareOp → Ordering → Bool
  | .lt, o => o == .lt
  | .gt, o => o == .gt
  | .eq, o => o == .eq

/-- The value of a property of another object. -/
def ObjectProperty.value (o : SceneObject) : ObjectProperty → Value
  | .x => .number o.position.x
  | .y => .number o.position.y
  | .direction => .number o.rotation
  | .size => .number o.percent
  | .name => .text o.name
  | .text => .text o.text
  | .layer => .text o.layer
  | .visible => .bool o.visible

namespace Value

/-- The letter at a place that counts from one; no letter beyond the ends. -/
def letter (text : String) (place : Float) : String :=
  if place < 1.0 then ""
  else match text.toList[place.floor.toUInt64.toNat - 1]? with
    | some c => c.toString
    | none => ""

/-- Whether a bound of a random number asks for integers: a number without a fraction, a text
without a point, or anything else. -/
def asksForInteger : Value → Bool
  | number x => Double.remainder x 1.0 == 0.0
  | text s => !s.toList.contains '.'
  | _ => true

/-- Whether characters occur in others, one after another. -/
def isWithin (needle : List Char) : List Char → Bool
  | [] => needle.isEmpty
  | c :: rest => needle.isPrefixOf (c :: rest) || isWithin needle rest

/-- Whether a text occurs in another, without regard to case. -/
def occurs (needle haystack : String) : Bool :=
  isWithin (Text.lowercase needle).toList (Text.lowercase haystack).toList

end Value

namespace Act

/-- A random number between two bounds, an integer when both ask for that. No number is drawn
between bounds that are farther apart than any double is large. -/
def random (a b : Value) : Act Value := do
  let x := a.toNumber
  let y := b.toNumber
  let low := if x <= y then x else y
  let high := if x <= y then y else x
  if low == high then return .number low
  else if a.asksForInteger && b.asksForInteger then
    let n ← request (.draw low.toInt64.toInt high.toInt64.toInt)
    return .number (Float.ofInt n)
  else if (high - low).isFinite then return .number (← request (.drawWithin low high))
  else breakDown

/-- Whether the object that runs the script overlaps another, or any where none is named. -/
def overlaps (me : Actor) (target : Value) : Act Value := do
  return .bool (← request (.touching me.object (nameOf? target)))

/-- How far the object that runs the script is from another; zero where there is no other. -/
def distance (me : Actor) (target : Value) : Act Value := do
  match ← lookup target with
  | none => return .number 0.0
  | some other => return .number ((← self me).position.distance other.position)

def propertyOf (p : ObjectProperty) (target : Value) : Act Value := do
  match ← lookup target with
  | none => return .nothing
  | some other => return p.value other

end Act

namespace Expr

/-- Both operands are evaluated, the left one first; only `and` and `or` may do without the right
one. -/
def eval (me : Actor) : Expr → Act Value
  | literal v => return v
  | «variable» v => Act.request (.read v)
  | arith op left right => do
    let x ← left.eval me
    let y ← right.eval me
    return .number (op.apply x.toNumber y.toNumber)
  | compare op left right => do
    let a ← left.eval me
    let b ← right.eval me
    return .bool (op.holds (a.compare b))
  | and left right => do
    if (← left.eval me).isTrue then return .bool (← right.eval me).isTrue
    else return .bool false
  | or left right => do
    if (← left.eval me).isTrue then return .bool true
    else return .bool (← right.eval me).isTrue
  | not operand => do return .bool !(← operand.eval me).isTrue
  | join left right => do
    let a ← left.eval me
    let b ← right.eval me
    return .text (a.shown ++ b.shown)
  | letterOf index whole => do
    let place ← index.eval me
    let s ← whole.eval me
    return .text (Value.letter s.shown place.toNumber)
  | length operand => do return .number (Float.ofNat (← operand.eval me).shown.length)
  | contains haystack needle => do
    let h ← haystack.eval me
    let n ← needle.eval me
    return .bool (Value.occurs n.shown h.shown)
  | round operand => do return .number (← operand.eval me).toNumber.round
  | math f operand => do return .number (f.apply (← operand.eval me).toNumber)
  | random low high => do
    let a ← low.eval me
    let b ← high.eval me
    Act.random a b
  | xPosition => do return .number (← Act.self me).position.x
  | yPosition => do return .number (← Act.self me).position.y
  | direction => do return .number (← Act.self me).rotation
  | size => do return .number (← Act.self me).percent
  | text => do return .text (← Act.self me).text
  | visible => do return .bool (← Act.self me).visible
  | otherObject => return .text (me.other.getD "")
  | myId => return .text me.object
  | timer => do return .number (Double.seconds (← Act.request .now))
  | touching target => do Act.overlaps me (← target.eval me)
  | distanceTo target => do Act.distance me (← target.eval me)
  | propertyOf p target => do Act.propertyOf p (← target.eval me)
  | hasTag tag => do
    let name ← tag.eval me
    return .bool ((← Act.self me).hasTag (Text.trim name.shown))

end Expr

end Tabletop
