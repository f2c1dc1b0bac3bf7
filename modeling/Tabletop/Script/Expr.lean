import Tabletop.Value
import Tabletop.Double.Angle

/-! Expressions of scripts. -/

namespace Tabletop

/-- A variable, resolved: a slot of the object's own table, or a variable shared by the scene. -/
inductive Variable where
  | slot (n : Nat)
  | shared (id : String)
  deriving DecidableEq, Repr

inductive ArithOp where
  | add | sub | mul | div | mod
  deriving DecidableEq, Repr

inductive CompareOp where
  | lt | gt | eq
  deriving DecidableEq, Repr

inductive MathFn where
  | abs | floor | ceiling | sqrt | sin | cos | tan | asin | acos | atan | ln | log | exp | pow10
  deriving DecidableEq, Repr

/-- What can be read of another object. -/
inductive ObjectProperty where
  | x | y | direction | size | name | text | layer | visible
  deriving DecidableEq, Repr

inductive Expr where
  | literal (v : Value)
  | variable (v : Variable)
  | arith (op : ArithOp) (left right : Expr)
  | compare (op : CompareOp) (left right : Expr)
  | and (left right : Expr)
  | or (left right : Expr)
  | not (operand : Expr)
  | join (left right : Expr)
  | letterOf (index text : Expr)
  | length (text : Expr)
  | contains (haystack needle : Expr)
  | round (operand : Expr)
  | math (f : MathFn) (operand : Expr)
  | random (low high : Expr)
  | xPosition
  | yPosition
  | direction
  | size
  | text
  | visible
  /-- The counterpart of the event that started the script. -/
  | otherObject
  | myId
  /-- Seconds since the session started. -/
  | timer
  | touching (target : Expr)
  | distanceTo (target : Expr)
  | propertyOf (property : ObjectProperty) (target : Expr)
  | hasTag (tag : Expr)

namespace Expr

def ofNumber (x : Float) : Expr := literal (.number x)

def ofText (s : String) : Expr := literal (.text s)

def ofBool (b : Bool) : Expr := literal (.bool b)

end Expr

namespace MathFn

def all : List MathFn :=
  [abs, floor, ceiling, sqrt, sin, cos, tan, asin, acos, atan, ln, log, exp, pow10]

/-- The names of a function, in lower case. -/
def names : MathFn → List String
  | abs => ["abs"]
  | floor => ["floor"]
  | ceiling => ["ceiling"]
  | sqrt => ["sqrt"]
  | sin => ["sin"]
  | cos => ["cos"]
  | tan => ["tan"]
  | asin => ["asin"]
  | acos => ["acos"]
  | atan => ["atan"]
  | ln => ["ln"]
  | log => ["log"]
  | exp => ["e ^", "exp"]
  | pow10 => ["10 ^", "pow10"]

/-- The function of a name, without regard to case. -/
def ofName? (s : String) : Option MathFn := all.find? (·.names.contains (s.map Char.toLower))

/-- Angles are in degrees. -/
def apply (f : MathFn) (x : Float) : Float :=
  match f with
  | abs => x.abs
  | floor => x.floor
  | ceiling => x.ceil
  | sqrt => x.sqrt
  | sin => (Double.radians x).sin
  | cos => (Double.radians x).cos
  | tan => (Double.radians x).tan
  | asin => Double.degrees x.asin
  | acos => Double.degrees x.acos
  | atan => Double.degrees x.atan
  | ln => x.log
  | log => x.log10
  | exp => x.exp
  | pow10 => Float.pow 10.0 x

end MathFn

namespace ObjectProperty

def all : List ObjectProperty := [x, y, direction, size, name, text, layer, visible]

/-- The names of a property, in lower case. -/
def names : ObjectProperty → List String
  | x => ["x", "x position"]
  | y => ["y", "y position"]
  | direction => ["direction", "rotation"]
  | size => ["size"]
  | name => ["name"]
  | text => ["text"]
  | layer => ["layer"]
  | visible => ["visible"]

/-- The property of a name, without regard to case. -/
def ofName? (s : String) : Option ObjectProperty :=
  all.find? (·.names.contains (s.map Char.toLower))

end ObjectProperty

end Tabletop
