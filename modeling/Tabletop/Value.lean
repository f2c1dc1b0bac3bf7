import Tabletop.Json.Format
import Tabletop.Decimal.Read
import Tabletop.Text.Blank
import Tabletop.Text.Lowercase

/-! The values that scripts compute with, and how one kind is read as another. -/

namespace Tabletop

inductive Value where
  | nothing
  | bool (b : Bool)
  | number (x : Float)
  | text (s : String)
  deriving BEq

instance : Inhabited Value := ⟨.nothing⟩

namespace Value

def typeName : Value → String
  | nothing => "Nothing"
  | bool _ => "Bool"
  | number _ => "Number"
  | text _ => "Text"

def isNothing : Value → Bool
  | nothing => true
  | _ => false

/-- A number as it is shown: the shortest digits that read back, without an exponent. -/
def numberText (x : Float) : String :=
  if x.isNaN then "NaN"
  else if x.isInf then (if 0.0 < x then "Infinity" else "-Infinity")
  else Decimal.plain.render x

/-- The text a value is shown as. -/
def shown : Value → String
  | nothing => ""
  | bool b => if b then "true" else "false"
  | number x => numberText x
  | text s => s

/-- Whatever is no finite number counts as zero. -/
def finiteOrZero (x : Float) : Float := if x.isFinite then x else 0.0

def ofBool (b : Bool) : Float := if b then 1.0 else 0.0

/-- The value as a finite number; a text counts when it spells one between blanks. -/
def toNumber : Value → Float
  | nothing => 0.0
  | bool b => ofBool b
  | number x => finiteOrZero x
  | text s => finiteOrZero ((Decimal.read? (Text.trim s)).getD 0.0)

/-- The number that a comparison goes by, if the value looks like one. -/
def comparable? : Value → Option Float
  | nothing => none
  | bool b => some (ofBool b)
  | number x => if x.isNaN then none else some x
  | text s => (Decimal.read? (Text.trim s)).filter fun x => !x.isNaN

/-- Whether the value counts as true. -/
def isTrue : Value → Bool
  | nothing => false
  | bool b => b
  | number x => x != 0.0 && !x.isNaN
  | text s =>
    let lower := (Text.trim s).map Char.toLower
    !(lower == "" || lower == "false" || lower == "0")

/-- The order of two numbers, neither of which is missing. -/
def order (x y : Float) : Ordering := if x < y then .lt else if y < x then .gt else .eq

/-- Values compare as numbers when both look like one, else as texts without regard to case. -/
def compare (a b : Value) : Ordering :=
  match a.comparable?, b.comparable? with
  | some x, some y => order x y
  | _, _ => Ord.compare (Text.lowercase a.shown) (Text.lowercase b.shown)

def looselyEqual (a b : Value) : Bool := compare a b == .eq

/-- A JSON value; a list or object becomes its text. -/
def ofJson : Json → Value
  | .null => nothing
  | .bool b => bool b
  | .number n => number n.toFloat
  | .string s => text s
  | j => text j.text

def toDocument : Value → Document
  | nothing => .null
  | bool b => .bool b
  | number x => .ofFloat x
  | text s => .string s

/-- A value from JSON that is no list and no object. -/
def decode : Decoder Value
  | .null => some nothing
  | .bool b => some (bool b)
  | .number n => some (number n.toFloat)
  | .string s => some (text s)
  | _ => none

def format : Format Value := { shape := .any, decode }

end Value

end Tabletop
