import Tabletop.Json.Document

/-! What the texts of a type may hold, part by part. -/

namespace Tabletop.Json

/-- A kind of values without parts. -/
inductive Kind where
  | text
  | truth
  | float
  /-- A natural number of 64 bits, written as an integer. -/
  | count
  | nothing

namespace Kind

/-- The kind in words. -/
def expected : Kind → String
  | text => "a string"
  | truth => "a boolean"
  | float => "f64"
  | count => "u64"
  | nothing => "unit"

def holds : Kind → Document → Bool
  | text, .string _ => true
  | truth, .bool _ => true
  | float, .number _ => true
  | count, .number (.integer (.ofNat _)) => true
  | nothing, .null => true
  | _, _ => false

end Kind

inductive Shape where
  | any
  | plain (kind : Kind)
  /-- One of some names: a string, or an object with `null` under the name. -/
  | name (known : List String)
  /-- A value, or `null` for none. -/
  | maybe (s : Shape)
  | list (s : Shape)
  /-- An object with any keys. -/
  | entries (s : Shape)
  /-- A structure: an object with declared keys, others being passed over, or a list of its fields
  in their order. Those in `optional` may be missing. -/
  | record (type : String) (needed optional : List (String × Shape))
  /-- The structure around this place. -/
  | same

namespace Shape

abbrev text : Shape := plain .text

abbrev truth : Shape := plain .truth

abbrev float : Shape := plain .float

abbrev count : Shape := plain .count

/-- The fields of a structure, in their order. -/
def fields : Shape → List (String × Shape)
  | record _ needed optional => needed ++ optional
  | _ => []

/-- The names of the fields of a structure, in their order. -/
def declared (s : Shape) : List String := s.fields.map (·.1)

end Shape

end Tabletop.Json
