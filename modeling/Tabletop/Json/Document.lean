import Tabletop.Json.Basic

/-! A JSON text as written: members keep their order and may repeat a key. -/

namespace Tabletop

inductive Document where
  | null
  | bool (b : Bool)
  | number (n : Number)
  | string (s : String)
  | array (items : List Document)
  | object (members : List (String × Document))

instance : Inhabited Document := ⟨.null⟩

namespace Document

mutual

/-- The value a document names. -/
def toJson : Document → Json
  | null => .null
  | bool b => .bool b
  | number n => .number n
  | string s => .string s
  | array items => .array (toItems items)
  | object members => .object (Json.sortMembers (toMembers members))

def toItems : List Document → List Json
  | [] => []
  | d :: rest => d.toJson :: toItems rest

def toMembers : List (String × Document) → List (String × Json)
  | [] => []
  | (k, d) :: rest => (k, d.toJson) :: toMembers rest

end

mutual

/-- A value as a document. -/
def ofJson : Json → Document
  | .null => null
  | .bool b => bool b
  | .number n => number n
  | .string s => string s
  | .array items => array (ofItems items)
  | .object members => object (ofMembers members)

def ofItems : List Json → List Document
  | [] => []
  | j :: rest => ofJson j :: ofItems rest

def ofMembers : List (String × Json) → List (String × Document)
  | [] => []
  | (k, j) :: rest => (k, ofJson j) :: ofMembers rest

end

/-- A double, or `null` where JSON has no number for it. -/
def ofFloat (x : Float) : Document := if x.isFinite then number (.double x) else null

def ofNat (n : Nat) : Document := number (.integer n)

def ofStrings (ss : List String) : Document := array (ss.map string)

end Document

end Tabletop
