import Tabletop.Json.Shape
import Tabletop.Keyed

/-! Decoding documents into typed values. A structure is an object with declared keys, others being
passed over, or a list of its fields in their declared order. -/

namespace Tabletop

/-- The value that a document stands for, if it stands for one. -/
abbrev Decoder (α : Type) := Document → Option α

namespace Decode

variable {α : Type}

def string : Decoder String
  | .string s => some s
  | _ => none

def bool : Decoder Bool
  | .bool b => some b
  | _ => none

def float : Decoder Float
  | .number n => some n.toFloat
  | _ => none

/-- A natural number, written as an integer. -/
def count : Decoder Nat
  | .number (.integer (.ofNat n)) => some n
  | _ => none

/-- Any value. -/
def json : Decoder Json := fun d => some d.toJson

/-- Any object, by its members. -/
def jsonObject : Decoder (List (String × Json))
  | .object members => some (Json.sortMembers (Document.toMembers members))
  | _ => none

/-- A value, or `null` for none. -/
def optional (decode : Decoder α) : Decoder (Option α)
  | .null => some none
  | d => (decode d).map some

def list (decode : Decoder α) : Decoder (List α)
  | .array items => items.mapM decode
  | _ => none

def entriesFrom (decode : Decoder α) (seen : List (String × α)) :
    List (String × Document) → Option (List (String × α))
  | [] => some seen
  | (k, d) :: rest => do entriesFrom decode (Keyed.put k (← decode d) seen) rest

/-- The members of an object in the order of their first appearance, each with its last value. -/
def entries (decode : Decoder α) : Decoder (List (String × α))
  | .object members => entriesFrom decode [] members
  | _ => none

/-- One of some names, written as a string or as the only key of an object, over `null`. -/
def name (table : List (String × α)) : Decoder α
  | .string s => table.lookup s
  | .object [(k, .null)] => table.lookup k
  | _ => none

/-- One of some names, written as a string or as the only key of an object, over nothing. -/
def emptyName (table : List (String × α)) : Decoder α
  | .object [(k, .object [])] => table.lookup k
  | d => name table d

/-- One of some names, written as a string or by its place, counted from zero. -/
def nameOrPlace (table : List (String × α)) : Decoder α
  | .string s => table.lookup s
  | .number (.integer (.ofNat n)) => table[n]?.map (·.2)
  | _ => none

/-- No fields: an object, in which all is passed over, or an empty list. -/
def empty : Decoder Unit
  | .object _ => some ()
  | .array [] => some ()
  | _ => none

/-- The one member with a key. -/
def only (k : String) (members : List (String × Document)) : Option Document :=
  match members.filter (·.1 == k) with
  | [m] => some m.2
  | _ => none

/-- The fields of a structure that were found, by name. -/
structure Fields where
  found : List (String × Document)

/-- The members with declared keys; one key may not stand twice. -/
def declaredMembers (declared : List String) :
    List (String × Document) → Option (List (String × Document))
  | [] => some []
  | (k, d) :: rest => do
    let found ← declaredMembers declared rest
    if !declared.contains k then return found
    else if (found.lookup k).isSome then none
    else return (k, d) :: found

/-- The fields of a structure, from either written form. -/
def fields (declared : List String) : Decoder Fields
  | .object members => (declaredMembers declared members).map Fields.mk
  | .array items => if declared.length < items.length then none else some ⟨declared.zip items⟩
  | _ => none

namespace Fields

/-- A field that must be there. -/
def need (f : Fields) (k : String) (decode : Decoder α) : Option α := do
  decode (← f.found.lookup k)

/-- A field with a default. -/
def get (f : Fields) (k : String) (decode : Decoder α) (default : α) : Option α :=
  match f.found.lookup k with
  | some d => decode d
  | none => some default

end Fields

/-- The first of two forms that fits. -/
def either (first second : Decoder α) : Decoder α := fun d => first d <|> second d

end Decode

end Tabletop
