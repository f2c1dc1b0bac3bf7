import Tabletop.Graph.Block

/-! Why a graph cannot be compiled. -/

namespace Tabletop

/-- What a block stands as. -/
inductive Place where
  | statement | value
  deriving DecidableEq, Repr

inductive CompileError where
  | unknownKind (block kind : String)
  | misplaced (block kind : String) (place : Place)
  | missingField (block field : String)
  | invalidField (block field value : String)
  deriving DecidableEq, Repr

namespace CompileError

def code : CompileError → String
  | unknownKind .. => "E101"
  | misplaced .. => "E102"
  | missingField .. => "E103"
  | invalidField .. => "E104"

/-- The id of the block at fault. -/
def block : CompileError → String
  | unknownKind block _ => block
  | misplaced block _ _ => block
  | missingField block _ => block
  | invalidField block _ _ => block

def message : CompileError → String
  | unknownKind block kind => s!"[E101] unknown block type `{kind}` (block `{block}`)"
  | misplaced block kind .statement =>
    s!"[E102] block `{block}` ({kind}) cannot be used as a statement"
  | misplaced block kind .value => s!"[E102] block `{block}` ({kind}) cannot be used as a value"
  | missingField block field => s!"[E103] block `{block}` is missing field `{field}`"
  | invalidField block field value =>
    s!"[E104] block `{block}` has invalid value `{value}` for field `{field}`"

end CompileError

/-- A block without what hangs from it. -/
structure Head where
  id : String
  kind : String
  fields : List (String × Json)

namespace Head

/-- The text of a field, if the block has it. -/
def text? (h : Head) (field : String) : Option String := Block.fieldText? field h.fields

/-- The text of a field, or none of it. -/
def text (h : Head) (field : String) : String := (h.text? field).getD ""

def need (h : Head) (field : String) : Except CompileError String :=
  match h.text? field with
  | some s => .ok s
  | none => .error (.missingField h.id field)

def invalid {α : Type} (h : Head) (field value : String) : Except CompileError α :=
  .error (.invalidField h.id field value)

/-- The choice that a field makes, if it makes one. -/
def choose {α : Type} (h : Head) (field : String) (choice? : String → Option α) :
    Except CompileError α := do
  let s ← h.need field
  match choice? s with
  | some a => return a
  | none => h.invalid field s

end Head

end Tabletop
