import Tabletop.Scene.Object

/-! What starts a script, with the criteria its hat was given. -/

namespace Tabletop

/-- How a trigger looks at a value. -/
inductive ValueMatch where
  | any
  | defined
  | exactly (v : Value)

namespace ValueMatch

/-- A text and a number are never the same value here, whatever the text spells. -/
def accepts : ValueMatch → Value → Bool
  | any, _ => true
  | defined, v => !v.isNothing
  | exactly wanted, v => wanted == v

def encode : ValueMatch → Document
  | any => .object [("match", .string "any")]
  | defined => .object [("match", .string "defined")]
  | exactly v => .object [("match", .string "exactly"), ("value", v.toDocument)]

/-- The three names, which stand apart from the value. -/
inductive Tag where
  | any | defined | exactly

def tags : List (String × Tag) := [("any", .any), ("defined", .defined), ("exactly", .exactly)]

/-- A match of a tag and the document under `value`; only `exactly` has a value. -/
def ofTag : Tag → Option Document → Option ValueMatch
  | .any, none => some any
  | .any, some .null => some any
  | .defined, none => some defined
  | .defined, some .null => some defined
  | .exactly, some d => (Value.decode d).map exactly
  | _, _ => none

def shape : Json.Shape := .record "enum ValueMatch" [("match", .name (tags.map (·.1)))]
  [("value", .any)]

/-- In a list the tag stands before the value, which may then not be missing. -/
def decode : Decoder ValueMatch
  | .array [tag, content] => do ofTag (← Decode.nameOrPlace tags tag) (some content)
  | .array _ => none
  | d => do
    let f ← Decode.fields shape.declared d
    ofTag (← f.need "match" (Decode.emptyName tags)) (f.found.lookup "value")

def format : Format ValueMatch := { shape, decode }

end ValueMatch

inductive CollisionPhase where
  | start | finish
  deriving DecidableEq, Repr

namespace CollisionPhase

def names : List (String × CollisionPhase) := [("start", start), ("end", finish)]

end CollisionPhase

/-- What starts a script. Signals are named by the application; each criterion looks at the payload
under its key. -/
inductive Trigger where
  | immediately
  | startAsClone
  | broadcast (name : String)
  | propertyChanged (property : TrackedProperty) (criterion : ValueMatch)
  | selectionChanged (selected : Bool)
  | collision (phase : CollisionPhase)
  | signal (name : String) (criteria : List (String × ValueMatch))

namespace Trigger

def label : Trigger → String
  | immediately => "immediately"
  | startAsClone => "startAsClone"
  | broadcast _ => "broadcast"
  | propertyChanged _ _ => "propertyChanged"
  | selectionChanged _ => "selectionChanged"
  | collision _ => "collision"
  | signal _ _ => "external"

/-- The label with what it is about. -/
def shown : Trigger → String
  | broadcast name => s!"broadcast({name})"
  | propertyChanged property _ => s!"propertyChanged({property.shown})"
  | selectionChanged selected => s!"selectionChanged({selected})"
  | collision .start => "collision(Start)"
  | collision .finish => "collision(End)"
  | signal name _ => s!"external({name})"
  | t => t.label

/-- The members of the object that a trigger is written as. -/
def members (t : Trigger) : List (String × Document) :=
  ("kind", .string t.label) :: match t with
    | immediately => []
    | startAsClone => []
    | broadcast name => [("name", .string name)]
    | propertyChanged property criterion =>
      [("property", .string property.shown), ("when", criterion.encode)]
    | selectionChanged selected => [("selected", .bool selected)]
    | collision .start => [("phase", .string "start")]
    | collision .finish => [("phase", .string "end")]
    | signal name criteria =>
      [("signal", .string name), ("criteria", .object (criteria.map fun c => (c.1, c.2.encode)))]

def encode (t : Trigger) : Document := .object t.members

/-- The labels in the order of declaration. -/
def labels : List String :=
  ["immediately", "startAsClone", "broadcast", "propertyChanged", "selectionChanged", "collision",
    "external"]

def properties : List (String × TrackedProperty) := TrackedProperty.all.map fun p => (p.shown, p)

/-- The trigger of a label, its other parts being the fields of `d`. -/
def ofLabel (label : String) (d : Document) : Option Trigger := do
  match label with
  | "immediately" =>
    let _ ← Decode.empty d
    return immediately
  | "startAsClone" =>
    let _ ← Decode.empty d
    return startAsClone
  | "broadcast" =>
    let f ← Decode.fields ["name"] d
    return broadcast (← f.need "name" Decode.string)
  | "propertyChanged" =>
    let f ← Decode.fields ["property", "when"] d
    let property ← f.need "property" (Decode.emptyName properties)
    return propertyChanged property (← f.need "when" ValueMatch.decode)
  | "selectionChanged" =>
    let f ← Decode.fields ["selected"] d
    return selectionChanged (← f.need "selected" Decode.bool)
  | "collision" =>
    let f ← Decode.fields ["phase"] d
    return collision (← f.need "phase" (Decode.emptyName CollisionPhase.names))
  | "external" =>
    let f ← Decode.fields ["signal", "criteria"] d
    let name ← f.need "signal" Decode.string
    return signal name (← f.need "criteria" (Decode.entries ValueMatch.decode))
  | _ => none

/-- The members but those with a key. -/
def without (k : String) (members : List (String × Document)) : List (String × Document) :=
  members.filter (·.1 != k)

/-- A trigger from an object with its label under `kind`, or from a list that starts with its
label. -/
def decode : Decoder Trigger
  | .object members => do
    let label ← Decode.string (← Decode.only "kind" members)
    ofLabel label (.object (without "kind" members))
  | .array (tag :: items) => do ofLabel (← Decode.string tag) (.array items)
  | _ => none

/-- All of a text is read before the label is looked for. -/
def format : Format Trigger := { shape := .any, decode }

end Trigger

/-- A hat and what it reacts to; all that an editor has to know of a script. -/
structure Descriptor where
  hat : String
  trigger : Trigger

namespace Descriptor

def encode (d : Descriptor) : Document :=
  .object (("hatId", .string d.hat) :: d.trigger.members)

/-- The trigger's members stand beside the hat. -/
def decode : Decoder Descriptor
  | .object members => do
    let hat ← Decode.string (← Decode.only "hatId" members)
    let others := Trigger.without "hatId" members
    let labels := Trigger.labels.map fun label => (label, label)
    let label ← Decode.nameOrPlace labels (← Decode.only "kind" others)
    return ⟨hat, ← Trigger.ofLabel label (.object (Trigger.without "kind" others))⟩
  | _ => none

def format : Format Descriptor := { shape := .any, decode }

end Descriptor

end Tabletop
