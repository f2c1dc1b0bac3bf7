import Tabletop.Compile.Error
import Tabletop.Script.Trigger

/-! Hats: the trigger of a script, read from the fields of the block on top of it. -/

namespace Tabletop.Hat

abbrev Reading := Head → Except CompileError Trigger

def broadcast : Reading := fun h => do return .broadcast (← h.need "BROADCAST_OPTION")

def property (h : Head) : Except CompileError TrackedProperty :=
  h.choose "PROPERTY" TrackedProperty.ofName?

def propertyChanged : Reading := fun h => do return .propertyChanged (← property h) .any

/-- The literal is read as the kind of value that the property has. -/
def propertyBecomes : Reading := fun h => do
  let p ← property h
  match p.literal? (h.text "VALUE") with
  | some v => return .propertyChanged p (.exactly v)
  | none => h.invalid "VALUE" (h.text "VALUE")

def attached : Trigger := .propertyChanged .attachedTo .defined

def detached : Trigger := .propertyChanged .attachedTo (.exactly .nothing)

def selected? : String → Option Bool
  | "SELECTED" => some true
  | "DESELECTED" => some false
  | _ => none

def selection : Reading := fun h => do return .selectionChanged (← h.choose "STATE" selected?)

def phase? : String → Option CollisionPhase
  | "START" => some .start
  | "END" => some .finish
  | _ => none

def touching : Reading := fun h => do return .collision (← h.choose "STATE" phase?)

/-- Whether a literal leaves the value open. -/
def isWildcard (s : String) : Bool :=
  let t := (Text.trim s).map Char.toLower
  t == "" || t == "any"

/-- The finite number that a literal spells. -/
def finite? (s : String) : Option Float :=
  (Decimal.read? (Text.trim s)).filter Float.isFinite

def diceRoll : Reading := fun h => do
  let die := h.text "DIE"
  let value := h.text "VALUE"
  let dieMatch : ValueMatch :=
    if isWildcard die then .any else .exactly (.text (Text.trim die))
  let valueMatch : ValueMatch ←
    if isWildcard value then pure .any
    else match finite? value with
      | some n => pure (.exactly (.number n))
      | none => h.invalid "VALUE" value
  return .signal "diceRoll" [("die", dieMatch), ("value", valueMatch)]

/-- A value that spells no number is compared as a text. -/
def phaseChanged : Reading := fun h => do
  let name ← h.need "PHASE_NAME"
  let value := h.text "VALUE"
  let valueMatch : ValueMatch :=
    if Text.trim value = "" then .any
    else match finite? value with
      | some n => .exactly (.number n)
      | none => .exactly (.text value)
  return .signal "phaseChanged" [("name", .exactly (.text name)), ("value", valueMatch)]

def doorState? : String → Option String
  | "OPEN" => some "open"
  | "CLOSED" => some "closed"
  | _ => none

def door : Reading := fun h => do
  return .signal "door" [("state", .exactly (.text (← h.choose "STATE" doorState?)))]

end Tabletop.Hat
