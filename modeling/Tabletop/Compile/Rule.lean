import Tabletop.Compile.Catalog
import Tabletop.Compile.Hat
import Tabletop.Compile.Recipe

/-! The rule of each block kind. Only hats start scripts, statements stand in chains, and reporters
fill slots. -/

namespace Tabletop

inductive Rule where
  | hat (trigger : Head → Except CompileError Trigger)
  | statement (recipe : Head → Recipe Stmt)
  | reporter (recipe : Head → Recipe Expr)

namespace Rule

def shape : Rule → String
  | hat _ => "hat"
  | statement _ => "statement"
  | reporter _ => "reporter"

open Recipe

/-- The layers that an object can be moved to. -/
def layers : List String :=
  ["MAP", "GRID", "DRAWING", "PROP", "MOUNT", "CHARACTER", "ATTACHMENT", "NOTE", "TEXT"]

def layer? (s : String) : Option String :=
  let upper := s.map Char.toUpper
  if layers.contains upper then some upper else none

def truth? (s : String) : Option Bool :=
  match s.map Char.toUpper with
  | "TRUE" => some true
  | "FALSE" => some false
  | _ => none

def stopScope? : String → Option StopScope
  | "this script" | "THIS" => some .thisScript
  | "other scripts in sprite" | "OTHER" => some .otherScripts
  | "all" | "ALL" => some .all
  | _ => none

def effect (e : Recipe Effect) : Rule := statement fun _ => do return .effect (← e)

/-- An effect that is chosen by a field. -/
def fieldEffect {α : Type} (field : String) (choice? : String → Option α) (e : α → Effect) : Rule :=
  statement fun h => do return .effect (e (← check (h.choose field choice?)))

def report (e : Recipe Expr) : Rule := reporter fun _ => e

def constant (e : Expr) : Rule := report (give e)

def arith (op : ArithOp) : Rule :=
  report do return .arith op (← number "NUM1") (← number "NUM2")

def compare (op : CompareOp) : Rule :=
  report do return .compare op (← text "OPERAND1") (← text "OPERAND2")

/-- A menu holds its choice in one field. -/
def menu (field : String) : Rule := reporter fun h => do return .ofText (← check (h.need field))

/-- The number in a literal block, under the rule for reading any value as a number. -/
def literalNumber (h : Head) : Expr :=
  match h.fields.lookup "NUM" with
  | some j => .ofNumber (Value.ofJson j).toNumber
  | none => .ofNumber 0.0

/-- A variable that a field names; the name may not be empty. -/
def variableOf (h : Head) : Recipe Variable := do
  let id ← check (h.need "VARIABLE")
  if id = "" then refuse (.invalidField h.id "VARIABLE" id) else .variable id give

def ifElse (withElse : Bool) : Rule := statement fun _ => do
  let condition ← Recipe.condition "CONDITION"
  let yes ← statements "SUBSTACK"
  let no ← if withElse then statements "SUBSTACK2" else give []
  return .ifElse condition yes no

def sound (wait : Bool) : Rule := effect do return .playSound (← text "SOUND_MENU") wait

def broadcastTarget (h : Head) : Recipe BroadcastTarget := do
  let target ← check (h.need "TARGET")
  match target with
  | "SELF" => return .onlySelf
  | "ATTACHMENTS" => return .attachments
  | "OBJECT" => return .object (← text "OBJECT")
  | _ => refuse (.invalidField h.id "TARGET" target)

end Rule

open Recipe in
/-- The rule of a kind. -/
def BlockKind.rule : BlockKind → Rule
  | eventImmediately => .hat fun _ => .ok .immediately
  | controlStartAsClone => .hat fun _ => .ok .startAsClone
  | eventWhenBroadcastReceived => .hat Hat.broadcast
  | eventWhenPropertyChanged => .hat Hat.propertyChanged
  | eventWhenPropertyBecomes => .hat Hat.propertyBecomes
  | eventWhenAttached => .hat fun _ => .ok Hat.attached
  | eventWhenDetached => .hat fun _ => .ok Hat.detached
  | eventWhenSelected => .hat Hat.selection
  | eventWhenTouchingObject => .hat Hat.touching
  | extensionWhenDiceRoll => .hat Hat.diceRoll
  | extensionWhenPhaseChanged => .hat Hat.phaseChanged
  | extensionWhenDoor => .hat Hat.door
  | motionGoToXY => .effect do return .goTo (← number "X") (← number "Y")
  | motionChangeXBy => .effect do return .changeX (← number "DX")
  | motionChangeYBy => .effect do return .changeY (← number "DY")
  | motionSetX => .effect do return .setX (← number "X")
  | motionSetY => .effect do return .setY (← number "Y")
  | motionTurnRight => .effect do return .turn (← number "DEGREES") true
  | motionTurnLeft => .effect do return .turn (← number "DEGREES") false
  | motionPointInDirection => .effect do return .pointInDirection (← number "DIRECTION")
  | motionMoveSteps => .effect do return .moveSteps (← number "STEPS")
  | motionGlideSecsToXY => .effect do
    return .glide (← number "SECS") (← number "X") (← number "Y")
  | motionGoToObject => .effect do return .goToObject (← text "OBJECT")
  | motionXPosition => .constant .xPosition
  | motionYPosition => .constant .yPosition
  | motionDirection => .constant .direction
  | looksShow => .effect (give (.setVisible true))
  | looksHide => .effect (give (.setVisible false))
  | looksSetSizeTo => .effect do return .setSize (← number "SIZE")
  | looksChangeSizeBy => .effect do return .changeSize (← number "CHANGE")
  | looksSetText => .effect do return .setText (← text "TEXT")
  | looksSetLayer => .fieldEffect "LAYER" Rule.layer? .setLayer
  | looksGoToFront => .effect (give (.arrange .front))
  | looksGoToBack => .effect (give (.arrange .back))
  | looksSetLocked => .fieldEffect "LOCKED" Rule.truth? .setLocked
  | looksSize => .constant .size
  | looksText => .constant .text
  | looksVisible => .constant .visible
  | soundPlay => .sound false
  | soundPlayUntilDone => .sound true
  | soundStopAllSounds => .effect (give .stopSounds)
  | soundSoundsMenu => .menu "SOUND_MENU"
  | tagsAdd => .effect do return .addTag (← text "TAG")
  | tagsRemove => .effect do return .removeTag (← text "TAG")
  | tagsHasTag => .report do return .hasTag (← text "TAG")
  | eventBroadcast => .statement fun _ => do
    return .broadcast (← text "BROADCAST_INPUT") .everyone
  | eventBroadcastTo => .statement fun h => do
    return .broadcast (← text "BROADCAST_INPUT") (← Rule.broadcastTarget h)
  | eventBroadcastMenu => .menu "BROADCAST_OPTION"
  | controlWait => .statement fun _ => do return .wait (← number "DURATION")
  | controlRepeat => .statement fun _ => do
    return .repeated (← number "TIMES") (← statements "SUBSTACK")
  | controlForever => .statement fun _ => do return .forever (← statements "SUBSTACK")
  | controlIf => .ifElse false
  | controlIfElse => .ifElse true
  | controlWaitUntil => .statement fun _ => do return .waitUntil (← condition "CONDITION")
  | controlRepeatUntil => .statement fun _ => do
    return .repeatUntil (← condition "CONDITION") (← statements "SUBSTACK")
  | controlStop => .statement fun h => do
    return .stop (← check (h.choose "STOP_OPTION" Rule.stopScope?))
  | controlCreateCloneOfMyself => .effect (give .cloneSelf)
  | controlDeleteThisClone => .effect (give .deleteSelf)
  | sensingTouchingObject => .report do return .touching (← text "OBJECT")
  | sensingDistanceTo => .report do return .distanceTo (← text "OBJECT")
  | sensingOtherObject => .constant .otherObject
  | sensingMyId => .constant .myId
  | sensingOf => .reporter fun h => do
    let property ← check (h.choose "PROPERTY" ObjectProperty.ofName?)
    return .propertyOf property (← text "OBJECT")
  | sensingTimer => .constant .timer
  | sensingObjectMenu => .menu "OBJECT"
  | operatorAdd => .arith .add
  | operatorSubtract => .arith .sub
  | operatorMultiply => .arith .mul
  | operatorDivide => .arith .div
  | operatorMod => .arith .mod
  | operatorRandom => .report do return .random (← number "FROM") (← number "TO")
  | operatorGt => .compare .gt
  | operatorLt => .compare .lt
  | operatorEquals => .compare .eq
  | operatorAnd => .report do return .and (← condition "OPERAND1") (← condition "OPERAND2")
  | operatorOr => .report do return .or (← condition "OPERAND1") (← condition "OPERAND2")
  | operatorNot => .report do return .not (← condition "OPERAND")
  | operatorJoin => .report do return .join (← text "STRING1") (← text "STRING2")
  | operatorLetterOf => .report do
    return .letterOf (← number "LETTER") (← text "STRING")
  | operatorLength => .report do return .length (← text "STRING")
  | operatorContains => .report do
    return .contains (← text "STRING1") (← text "STRING2")
  | operatorRound => .report do return .round (← number "NUM")
  | operatorMathOp => .reporter fun h => do
    let f ← check (h.choose "OPERATOR" MathFn.ofName?)
    return .math f (← number "NUM")
  | dataVariable => .reporter fun h => do return .variable (← Rule.variableOf h)
  | dataSetVariableTo => .statement fun h => do
    return .setVariable (← Rule.variableOf h) (← text "VALUE")
  | dataChangeVariableBy => .statement fun h => do
    return .changeVariable (← Rule.variableOf h) (← number "VALUE")
  | mathNumber | mathWholeNumber | mathPositiveNumber | mathAngle =>
    .reporter fun h => give (Rule.literalNumber h)
  | textLiteral => .reporter fun h => give (.ofText (h.text "TEXT"))
  | logicBoolean => .reporter fun h => do return .ofBool (← check (h.choose "BOOL" Rule.truth?))

end Tabletop
