/-! The closed set of block kinds, each with the tag that graphs name it by. -/

namespace Tabletop

inductive BlockKind where
  | eventImmediately | controlStartAsClone | eventWhenBroadcastReceived
  | eventWhenPropertyChanged | eventWhenPropertyBecomes | eventWhenAttached | eventWhenDetached
  | eventWhenSelected | eventWhenTouchingObject | extensionWhenDiceRoll
  | extensionWhenPhaseChanged | extensionWhenDoor
  | motionGoToXY | motionChangeXBy | motionChangeYBy | motionSetX | motionSetY | motionTurnRight
  | motionTurnLeft | motionPointInDirection | motionMoveSteps | motionGlideSecsToXY
  | motionGoToObject | motionXPosition | motionYPosition | motionDirection
  | looksShow | looksHide | looksSetSizeTo | looksChangeSizeBy | looksSetText | looksSetLayer
  | looksGoToFront | looksGoToBack | looksSetLocked | looksSize | looksText | looksVisible
  | soundPlay | soundPlayUntilDone | soundStopAllSounds | soundSoundsMenu
  | tagsAdd | tagsRemove | tagsHasTag
  | eventBroadcast | eventBroadcastTo | eventBroadcastMenu
  | controlWait | controlRepeat | controlForever | controlIf | controlIfElse | controlWaitUntil
  | controlRepeatUntil | controlStop | controlCreateCloneOfMyself | controlDeleteThisClone
  | sensingTouchingObject | sensingDistanceTo | sensingOtherObject | sensingMyId | sensingOf
  | sensingTimer | sensingObjectMenu
  | operatorAdd | operatorSubtract | operatorMultiply | operatorDivide | operatorMod
  | operatorRandom | operatorGt | operatorLt | operatorEquals | operatorAnd | operatorOr
  | operatorNot | operatorJoin | operatorLetterOf | operatorLength | operatorContains
  | operatorRound | operatorMathOp
  | dataVariable | dataSetVariableTo | dataChangeVariableBy
  | mathNumber | mathWholeNumber | mathPositiveNumber | mathAngle | textLiteral | logicBoolean
  deriving DecidableEq, Repr

namespace BlockKind

def all : List BlockKind := [
  eventImmediately, controlStartAsClone, eventWhenBroadcastReceived, eventWhenPropertyChanged,
  eventWhenPropertyBecomes, eventWhenAttached, eventWhenDetached, eventWhenSelected,
  eventWhenTouchingObject, extensionWhenDiceRoll, extensionWhenPhaseChanged, extensionWhenDoor,
  motionGoToXY, motionChangeXBy, motionChangeYBy, motionSetX, motionSetY, motionTurnRight,
  motionTurnLeft, motionPointInDirection, motionMoveSteps, motionGlideSecsToXY, motionGoToObject,
  motionXPosition, motionYPosition, motionDirection, looksShow, looksHide, looksSetSizeTo,
  looksChangeSizeBy, looksSetText, looksSetLayer, looksGoToFront, looksGoToBack, looksSetLocked,
  looksSize, looksText, looksVisible, soundPlay, soundPlayUntilDone, soundStopAllSounds,
  soundSoundsMenu, tagsAdd, tagsRemove, tagsHasTag, eventBroadcast, eventBroadcastTo,
  eventBroadcastMenu, controlWait, controlRepeat, controlForever, controlIf, controlIfElse,
  controlWaitUntil, controlRepeatUntil, controlStop, controlCreateCloneOfMyself,
  controlDeleteThisClone, sensingTouchingObject, sensingDistanceTo, sensingOtherObject,
  sensingMyId, sensingOf, sensingTimer, sensingObjectMenu, operatorAdd, operatorSubtract,
  operatorMultiply, operatorDivide, operatorMod, operatorRandom, operatorGt, operatorLt,
  operatorEquals, operatorAnd, operatorOr, operatorNot, operatorJoin, operatorLetterOf,
  operatorLength, operatorContains, operatorRound, operatorMathOp, dataVariable,
  dataSetVariableTo, dataChangeVariableBy, mathNumber, mathWholeNumber, mathPositiveNumber,
  mathAngle, textLiteral, logicBoolean]

/-- The name of a kind in graphs. -/
def tag : BlockKind → String
  | eventImmediately => "event_immediately"
  | controlStartAsClone => "control_start_as_clone"
  | eventWhenBroadcastReceived => "event_whenbroadcastreceived"
  | eventWhenPropertyChanged => "event_whenpropertychanged"
  | eventWhenPropertyBecomes => "event_whenpropertybecomes"
  | eventWhenAttached => "event_whenattached"
  | eventWhenDetached => "event_whendetached"
  | eventWhenSelected => "event_whenselected"
  | eventWhenTouchingObject => "event_whentouchingobject"
  | extensionWhenDiceRoll => "extension_whendiceroll"
  | extensionWhenPhaseChanged => "extension_whenphasechanged"
  | extensionWhenDoor => "extension_whendoor"
  | motionGoToXY => "motion_gotoxy"
  | motionChangeXBy => "motion_changexby"
  | motionChangeYBy => "motion_changeyby"
  | motionSetX => "motion_setx"
  | motionSetY => "motion_sety"
  | motionTurnRight => "motion_turnright"
  | motionTurnLeft => "motion_turnleft"
  | motionPointInDirection => "motion_pointindirection"
  | motionMoveSteps => "motion_movesteps"
  | motionGlideSecsToXY => "motion_glidesecstoxy"
  | motionGoToObject => "motion_gotoobject"
  | motionXPosition => "motion_xposition"
  | motionYPosition => "motion_yposition"
  | motionDirection => "motion_direction"
  | looksShow => "looks_show"
  | looksHide => "looks_hide"
  | looksSetSizeTo => "looks_setsizeto"
  | looksChangeSizeBy => "looks_changesizeby"
  | looksSetText => "looks_settext"
  | looksSetLayer => "looks_setlayer"
  | looksGoToFront => "looks_gotofront"
  | looksGoToBack => "looks_gotoback"
  | looksSetLocked => "looks_setlocked"
  | looksSize => "looks_size"
  | looksText => "looks_text"
  | looksVisible => "looks_visible"
  | soundPlay => "sound_play"
  | soundPlayUntilDone => "sound_playuntildone"
  | soundStopAllSounds => "sound_stopallsounds"
  | soundSoundsMenu => "sound_sounds_menu"
  | tagsAdd => "tags_add"
  | tagsRemove => "tags_remove"
  | tagsHasTag => "tags_hastag"
  | eventBroadcast => "event_broadcast"
  | eventBroadcastTo => "event_broadcastto"
  | eventBroadcastMenu => "event_broadcast_menu"
  | controlWait => "control_wait"
  | controlRepeat => "control_repeat"
  | controlForever => "control_forever"
  | controlIf => "control_if"
  | controlIfElse => "control_if_else"
  | controlWaitUntil => "control_wait_until"
  | controlRepeatUntil => "control_repeat_until"
  | controlStop => "control_stop"
  | controlCreateCloneOfMyself => "control_create_clone_of_myself"
  | controlDeleteThisClone => "control_delete_this_clone"
  | sensingTouchingObject => "sensing_touchingobject"
  | sensingDistanceTo => "sensing_distanceto"
  | sensingOtherObject => "sensing_otherobject"
  | sensingMyId => "sensing_myid"
  | sensingOf => "sensing_of"
  | sensingTimer => "sensing_timer"
  | sensingObjectMenu => "sensing_objectmenu"
  | operatorAdd => "operator_add"
  | operatorSubtract => "operator_subtract"
  | operatorMultiply => "operator_multiply"
  | operatorDivide => "operator_divide"
  | operatorMod => "operator_mod"
  | operatorRandom => "operator_random"
  | operatorGt => "operator_gt"
  | operatorLt => "operator_lt"
  | operatorEquals => "operator_equals"
  | operatorAnd => "operator_and"
  | operatorOr => "operator_or"
  | operatorNot => "operator_not"
  | operatorJoin => "operator_join"
  | operatorLetterOf => "operator_letter_of"
  | operatorLength => "operator_length"
  | operatorContains => "operator_contains"
  | operatorRound => "operator_round"
  | operatorMathOp => "operator_mathop"
  | dataVariable => "data_variable"
  | dataSetVariableTo => "data_setvariableto"
  | dataChangeVariableBy => "data_changevariableby"
  | mathNumber => "math_number"
  | mathWholeNumber => "math_whole_number"
  | mathPositiveNumber => "math_positive_number"
  | mathAngle => "math_angle"
  | textLiteral => "text"
  | logicBoolean => "logic_boolean"

/-- The kind of a tag. -/
def ofTag? (s : String) : Option BlockKind := all.find? (·.tag == s)

end BlockKind

end Tabletop
