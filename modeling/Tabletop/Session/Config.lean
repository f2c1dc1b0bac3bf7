import Tabletop.Json.Format
import Tabletop.Text.Blank

/-! The settings of a session. -/

namespace Tabletop

structure Config where
  /-- Milliseconds from the first queued write to its flush. -/
  flushInterval : Nat := 16
  /-- Milliseconds between two looks of a glide or a wait. -/
  frameInterval : Nat := 16
  /-- The loop iterations that one execution may spend. -/
  loopGuard : Nat := 100000
  /-- The key of an object's stored behavior. -/
  behaviorKey : String := "piecescript/behavior"
  /-- The key that marks a fresh clone. -/
  cloneFlagKey : String := "piecescript/clone"
  /-- The key of the object that a clone was made from. -/
  cloneSourceKey : String := "piecescript/cloneOf"
  /-- The key of the scene's resources. -/
  resourcesKey : String := "piecescript/resources"

namespace Config

/-- A frame takes a millisecond at least. -/
def frame (c : Config) : Nat := max c.frameInterval 1

def encode (c : Config) : Document := .object
  [("flushIntervalMs", .ofNat c.flushInterval), ("frameIntervalMs", .ofNat c.frameInterval),
    ("loopGuard", .ofNat c.loopGuard), ("behaviorKey", .string c.behaviorKey),
    ("cloneFlagKey", .string c.cloneFlagKey), ("cloneSourceKey", .string c.cloneSourceKey),
    ("resourcesKey", .string c.resourcesKey)]

def shape : Json.Shape := .record "struct SessionConfig" []
  [("flushIntervalMs", .count), ("frameIntervalMs", .count), ("loopGuard", .count),
    ("behaviorKey", .text), ("cloneFlagKey", .text), ("cloneSourceKey", .text),
    ("resourcesKey", .text)]

def decode : Decoder Config := fun d => do
  let f ← Decode.fields shape.declared d
  let plain : Config := {}
  return {
    flushInterval := ← f.get "flushIntervalMs" Decode.count plain.flushInterval
    frameInterval := ← f.get "frameIntervalMs" Decode.count plain.frameInterval
    loopGuard := ← f.get "loopGuard" Decode.count plain.loopGuard
    behaviorKey := ← f.get "behaviorKey" Decode.string plain.behaviorKey
    cloneFlagKey := ← f.get "cloneFlagKey" Decode.string plain.cloneFlagKey
    cloneSourceKey := ← f.get "cloneSourceKey" Decode.string plain.cloneSourceKey
    resourcesKey := ← f.get "resourcesKey" Decode.string plain.resourcesKey }

def format : Format Config := { shape, decode }

/-- A count written in digits, which may have a plus before them. -/
def readCount? (s : String) : Option Nat :=
  let digits := match s.toList with
    | '+' :: rest => rest
    | all => all
  if digits.isEmpty || !digits.all Char.isDigit then none
  else
    let n := digits.foldl (fun n c => 10 * n + (c.toNat - '0'.toNat)) 0
    if n < Nat.pow 2 64 then some n else none

/-- Takes the loop guard from a variable of the environment, if that is set and readable. -/
def withGuardFrom (environment : Option String) (c : Config) : Config :=
  match environment.bind fun s => readCount? (Text.trim s) with
  | some n => { c with loopGuard := n }
  | none => c

/-- An interval given in microseconds counts by its whole milliseconds. -/
def withFlushInterval (microseconds : Nat) (c : Config) : Config :=
  { c with flushInterval := microseconds / 1000 }

def withFrameInterval (microseconds : Nat) (c : Config) : Config :=
  { c with frameInterval := microseconds / 1000 }

end Config

end Tabletop
