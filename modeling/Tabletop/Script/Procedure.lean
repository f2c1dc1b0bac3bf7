import Tabletop.Script.Stmt
import Tabletop.Script.Trigger
import Tabletop.Graph.Stored

/-! Compiled graphs. -/

namespace Tabletop

/-- A script and what starts it. -/
structure Handler where
  descriptor : Descriptor
  body : List Stmt

/-- What a graph compiles to: its scripts in the order of their hats, and the ids of its own
variables by slot. -/
structure Procedure where
  handlers : List Handler
  locals : List String
  hash : Hash

namespace Procedure

def descriptors (p : Procedure) : List Descriptor := p.handlers.map (·.descriptor)

/-- The hats of the scripts that run once after installation. -/
def immediateHats (p : Procedure) : List String :=
  p.descriptors.filterMap fun d => match d.trigger with
    | .immediately => some d.hat
    | _ => none

/-- The hats of the scripts that run on a fresh clone. -/
def cloneHats (p : Procedure) : List String :=
  p.descriptors.filterMap fun d => match d.trigger with
    | .startAsClone => some d.hat
    | _ => none

/-- The first script of a hat. -/
def handler? (p : Procedure) (hat : String) : Option Handler :=
  p.handlers.find? (·.descriptor.hat == hat)

end Procedure

end Tabletop
