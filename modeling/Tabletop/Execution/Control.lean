import Tabletop.Scene.Host

/-! What ends an execution from outside: its cancellation, and the guard against loops that do not
end. -/

namespace Tabletop

/-- Why an execution ended early. -/
inductive ExecError where
  /-- No failure: the execution was stopped, or another run took its place. -/
  | cancelled
  | exhausted
  | missingObject (id : String)
  | host (e : HostError)
  deriving DecidableEq, Repr

namespace ExecError

def message : ExecError → String
  | cancelled => "execution cancelled"
  | exhausted => "exhausted loop iterations"
  | missingObject id => s!"object `{id}` no longer exists"
  | host e => e.message

def isCancellation (e : ExecError) : Bool := e == .cancelled

end ExecError

/-- The runs that were cancelled. Who may cancel a run and who has to stop both know it by its
number. -/
structure Cancellations where
  runs : List Nat := []

namespace Cancellations

def has (c : Cancellations) (run : Nat) : Bool := c.runs.contains run

/-- Cancels a run; a second time changes nothing. -/
def cancel (run : Nat) (c : Cancellations) : Cancellations :=
  if c.has run then c else ⟨run :: c.runs⟩

/-- Goes on unless the run was cancelled. -/
def check (c : Cancellations) (run : Nat) : Except ExecError Unit :=
  if c.has run then .error .cancelled else .ok ()

/-- Forgets a run that is over. -/
def forget (run : Nat) (c : Cancellations) : Cancellations := ⟨c.runs.filter (· != run)⟩

end Cancellations

/-- The loop iterations that one execution may still spend, in all of its loops together. -/
structure LoopGuard where
  remaining : Nat
  deriving DecidableEq, Repr

namespace LoopGuard

/-- Spends an iteration. -/
def tick : LoopGuard → Except ExecError LoopGuard
  | ⟨0⟩ => .error .exhausted
  | ⟨n + 1⟩ => .ok ⟨n⟩

end LoopGuard

end Tabletop
