import Tabletop.Script.Expr
import Tabletop.Keyed

/-! The variables of scripts: those that the scene shares, and numbered tables of those that belong
to one object. What was never written is nothing. -/

namespace Tabletop

structure Variables where
  shared : List (String × Value) := []
  tables : List (Nat × List Value) := []

namespace Variables

/-- Puts a value into a slot, after as many empty ones as it takes. -/
def setSlot : Nat → Value → List Value → List Value
  | 0, x, [] => [x]
  | 0, x, _ :: rest => x :: rest
  | n + 1, x, [] => .nothing :: setSlot n x []
  | n + 1, x, v :: rest => v :: setSlot n x rest

def table (m : Variables) (t : Nat) : List Value := (m.tables.lookup t).getD []

/-- The value of a variable, as a script with table `t` sees it. -/
def read (m : Variables) (t : Nat) : Variable → Value
  | .slot n => ((m.table t)[n]?).getD .nothing
  | .shared id => (m.shared.lookup id).getD .nothing

/-- Puts a table in the place of the one with its number. -/
def putTable (t : Nat) (values : List Value) : List (Nat × List Value) → List (Nat × List Value)
  | [] => [(t, values)]
  | e :: rest => if e.1 = t then (t, values) :: rest else e :: putTable t values rest

def assign (m : Variables) (t : Nat) (x : Value) : Variable → Variables
  | .slot n => { m with tables := putTable t (setSlot n x (m.table t)) m.tables }
  | .shared id => { m with shared := Keyed.put id x m.shared }

/-- Gives a shared variable its first value, unless it has one. -/
def declare (m : Variables) (id : String) (x : Value) : Variables :=
  if Keyed.has id m.shared then m else { m with shared := Keyed.put id x m.shared }

end Variables

end Tabletop
