import Tabletop.Compile.Error
import Tabletop.Script.Stmt

/-! Recipes: what a block is made of, as the slots it reads one after another. What stands in a slot
is compiled when the recipe is followed, so a recipe itself never looks below its block. -/

namespace Tabletop

inductive Recipe (α : Type) where
  | give (a : α)
  | refuse (e : CompileError)
  /-- The value in a slot, or a literal where the slot is empty. -/
  | value (slot : String) (empty : Value) (next : Expr → Recipe α)
  /-- The statements in a slot. -/
  | body (slot : String) (next : List Stmt → Recipe α)
  /-- A variable of the script. -/
  | variable (id : String) (next : Variable → Recipe α)

namespace Recipe

variable {α β : Type}

def bind : Recipe α → (α → Recipe β) → Recipe β
  | give a, f => f a
  | refuse e, _ => refuse e
  | value slot empty next, f => value slot empty fun e => (next e).bind f
  | body slot next, f => body slot fun b => (next b).bind f
  | «variable» id next, f => «variable» id fun v => (next v).bind f

instance : Monad Recipe where
  pure := give
  bind := bind

/-- A static check of the block's fields. -/
def check : Except CompileError α → Recipe α
  | .ok a => give a
  | .error e => refuse e

def number (slot : String) : Recipe Expr := value slot (.number 0.0) give

def text (slot : String) : Recipe Expr := value slot (.text "") give

def condition (slot : String) : Recipe Expr := value slot (.bool false) give

def statements (slot : String) : Recipe (List Stmt) := body slot give

end Recipe

end Tabletop
