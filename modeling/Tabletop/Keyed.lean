/-! Entries with keys, in the order in which the keys first came. -/

namespace Tabletop.Keyed

variable {α : Type}

/-- Puts an entry at the end, or in the place of the one with the same key. -/
def put (k : String) (a : α) : List (String × α) → List (String × α)
  | [] => [(k, a)]
  | e :: rest => if e.1 = k then (k, a) :: rest else e :: put k a rest

/-- Takes the entry of a key out. -/
def erase (k : String) (entries : List (String × α)) : List (String × α) :=
  entries.filter fun e => e.1 != k

/-- Changes the entry of a key where it stands. -/
def modify (k : String) (f : α → α) (entries : List (String × α)) : List (String × α) :=
  entries.map fun e => if e.1 = k then (e.1, f e.2) else e

def has (k : String) (entries : List (String × α)) : Bool := entries.any (·.1 == k)

def keys (entries : List (String × α)) : List String := entries.map (·.1)

end Tabletop.Keyed
