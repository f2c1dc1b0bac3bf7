/-! Sets of names, as strictly increasing lists. -/

namespace Tabletop.Names

def insert (x : String) : List String → List String
  | [] => [x]
  | y :: rest =>
    if x < y then x :: y :: rest
    else if y < x then y :: insert x rest
    else y :: rest

/-- The set of the names in a list. -/
def ofList (xs : List String) : List String := xs.foldl (fun set x => insert x set) []

/-- The names of the first set that are not in the second. -/
def minus (a b : List String) : List String := a.filter fun x => !b.contains x

end Tabletop.Names
