import Tabletop.Compile.Basic

/-! A cache of compiled graphs, keyed by the hash of a graph and its globals. Every compiled graph
has a number of its own, so that two holders can tell whether they hold the same one. -/

namespace Tabletop

/-- A compiled graph with its number. -/
structure Compiled where
  number : Nat
  procedure : Procedure

structure ProcedureCache where
  entries : List (Hash × Compiled) := []
  hits : Nat := 0
  misses : Nat := 0

namespace ProcedureCache

/-- The compiled graph from the cache, or else compiled now; a failure counts as a miss. -/
def getOrCompile (hasher : Hasher) (globals : List String) (g : Graph) (c : ProcedureCache) :
    Except CompileError Compiled × ProcedureCache :=
  let hash := hasher (g.hashed globals)
  match c.entries.lookup hash with
  | some p => (.ok p, { c with hits := c.hits + 1 })
  | none =>
    let missed := { c with misses := c.misses + 1 }
    match g.compile hasher globals with
    | .error e => (.error e, missed)
    | .ok procedure =>
      let p : Compiled := ⟨missed.misses, procedure⟩
      (.ok p, { missed with entries := (hash, p) :: missed.entries })

def contains (hash : Hash) (c : ProcedureCache) : Bool := (c.entries.lookup hash).isSome

/-- Drops what nobody holds any more, `held` telling the numbers that are. -/
def prune (held : Nat → Bool) (c : ProcedureCache) : ProcedureCache :=
  { c with entries := c.entries.filter fun e => held e.2.number }

/-- How many entries pruning drops. -/
def pruned (held : Nat → Bool) (c : ProcedureCache) : Nat :=
  c.entries.length - (c.prune held).entries.length

def clear (c : ProcedureCache) : ProcedureCache := { c with entries := [] }

end ProcedureCache

end Tabletop
