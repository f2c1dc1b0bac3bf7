import Tabletop.Compile.Rule
import Tabletop.Script.Procedure
import Tabletop.Names

/-! Compiling graphs. Only top-level hats that have a successor become scripts; all else at the top
level is passed over, though its kind has to be known. Variables that are not shared get slots in
the order in which they first come up. -/

namespace Tabletop

namespace Compile

/-- A compilation that may fail, and that may give new variables their slots. -/
abbrev Compiling := StateT (List String) (Except CompileError)

/-- The variable of an id: a shared one by its id, any other by its slot, a new one by the next. -/
def resolve (globals : List String) (id : String) : Compiling Variable := fun locals =>
  if globals.contains id then .ok (.shared id, locals)
  else match locals.idxOf? id with
    | some n => .ok (.slot n, locals)
    | none => .ok (.slot locals.length, locals ++ [id])

/-- What a block means where a value is wanted, and where statements are. -/
structure Meaning where
  value : Compiling Expr
  body : Compiling (List Stmt)

/-- Follows a recipe, `slots` telling what stands in the slots of its block. -/
def follow {α : Type} (globals : List String) (slots : List (String × Meaning)) :
    Recipe α → Compiling α
  | .give a => pure a
  | .refuse e => throw e
  | .value slot empty next =>
    match slots.lookup slot with
    | some m => do follow globals slots (next (← m.value))
    | none => follow globals slots (next (.literal empty))
  | .body slot next =>
    match slots.lookup slot with
    | some m => do follow globals slots (next (← m.body))
    | none => follow globals slots (next [])
  | .variable id next => do follow globals slots (next (← resolve globals id))

/-- The rule of a block. -/
def ruleOf (h : Head) : Except CompileError Rule :=
  match BlockKind.ofTag? h.kind with
  | some kind => .ok kind.rule
  | none => .error (.unknownKind h.id h.kind)

def valueOf (globals : List String) (h : Head) (slots : List (String × Meaning)) :
    Compiling Expr := do
  match ← ruleOf h with
  | .reporter recipe => follow globals slots (recipe h)
  | _ => throw (.misplaced h.id h.kind .value)

def statementOf (globals : List String) (h : Head) (slots : List (String × Meaning)) :
    Compiling Stmt := do
  match ← ruleOf h with
  | .statement recipe => follow globals slots (recipe h)
  | _ => throw (.misplaced h.id h.kind .statement)

mutual

/-- The meaning of a block, given by those of the blocks in its slots and of its successor. -/
def meaning (globals : List String) : Block → Meaning
  | ⟨id, kind, fields, inputs, next⟩ =>
    let h : Head := ⟨id, kind, fields⟩
    let slots := meanings globals inputs
    let rest := meaningNext globals next
    { value := valueOf globals h slots
      body := do return (← statementOf globals h slots) :: (← rest) }

def meanings (globals : List String) : List (String × Block) → List (String × Meaning)
  | [] => []
  | (slot, b) :: rest => (slot, meaning globals b) :: meanings globals rest

def meaningNext (globals : List String) : Option Block → Compiling (List Stmt)
  | none => pure []
  | some b => (meaning globals b).body

end

/-- The script of a top-level block, if it is a hat with a successor. -/
def topLevel (globals : List String) (b : Block) : Compiling (Option Handler) := do
  let h : Head := ⟨b.id, b.kind, b.fields⟩
  match ← ruleOf h, b.next with
  | .hat trigger, some first => do
    let t ← trigger h
    return some ⟨⟨b.id, t⟩, ← (meaning globals first).body⟩
  | _, _ => return none

/-- The scripts of top-level blocks. -/
def topLevels (globals : List String) : List Block → Compiling (List Handler)
  | [] => return []
  | b :: rest => do
    let handler ← topLevel globals b
    return handler.toList ++ (← topLevels globals rest)

end Compile

/-- Compiles a graph; `globals` is the set of the ids of shared variables. -/
def Graph.compile (hasher : Hasher) (globals : List String) (g : Graph) :
    Except CompileError Procedure := do
  let (handlers, locals) ← (Compile.topLevels globals g.blocks).run []
  return ⟨handlers, locals, hasher (g.hashed globals)⟩

end Tabletop
