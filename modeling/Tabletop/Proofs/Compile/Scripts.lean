import Tabletop.Proofs.Compile.Slots

/-! The scripts of a graph: its hats that have a successor, in the order of the top level. They are
what the graph compiles to, each to a handler with its own hat. -/

namespace Tabletop

def Rule.isHat : Rule → Bool
  | hat _ => true
  | _ => false

/-- A top-level block as a script: a hat, with the block that follows it. -/
def Block.script? (b : Block) : Option (Block × Block) :=
  match BlockKind.ofTag? b.kind with
  | some kind => if kind.rule.isHat then b.next.map fun first => (b, first) else none
  | none => none

/-- The hats of a graph that have a successor, each with its own. -/
def Graph.scripts (g : Graph) : List (Block × Block) := g.blocks.filterMap Block.script?

namespace Compile

variable {globals : List String}

theorem liftM_eq_ok {α : Type} {x : Except CompileError α} {s s' : List String} {a : α} :
    (liftM x : Compiling α) s = .ok (a, s') ↔ x = .ok a ∧ s' = s := by
  cases x with
  | error e => exact ⟨nofun, nofun⟩
  | ok b =>
    constructor
    · rintro ⟨⟩
      exact ⟨rfl, rfl⟩
    · rintro ⟨⟨⟩, rfl⟩
      rfl

/-- A top-level block is passed over, or it is a script that compiles to a handler. -/
theorem topLevel_cases {b : Block} {s s' : List String} {found : Option Handler}
    (hb : topLevel globals b s = .ok (found, s')) :
    (b.script? = none ∧ found = none ∧ s' = s) ∨
    ∃ first trigger body, b.script? = some (b, first) ∧
      found = some ⟨⟨b.id, trigger⟩, body⟩ ∧
      (meaning globals first).body s = .ok (body, s') := by
  obtain ⟨rule, s₁, hlift, h⟩ := bind_eq_ok.mp hb
  obtain ⟨hrule, rfl⟩ := liftM_eq_ok.mp hlift
  have hs : b.script? = if rule.isHat then b.next.map fun first => (b, first) else none := by
    simp only [ruleOf] at hrule
    split at hrule
    · next kind hkind => cases hrule; simp only [Block.script?, hkind]
    · cases hrule
  generalize b.next = next at h hs
  cases rule with
  | hat trigger =>
    cases next with
    | none =>
      cases h
      exact .inl ⟨hs, rfl, rfl⟩
    | some first =>
      obtain ⟨t, s₂, ht, hrest⟩ := bind_eq_ok.mp h
      obtain ⟨-, rfl⟩ := liftM_eq_ok.mp ht
      obtain ⟨body, s₃, hbody, hlast⟩ := bind_eq_ok.mp hrest
      cases hlast
      exact .inr ⟨first, t, body, hs, rfl, hbody⟩
  | statement | reporter =>
    cases h
    exact .inl ⟨hs, rfl, rfl⟩

/-- The handlers have the hats of the scripts. -/
theorem hats_topLevels {blocks : List Block} {s s' : List String} {handlers : List Handler}
    (h : topLevels globals blocks s = .ok (handlers, s')) :
    handlers.map (·.descriptor.hat) = (blocks.filterMap Block.script?).map (·.1.id) := by
  induction blocks generalizing s handlers with
  | nil => cases h; rfl
  | cons b rest ih =>
    obtain ⟨found, s₁, hfound, h⟩ := bind_eq_ok.mp h
    obtain ⟨later, s₂, hlater, h⟩ := bind_eq_ok.mp h
    cases h
    rcases topLevel_cases hfound with ⟨hb, rfl, -⟩ | ⟨first, trigger, body, hb, rfl, -⟩
    · simpa [List.filterMap_cons, hb] using ih hlater
    · simpa [List.filterMap_cons, hb] using ih hlater

end Compile

namespace Graph

variable {hasher : Hasher} {globals : List String} {g : Graph} {p : Procedure}

/-- What compiled came from the top-level blocks, from the first slot on. -/
theorem topLevels_of_compile (hp : g.compile hasher globals = .ok p) :
    Compile.topLevels globals g.blocks [] = .ok (p.handlers, p.locals) := by
  simp only [compile, StateT.run, bind, Except.bind] at hp
  split at hp
  · cases hp
  · next r hr => cases hp; exact hr

theorem hats_of_compile (hp : g.compile hasher globals = .ok p) :
    p.handlers.map (·.descriptor.hat) = g.scripts.map (·.1.id) :=
  Compile.hats_topLevels (topLevels_of_compile hp)

end Graph

end Tabletop
