import Mathlib.Data.List.Perm.Basic

/-! Binary trees of slots, and the same trees with a hole. A hole is described by the forks above
it, the nearest first, each with the subtree on its other side. -/

namespace Tabletop.Space

inductive Shape where
  | leaf (i : Nat)
  | fork (i : Nat) (l r : Shape)

namespace Shape

def slot : Shape → Nat
  | leaf i => i
  | fork i _ _ => i

def slots : Shape → List Nat
  | leaf i => [i]
  | fork i l r => i :: (l.slots ++ r.slots)

def leaves : Shape → List Nat
  | leaf i => [i]
  | fork _ l r => l.leaves ++ r.leaves

@[simp] theorem slot_leaf (i : Nat) : (leaf i).slot = i := rfl

@[simp] theorem slot_fork (i : Nat) (l r : Shape) : (fork i l r).slot = i := rfl

theorem slot_mem_slots (s : Shape) : s.slot ∈ s.slots := by
  cases s <;> simp [slot, slots]

theorem leaves_sublist_slots (s : Shape) : s.leaves.Sublist s.slots := by
  induction s with
  | leaf i => exact .refl _
  | fork i l r hl hr => exact .cons _ (hl.append hr)

end Shape

/-- A fork above a hole: whether the hole is on its left, and what is on its other side. -/
structure Crumb where
  fork : Nat
  left : Bool
  other : Shape

namespace Crumb

/-- The subtree of the fork, with the hole filled. -/
def join (c : Crumb) (s : Shape) : Shape :=
  if c.left then .fork c.fork s c.other else .fork c.fork c.other s

/-- The children of the fork, when a slot fills the hole. -/
def children (c : Crumb) (hole : Nat) : Nat × Nat :=
  if c.left then (hole, c.other.slot) else (c.other.slot, hole)

def slots (c : Crumb) : List Nat := c.fork :: c.other.slots

theorem children_cases {c : Crumb} {hole l r : Nat} (h : c.children hole = (l, r)) :
    (l = hole ∧ r = c.other.slot) ∨ (l = c.other.slot ∧ r = hole) := by
  simp only [children] at h
  split at h <;> cases h
  · exact .inl ⟨rfl, rfl⟩
  · exact .inr ⟨rfl, rfl⟩

@[simp] theorem slot_join (c : Crumb) (s : Shape) : (c.join s).slot = c.fork := by
  simp only [join]; split <;> rfl

theorem perm_slots_join (c : Crumb) (s : Shape) : (c.join s).slots.Perm (c.slots ++ s.slots) := by
  simp only [join, slots]
  split
  · exact (List.perm_append_comm).cons _
  · exact .refl _

theorem perm_leaves_join (c : Crumb) (s : Shape) :
    (c.join s).leaves.Perm (c.other.leaves ++ s.leaves) := by
  simp only [join]
  split
  · exact List.perm_append_comm
  · exact .refl _

end Crumb

/-- Fills the hole below some forks. -/
def plug : List Crumb → Shape → Shape
  | [], s => s
  | c :: up, s => plug up (c.join s)

/-- The fork right above a hole. -/
def above (up : List Crumb) : Option Nat := up.head?.map (·.fork)

/-- The slots around a hole. -/
def around (up : List Crumb) : List Nat := up.flatMap Crumb.slots

@[simp] theorem above_nil : above [] = none := rfl

@[simp] theorem above_cons (c : Crumb) (up : List Crumb) : above (c :: up) = some c.fork := rfl

@[simp] theorem around_cons (c : Crumb) (up : List Crumb) :
    around (c :: up) = c.slots ++ around up := rfl

theorem length_le_around (up : List Crumb) : up.length ≤ (around up).length := by
  induction up with
  | nil => simp
  | cons c up ih =>
    simp only [around_cons, Crumb.slots, List.length_cons, List.length_append]
    omega

theorem perm_slots_plug (up : List Crumb) (s : Shape) :
    (plug up s).slots.Perm (around up ++ s.slots) := by
  induction up generalizing s with
  | nil => exact .refl _
  | cons c up ih =>
    have h := (ih (c.join s)).trans ((c.perm_slots_join s).append_left (around up))
    refine h.trans ?_
    rw [← List.append_assoc, around_cons]
    exact List.perm_append_comm.append_right _

theorem perm_leaves_plug (up : List Crumb) (s : Shape) :
    (plug up s).leaves.Perm (up.flatMap (·.other.leaves) ++ s.leaves) := by
  induction up generalizing s with
  | nil => exact .refl _
  | cons c up ih =>
    have h := (c.perm_leaves_join s).append_left (up.flatMap (·.other.leaves))
    refine ((ih _).trans h).trans ?_
    rw [← List.append_assoc, List.flatMap_cons]
    exact List.perm_append_comm.append_right _

/-- What fills the hole does not change the root, unless there is nothing around it. -/
theorem slot_plug {up : List Crumb} (hup : up ≠ []) (s s' : Shape) :
    (plug up s).slot = (plug up s').slot := by
  induction up generalizing s s' with
  | nil => exact absurd rfl hup
  | cons c up ih =>
    simp only [plug]
    by_cases h : up = []
    · subst h; simp [plug]
    · exact ih h _ _

theorem slot_plug_mem (c : Crumb) (up : List Crumb) (s : Shape) :
    (plug (c :: up) s).slot ∈ around (c :: up) := by
  induction up generalizing c s with
  | nil => simp [plug, Crumb.slots]
  | cons d up ih =>
    rw [around_cons]
    exact List.mem_append_right _ (ih d (c.join s))

/-- Every slot of a tree is the root of a part of it. -/
theorem exists_plug {s : Shape} {i : Nat} (hi : i ∈ s.slots) :
    ∃ up x, s = plug up x ∧ x.slot = i := by
  suffices ∀ up, ∃ up' x, plug up s = plug up' x ∧ x.slot = i from this []
  induction s with
  | leaf j =>
    exact fun up => ⟨up, .leaf j, rfl, by simpa [Shape.slots, Shape.slot, eq_comm] using hi⟩
  | fork j l r hl hr =>
    intro up
    rcases List.mem_cons.mp hi with rfl | hi
    · exact ⟨up, .fork i l r, rfl, rfl⟩
    · rcases List.mem_append.mp hi with hi | hi
      · exact hl hi (⟨j, true, r⟩ :: up)
      · exact hr hi (⟨j, false, l⟩ :: up)

theorem exists_plug_leaf {s : Shape} {i : Nat} (hi : i ∈ s.leaves) :
    ∃ up, s = plug up (.leaf i) := by
  suffices ∀ up, ∃ up', plug up s = plug up' (.leaf i) from this []
  induction s with
  | leaf j =>
    obtain rfl := List.mem_singleton.mp hi
    exact fun up => ⟨up, rfl⟩
  | fork j l r hl hr =>
    intro up
    rcases List.mem_append.mp hi with hi | hi
    · exact hl hi (⟨j, true, r⟩ :: up)
    · exact hr hi (⟨j, false, l⟩ :: up)

end Tabletop.Space
