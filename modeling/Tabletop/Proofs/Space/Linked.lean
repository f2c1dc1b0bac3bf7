import Tabletop.Proofs.Space.Shape
import Tabletop.Space.Tree

/-! The nodes of a tree of boxes, linked as a shape says. Around a hole the links are right but the
boxes and heights may be out of date; refitting from the hole up makes them right. -/

namespace Tabletop.Space.Tree

variable {α : Type}

@[simp] theorem size_modifyNode (t : Tree α) (i : Nat) (f : Node α → Node α) :
    (t.modifyNode i f).nodes.size = t.nodes.size := by
  simp [modifyNode]

variable [Inhabited α]

/-! ### Nodes -/

theorem node_of_lt {t : Tree α} {i : Nat} (hi : i < t.nodes.size) : t.node i = t.nodes[i] := by
  simp [node, hi]

theorem node_modifyNode (t : Tree α) {i : Nat} (hi : i < t.nodes.size) (f : Node α → Node α)
    (j : Nat) : (t.modifyNode i f).node j = if i = j then f (t.node j) else t.node j := by
  by_cases hj : j < t.nodes.size
  · rw [node_of_lt (t := t.modifyNode i f) (by simpa using hj), node_of_lt hj]
    simp only [modifyNode, Array.getElem_modify]
  · have hij : i ≠ j := by omega
    simp [node, modifyNode, hj, hij]

theorem node_modifyNode_ne (t : Tree α) {i j : Nat} (hij : i ≠ j) (f : Node α → Node α) :
    (t.modifyNode i f).node j = t.node j := by
  by_cases hi : i < t.nodes.size
  · rw [node_modifyNode t hi, if_neg hij]
  · have : t.nodes.modify i f = t.nodes := by
      refine Array.ext (by simp) fun k hk _ => ?_
      rw [Array.size_modify] at hk
      rw [Array.getElem_modify, if_neg (by omega)]
    simp [node, modifyNode, this]

theorem links_modifyNode (t : Tree α) (i j : Nat) (f : Node α → Node α)
    (hf : ∀ n, (f n).parent = n.parent ∧ (f n).children = n.children) :
    ((t.modifyNode i f).node j).parent = (t.node j).parent ∧
      ((t.modifyNode i f).node j).children = (t.node j).children := by
  by_cases hij : i = j
  · subst hij
    by_cases hi : i < t.nodes.size
    · rw [node_modifyNode t hi, if_pos rfl]
      exact hf _
    · simp [node, hi]
  · rw [node_modifyNode_ne t hij]
    exact ⟨rfl, rfl⟩

variable [Coordinate α]

/-! ### Links -/

/-- The nodes of a shape, below a parent. Each fork has the box around its children, and is one
higher than the higher one of them. -/
def Linked (t : Tree α) (parent : Option Nat) : Shape → Prop
  | .leaf i => i < t.nodes.size ∧ (t.node i).parent = parent ∧ (t.node i).children = none ∧
      (t.node i).height = 0
  | .fork i l r => i < t.nodes.size ∧ (t.node i).parent = parent ∧
      (t.node i).children = some (l.slot, r.slot) ∧
      (t.node i).box = (t.node l.slot).box.union (t.node r.slot).box ∧
      (t.node i).height = 1 + max (t.node l.slot).height (t.node r.slot).height ∧
      Linked t (some i) l ∧ Linked t (some i) r

/-- The forks above a hole that a slot fills, boxes and heights aside. -/
def Open (t : Tree α) : List Crumb → Nat → Prop
  | [], _ => True
  | c :: up, hole => c.fork < t.nodes.size ∧ (t.node c.fork).parent = above up ∧
      (t.node c.fork).children = some (c.children hole) ∧ Linked t (some c.fork) c.other ∧
      Open t up c.fork

variable {t t' : Tree α} {parent : Option Nat} {s : Shape} {up : List Crumb} {hole : Nat}

theorem Linked.lt (h : Linked t parent s) : ∀ i ∈ s.slots, i < t.nodes.size := by
  induction s generalizing parent with
  | leaf i => simpa [Shape.slots] using h.1
  | fork i l r hl hr =>
    obtain ⟨hi, -, -, -, -, hll, hrr⟩ := h
    intro j hj
    rcases List.mem_cons.mp hj with rfl | hj
    · exact hi
    · exact (List.mem_append.mp hj).elim (hl hll j) (hr hrr j)

theorem Linked.parent_slot (h : Linked t parent s) : (t.node s.slot).parent = parent := by
  cases s with
  | leaf i => exact h.2.1
  | fork i l r => exact h.2.1

theorem Linked.node_leaf (h : Linked t parent s) :
    ∀ i ∈ s.leaves, (t.node i).children = none ∧ (t.node i).height = 0 := by
  induction s generalizing parent with
  | leaf i => simpa [Shape.leaves] using h.2.2
  | fork i l r hl hr =>
    obtain ⟨-, -, -, -, -, hll, hrr⟩ := h
    intro j hj
    exact (List.mem_append.mp hj).elim (hl hll j) (hr hrr j)

/-- Links are a matter of the nodes of the shape alone; at its root the parent may differ. -/
theorem Linked.congr {parent' : Option Nat} (h : Linked t parent s)
    (hsize : t.nodes.size ≤ t'.nodes.size) (hs : s.slots.Nodup)
    (hroot : t'.node s.slot = { t.node s.slot with parent := parent' })
    (hnode : ∀ i ∈ s.slots, i ≠ s.slot → t'.node i = t.node i) : Linked t' parent' s := by
  induction s generalizing parent parent' with
  | leaf i =>
    obtain ⟨hi, -, hc, hh⟩ := h
    simp only [Shape.slot] at hroot
    exact ⟨by omega, by rw [hroot], by rw [hroot]; exact hc, by rw [hroot]; exact hh⟩
  | fork i l r hl hr =>
    obtain ⟨hi, -, hc, hb, hh, hll, hrr⟩ := h
    obtain ⟨hni, hlr⟩ := List.nodup_cons.mp hs
    obtain ⟨hnl, hnr, -⟩ := List.nodup_append.mp hlr
    have hbelow (j : Nat) (hj : j ∈ l.slots ++ r.slots) : t'.node j = t.node j :=
      hnode j (List.mem_cons_of_mem _ hj) fun e => hni (by rw [e] at hj; exact hj)
    have hleft (j : Nat) (hj : j ∈ l.slots) := hbelow j (List.mem_append_left _ hj)
    have hright (j : Nat) (hj : j ∈ r.slots) := hbelow j (List.mem_append_right _ hj)
    have hlroot := hleft _ l.slot_mem_slots
    have hrroot := hright _ r.slot_mem_slots
    simp only [Shape.slot] at hroot
    refine ⟨by omega, by rw [hroot], by rw [hroot]; exact hc, ?_, ?_, ?_, ?_⟩
    · rw [hroot, hlroot, hrroot]; exact hb
    · rw [hroot, hlroot, hrroot]; exact hh
    · refine hl hll hnl ?_ fun j hj _ => hleft j hj
      rw [hlroot, ← hll.parent_slot]
    · refine hr hrr hnr ?_ fun j hj _ => hright j hj
      rw [hrroot, ← hrr.parent_slot]

theorem Linked.frame (h : Linked t parent s) (hsize : t.nodes.size ≤ t'.nodes.size)
    (hs : s.slots.Nodup) (hnode : ∀ i ∈ s.slots, t'.node i = t.node i) : Linked t' parent s :=
  h.congr hsize hs (by rw [hnode _ s.slot_mem_slots, ← h.parent_slot]) fun i hi _ => hnode i hi

theorem Open.frame (h : Open t up hole) (hsize : t.nodes.size ≤ t'.nodes.size)
    (hs : (around up).Nodup) (hnode : ∀ i ∈ around up, t'.node i = t.node i) :
    Open t' up hole := by
  induction up generalizing hole with
  | nil => trivial
  | cons c up ih =>
    obtain ⟨hlt, hp, hc, ho, hup⟩ := h
    rw [around_cons] at hs hnode
    obtain ⟨hsc, hsu, -⟩ := List.nodup_append.mp hs
    have hfork := hnode c.fork (by simp [Crumb.slots])
    have hother (i : Nat) (hi : i ∈ c.other.slots) := hnode i (by simp [Crumb.slots, hi])
    refine ⟨by omega, by rw [hfork]; exact hp, by rw [hfork]; exact hc, ?_, ?_⟩
    · exact ho.frame hsize (List.nodup_cons.mp hsc).2 hother
    · exact ih hup hsu fun i hi => hnode i (List.mem_append_right _ hi)

theorem Open.above_ne (h : Open t up hole) {i : Nat} (hi : (t.node i).children = none) :
    above up ≠ some i := by
  cases up with
  | nil => nofun
  | cons c up =>
    rintro e
    cases e
    simp [h.2.2.1] at hi

/-- Fills the hole below a single fork. -/
theorem Linked.join {c : Crumb} {l r : Nat} (hs : Linked t (some c.fork) s)
    (ho : Linked t (some c.fork) c.other) (hlt : c.fork < t.nodes.size)
    (hp : (t.node c.fork).parent = parent) (hlr : c.children s.slot = (l, r))
    (hc : (t.node c.fork).children = some (l, r))
    (hb : (t.node c.fork).box = (t.node l).box.union (t.node r).box)
    (hh : (t.node c.fork).height = 1 + max (t.node l).height (t.node r).height) :
    Linked t parent (c.join s) := by
  unfold Crumb.join
  split
  · next hl =>
    obtain ⟨rfl, rfl⟩ : s.slot = l ∧ c.other.slot = r := by simpa [Crumb.children, hl] using hlr
    exact ⟨hlt, hp, hc, hb, hh, hs, ho⟩
  · next hl =>
    obtain ⟨rfl, rfl⟩ : c.other.slot = l ∧ s.slot = r := by simpa [Crumb.children, hl] using hlr
    exact ⟨hlt, hp, hc, hb, hh, ho, hs⟩

/-- A linked tree, taken apart at a hole. -/
theorem Linked.unplug (h : Linked t none (plug up s)) :
    Linked t (above up) s ∧ Open t up s.slot := by
  induction up generalizing s with
  | nil => exact ⟨h, trivial⟩
  | cons c up ih =>
    obtain ⟨hj, hup⟩ := ih h
    rw [Crumb.slot_join] at hup
    rcases hc : c.left with _ | _
    · simp only [Crumb.join, hc] at hj
      obtain ⟨hi, hp, hch, -, -, hl, hr⟩ := hj
      exact ⟨hr, hi, hp, by simpa [Crumb.children, hc] using hch, hl, hup⟩
    · simp only [Crumb.join, hc] at hj
      obtain ⟨hi, hp, hch, -, -, hl, hr⟩ := hj
      exact ⟨hl, hi, hp, by simpa [Crumb.children, hc] using hch, hr, hup⟩

/-! ### Refitting -/

theorem refit_none (fuel : Nat) (t : Tree α) : refit fuel none t = t := by
  cases fuel <;> rfl

theorem refit_some {i l r : Nat} (fuel : Nat) (hc : (t.node i).children = some (l, r)) :
    refit (fuel + 1) (some i) t = refit fuel (t.node i).parent (t.modifyNode i fun n =>
      { n with
        box := (t.node l).box.union (t.node r).box
        height := 1 + max (t.node l).height (t.node r).height }) := by
  simp only [refit, hc]

/-- Refitting keeps all but the boxes and heights of forks. -/
theorem refit_keeps (fuel : Nat) (i : Option Nat) (t : Tree α) :
    (refit fuel i t).nodes.size = t.nodes.size ∧ (refit fuel i t).free = t.free ∧
      (refit fuel i t).root = t.root ∧ (refit fuel i t).leaves = t.leaves ∧
      ∀ j, (t.node j).children = none → (refit fuel i t).node j = t.node j := by
  induction fuel generalizing i t with
  | zero => cases i <;> simp [refit]
  | succ fuel ih =>
    cases i with
    | none => simp [refit]
    | some i =>
      cases hc : (t.node i).children with
      | none => simp [refit, hc]
      | some c =>
        rw [refit_some fuel hc]
        obtain ⟨h₁, h₂, h₃, h₄, h₅⟩ := ih (t.node i).parent (t.modifyNode i fun n =>
          { n with
            box := (t.node c.1).box.union (t.node c.2).box
            height := 1 + max (t.node c.1).height (t.node c.2).height })
        refine ⟨by rw [h₁, size_modifyNode], h₂, h₃, h₄, fun j hj => ?_⟩
        have hij : i ≠ j := by rintro rfl; simp [hc] at hj
        rw [h₅ j (by rw [node_modifyNode_ne t hij]; exact hj), node_modifyNode_ne t hij]

theorem refit_links (fuel : Nat) (i : Option Nat) (t : Tree α) (j : Nat) :
    ((refit fuel i t).node j).parent = (t.node j).parent ∧
      ((refit fuel i t).node j).children = (t.node j).children := by
  induction fuel generalizing i t with
  | zero => cases i <;> exact ⟨rfl, rfl⟩
  | succ fuel ih =>
    cases i with
    | none => exact ⟨rfl, rfl⟩
    | some i =>
      cases hc : (t.node i).children with
      | none => simp [refit, hc]
      | some c =>
        rw [refit_some fuel hc]
        let f : Node α → Node α := fun n =>
          { n with
            box := (t.node c.1).box.union (t.node c.2).box
            height := 1 + max (t.node c.1).height (t.node c.2).height }
        obtain ⟨hparent, hchildren⟩ := ih (t.node i).parent (t.modifyNode i f)
        obtain ⟨hparent', hchildren'⟩ := links_modifyNode t i j f fun _ => ⟨rfl, rfl⟩
        exact ⟨hparent.trans hparent', hchildren.trans hchildren'⟩

/-- Refitting from a hole up makes the whole tree right. -/
theorem Linked.refit {fuel : Nat} (h : Linked t (above up) s) (hup : Open t up s.slot)
    (hs : (plug up s).slots.Nodup) (hfuel : up.length ≤ fuel) :
    Linked (Tree.refit fuel (above up) t) none (plug up s) := by
  induction up generalizing t s fuel with
  | nil => rw [above_nil, refit_none]; exact h
  | cons c up ih =>
    obtain ⟨fuel, rfl⟩ : ∃ n, fuel = n + 1 := ⟨fuel - 1, by simp at hfuel; omega⟩
    obtain ⟨hlt, hp, hc, ho, hup⟩ := hup
    have hn := (perm_slots_plug (c :: up) s).nodup_iff.mp hs
    obtain ⟨l, r, hlr⟩ : ∃ l r, c.children s.slot = (l, r) := ⟨_, _, rfl⟩
    rw [hlr] at hc
    rw [above_cons, refit_some fuel hc, hp]
    simp only [around_cons, Crumb.slots, List.cons_append, List.nodup_cons, List.mem_append,
      List.nodup_append, not_or] at hn
    obtain ⟨⟨⟨hfo, hfu⟩, hfs⟩, ⟨hno, hnu, -⟩, hns, -⟩ := hn
    generalize ht' : t.modifyNode c.fork _ = t'
    have hsize : t'.nodes.size = t.nodes.size := by rw [← ht', size_modifyNode]
    have hle := Nat.le_of_eq hsize.symm
    have hfork : t'.node c.fork =
        { t.node c.fork with
          box := (t.node l).box.union (t.node r).box
          height := 1 + max (t.node l).height (t.node r).height } := by
      rw [← ht', node_modifyNode t hlt, if_pos rfl]
    have hnode (j : Nat) (hj : c.fork ≠ j) : t'.node j = t.node j := by
      rw [← ht', node_modifyNode_ne t hj]
    have hframe {l : List Nat} (hl : c.fork ∉ l) (j : Nat) (hj : j ∈ l) : t'.node j = t.node j :=
      hnode j fun e => hl (e ▸ hj)
    have hsub := h.frame hle hns (hframe hfs)
    have hother := ho.frame hle hno (hframe hfo)
    refine ih ?_ ?_ hs (by simpa using hfuel)
    · have hslot := hframe hfs _ s.slot_mem_slots
      have hslot' := hframe hfo _ c.other.slot_mem_slots
      have hchildren : t'.node l = t.node l ∧ t'.node r = t.node r := by
        obtain ⟨rfl, rfl⟩ | ⟨rfl, rfl⟩ := Crumb.children_cases hlr
        · exact ⟨hslot, hslot'⟩
        · exact ⟨hslot', hslot⟩
      refine hsub.join hother (by omega) (by rw [hfork]; exact hp) hlr (by rw [hfork]; exact hc)
        ?_ ?_
      · rw [hfork, hchildren.1, hchildren.2]
      · rw [hfork, hchildren.1, hchildren.2]
    · rw [Crumb.slot_join]
      exact hup.frame hle hnu (hframe hfu)

end Tabletop.Space.Tree
