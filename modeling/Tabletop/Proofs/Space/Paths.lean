import Tabletop.Proofs.Space.Calls

/-! How the nodes of a tree of boxes lie in their array, told by the paths down from the root. Every
slot is free or at the end of one path, and the nodes on the paths are one leaf for each id and the
forks that hold the leaves together. -/

namespace Tabletop.Space

/-! ### Paths in a shape -/

namespace Shape

/-- The part at the end of a path, which says at each fork whether it goes left. -/
def part? : Shape → List Bool → Option Shape
  | s, [] => some s
  | leaf _, _ :: _ => none
  | fork _ l r, left :: path => if left then l.part? path else r.part? path

theorem slot_mem_of_part? {s x : Shape} {path : List Bool} (h : s.part? path = some x) :
    x.slot ∈ s.slots := by
  induction s generalizing path with
  | leaf i =>
    cases path with
    | nil => exact Option.some.inj h ▸ slot_mem_slots _
    | cons left path => nomatch h
  | fork i l r hl hr =>
    cases path with
    | nil => exact Option.some.inj h ▸ slot_mem_slots _
    | cons left path =>
      cases left with
      | true => exact List.mem_cons_of_mem _ (List.mem_append_left _ (hl h))
      | false => exact List.mem_cons_of_mem _ (List.mem_append_right _ (hr h))

/-- One path leads to each slot. -/
theorem existsUnique_path {s : Shape} (hs : s.slots.Nodup) {i : Nat} (hi : i ∈ s.slots) :
    ∃! path, (s.part? path).map slot = some i := by
  have hmem {s : Shape} {path : List Bool} (h : (s.part? path).map slot = some i) :
      i ∈ s.slots := by
    obtain ⟨x, hx, rfl⟩ := Option.map_eq_some_iff.mp h
    exact slot_mem_of_part? hx
  induction s with
  | leaf j =>
    obtain rfl := List.mem_singleton.mp hi
    refine ⟨[], rfl, fun path hpath => ?_⟩
    cases path with
    | nil => rfl
    | cons left path => nomatch hpath
  | fork j l r hl hr =>
    obtain ⟨hj, hlr⟩ := List.nodup_cons.mp hs
    obtain ⟨hnl, hnr, hdisjoint⟩ := List.nodup_append.mp hlr
    rcases List.mem_cons.mp hi with rfl | hi
    · refine ⟨[], rfl, fun path hpath => ?_⟩
      rcases path with _ | ⟨_ | _, path⟩
      · rfl
      · exact absurd (List.mem_append_right _ (hmem (s := r) hpath)) hj
      · exact absurd (List.mem_append_left _ (hmem (s := l) hpath)) hj
    · have hne : j ≠ i := fun e => hj (e ▸ hi)
      rcases List.mem_append.mp hi with hi | hi
      · obtain ⟨path, hpath, hunique⟩ := hl hnl hi
        refine ⟨true :: path, hpath, fun path' hpath' => ?_⟩
        rcases path' with _ | ⟨_ | _, path'⟩
        · exact absurd (Option.some.inj hpath') hne
        · exact absurd rfl (hdisjoint i hi i (hmem hpath'))
        · exact congrArg _ (hunique path' hpath')
      · obtain ⟨path, hpath, hunique⟩ := hr hnr hi
        refine ⟨false :: path, hpath, fun path' hpath' => ?_⟩
        rcases path' with _ | ⟨_ | _, path'⟩
        · exact absurd (Option.some.inj hpath') hne
        · exact congrArg _ (hunique path' hpath')
        · exact absurd rfl (hdisjoint i (hmem hpath') i hi)

end Shape

namespace Tree

variable {α : Type} [Inhabited α]

/-! ### Paths in the array -/

/-- The child of a node on one side. -/
def child? (t : Tree α) (left : Bool) (i : Nat) : Option Nat :=
  (t.node i).children.map fun c => if left then c.1 else c.2

/-- The slot at the end of a path down from a slot. -/
def walk? (t : Tree α) : List Bool → Nat → Option Nat
  | [], i => some i
  | left :: path, i => (t.child? left i).bind (walk? t path)

/-- The slot at the end of a path down from the root. -/
def at? (t : Tree α) (path : List Bool) : Option Nat := t.root.bind (t.walk? path)

/-- A path from the root leads to the slot. -/
def Reaches (t : Tree α) (i : Nat) : Prop := ∃ path, t.at? path = some i

/-- The slots that are not free. -/
def used (t : Tree α) : List Nat := (List.range t.nodes.size).filter fun i => !t.free.contains i

/-- A tree whose links are in order, with `n` leaves, one for each id, and `n - 1` forks. -/
structure Laid (t : Tree α) : Prop where
  /-- Each slot is free once, or else one path leads to it. -/
  slot : ∀ i < t.nodes.size, (t.free.count i = 1 ∧ ¬t.Reaches i) ∨
    (t.free.count i = 0 ∧ ∃! path, t.at? path = some i)
  /-- Nothing else is free or led to. -/
  bound : ∀ i, i ∈ t.free ∨ t.Reaches i → i < t.nodes.size
  ids : (Keyed.keys t.leaves).Nodup
  leaves : t.used.countP (fun i => (t.node i).children.isNone) = t.size
  forks : t.used.countP (fun i => (t.node i).children.isSome) = t.size - 1
  /-- An id is kept with the leaf that holds it. -/
  key : ∀ id i, t.leaves.lookup id = some i ↔
    t.Reaches i ∧ (t.node i).children = none ∧ (t.node i).key = some id
  top : ∀ i, t.Reaches i → ((t.node i).parent = none ↔ t.root = some i)
  /-- A node is a child of its parent, and the parent of its children. -/
  parent : ∀ i, t.Reaches i → ∀ j, (t.node i).parent = some j ↔
    t.Reaches j ∧ ∃ left, t.child? left j = some i
  bottom : ∀ i, t.Reaches i → (t.node i).children = none → (t.node i).height = 0
  height : ∀ i, t.Reaches i → ∀ l r, (t.node i).children = some (l, r) →
    (t.node i).height = 1 + max (t.node l).height (t.node r).height

section

variable [Coordinate α] {t : Tree α} {loose : List Nat} {s : Option Shape}

theorem Linked.walk? {parent : Option Nat} {x : Shape} (h : Linked t parent x) (path : List Bool) :
    t.walk? path x.slot = (x.part? path).map Shape.slot := by
  induction x generalizing parent path with
  | leaf i =>
    cases path with
    | nil => rfl
    | cons left path => simp [Tree.walk?, child?, Shape.part?, h.2.2.1]
  | fork i l r hl hr =>
    obtain ⟨-, -, hc, -, -, hll, hrr⟩ := h
    cases path with
    | nil => rfl
    | cons left path =>
      simp only [Tree.walk?, child?, Shape.slot_fork, hc, Option.map_some, Option.bind_some]
      cases left with
      | true => exact hl hll path
      | false => exact hr hrr path

theorem Holds.at? (h : Holds t loose s) (path : List Bool) :
    t.at? path = s.bind fun x => (x.part? path).map Shape.slot := by
  rw [Tree.at?, h.root]
  cases s with
  | none => rfl
  | some x => exact (h.linked x rfl).walk? path

theorem Holds.existsUnique_path (h : Holds t loose s) {i : Nat} (hi : i ∈ slotsOf s) :
    ∃! path, t.at? path = some i := by
  cases s with
  | none => nomatch hi
  | some x =>
    simp only [h.at?]
    exact Shape.existsUnique_path h.nodup_slots hi

theorem Holds.reaches_iff (h : Holds t loose s) {i : Nat} : t.Reaches i ↔ i ∈ slotsOf s := by
  constructor
  · rintro ⟨path, hpath⟩
    rw [h.at?] at hpath
    obtain ⟨x, rfl, hx⟩ := Option.bind_eq_some_iff.mp hpath
    obtain ⟨y, hy, rfl⟩ := Option.map_eq_some_iff.mp hx
    exact Shape.slot_mem_of_part? hy
  · exact fun hi => (h.existsUnique_path hi).exists

/-- A slot that a path leads to, with the forks above it and the part below. -/
theorem Holds.exists_open (h : Holds t loose s) {i : Nat} (hi : t.Reaches i) :
    ∃ up y, s = some (plug up y) ∧ y.slot = i ∧ Linked t (above up) y ∧ Open t up i := by
  have hmem := h.reaches_iff.mp hi
  cases s with
  | none => nomatch hmem
  | some x =>
    obtain ⟨up, y, rfl, rfl⟩ := exists_plug hmem
    obtain ⟨hy, hup⟩ := (h.linked _ rfl).unplug
    exact ⟨up, y, rfl, rfl, hy, hup⟩

theorem Holds.perm_used (h : Holds t [] s) : t.used.Perm (slotsOf s) := by
  have hn := h.nodup
  rw [List.nil_append] at hn
  have hfree : t.free.filter (fun i => !t.free.contains i) = [] :=
    List.filter_eq_nil_iff.mpr fun i hi => by simp [hi]
  have hkept : (slotsOf s).filter (fun i => !t.free.contains i) = slotsOf s :=
    List.filter_eq_self.mpr fun i hi => by
      simpa using fun hf => (List.nodup_append.mp hn).2.2 i hf i hi rfl
  have hperm := h.slots.filter fun i => !t.free.contains i
  rw [List.nil_append, List.filter_append, hfree, hkept, List.nil_append] at hperm
  exact hperm.symm

/-- One more leaf than forks. -/
theorem Linked.countP {parent : Option Nat} {x : Shape} (h : Linked t parent x) :
    x.slots.countP (fun i => (t.node i).children.isNone) = x.leaves.length ∧
      x.slots.countP (fun i => (t.node i).children.isSome) + 1 = x.leaves.length := by
  induction x generalizing parent with
  | leaf i => simp [Shape.slots, Shape.leaves, h.2.2.1]
  | fork i l r hl hr =>
    obtain ⟨-, -, hc, -, -, hll, hrr⟩ := h
    obtain ⟨hl₁, hl₂⟩ := hl hll
    obtain ⟨hr₁, hr₂⟩ := hr hrr
    simp only [Shape.slots, Shape.leaves, List.countP_cons, List.countP_append, List.length_append,
      hc, Option.isNone_some, Option.isSome_some, Bool.false_eq_true, ↓reduceIte]
    omega

theorem Holds.countP (h : Holds t [] s) :
    t.used.countP (fun i => (t.node i).children.isNone) = (leavesOf s).length ∧
      t.used.countP (fun i => (t.node i).children.isSome) = (leavesOf s).length - 1 := by
  rw [h.perm_used.countP_eq, h.perm_used.countP_eq]
  cases s with
  | none => exact ⟨rfl, rfl⟩
  | some x =>
    obtain ⟨hleaves, hforks⟩ := (h.linked x rfl).countP
    exact ⟨hleaves, Nat.eq_sub_of_add_eq hforks⟩

/-- A leaf of the array is a leaf of the shape. -/
theorem Linked.mem_leaves {parent : Option Nat} {x : Shape} (h : Linked t parent x) {i : Nat}
    (hi : i ∈ x.slots) (hc : (t.node i).children = none) : i ∈ x.leaves := by
  induction x generalizing parent with
  | leaf j => exact hi
  | fork j l r hl hr =>
    obtain ⟨-, -, hcj, -, -, hll, hrr⟩ := h
    rcases List.mem_cons.mp hi with rfl | hi
    · exact absurd (hc.symm.trans hcj) nofun
    · exact List.mem_append.mpr ((List.mem_append.mp hi).imp (hl hll) (hr hrr))

theorem Holds.mem_leavesOf (h : Holds t loose s) {i : Nat} :
    i ∈ leavesOf s ↔ t.Reaches i ∧ (t.node i).children = none := by
  rw [h.reaches_iff]
  cases s with
  | none => exact iff_of_false nofun fun hi => nomatch hi.1
  | some x =>
    have hx := h.linked x rfl
    exact ⟨fun hi => ⟨mem_slotsOf hi, (hx.node_leaf i hi).1⟩, fun hi => hx.mem_leaves hi.1 hi.2⟩

theorem Holds.parent_iff (h : Holds t loose s) {i j : Nat} (hi : t.Reaches i) :
    (t.node i).parent = some j ↔ t.Reaches j ∧ ∃ left, t.child? left j = some i := by
  constructor
  · intro hj
    obtain ⟨up, y, rfl, rfl, hy, hup⟩ := h.exists_open hi
    cases up with
    | nil => exact absurd (hy.parent_slot.symm.trans hj) nofun
    | cons c up =>
      obtain rfl := Option.some.inj (hy.parent_slot.symm.trans hj)
      refine ⟨h.reaches_iff.mpr ?_, c.left, ?_⟩
      · rw [slotsOf_some, (perm_slots_plug _ y).mem_iff]
        exact List.mem_append_left _ (List.mem_append_left _ List.mem_cons_self)
      · rw [child?, hup.2.2.1]
        cases hl : c.left <;> simp [Crumb.children, hl]
  · rintro ⟨hj, left, hleft⟩
    obtain ⟨up, y, -, rfl, hy, -⟩ := h.exists_open hj
    cases y with
    | leaf j => simp [child?, hy.2.2.1] at hleft
    | fork j l r =>
      obtain ⟨-, -, hc, -, -, hl, hr⟩ := hy
      simp only [child?, Shape.slot_fork, hc, Option.map_some, Option.some.injEq] at hleft
      subst hleft
      cases left with
      | true => exact hl.parent_slot
      | false => exact hr.parent_slot

theorem Holds.parent_eq_none_iff (h : Holds t loose s) {i : Nat} (hi : t.Reaches i) :
    (t.node i).parent = none ↔ t.root = some i := by
  obtain ⟨up, y, rfl, rfl, hy, -⟩ := h.exists_open hi
  rw [hy.parent_slot, h.root, Option.map_some, Option.some.injEq]
  cases up with
  | nil => exact iff_of_true rfl rfl
  | cons c up =>
    refine iff_of_false nofun fun hslot => ?_
    have hn := h.nodup_slots
    rw [slotsOf_some, (perm_slots_plug _ y).nodup_iff] at hn
    exact (List.nodup_append.mp hn).2.2 _ (slot_plug_mem c up y) _ y.slot_mem_slots hslot

theorem Holds.height_eq (h : Holds t loose s) {i l r : Nat} (hi : t.Reaches i)
    (hc : (t.node i).children = some (l, r)) :
    (t.node i).height = 1 + max (t.node l).height (t.node r).height := by
  obtain ⟨up, y, -, rfl, hy, -⟩ := h.exists_open hi
  cases y with
  | leaf j => exact absurd (hc.symm.trans hy.2.2.1) nofun
  | fork j x y =>
    obtain ⟨-, -, hc', -, hh, -, -⟩ := hy
    obtain ⟨rfl, rfl⟩ := Prod.mk.inj (Option.some.inj (hc.symm.trans hc'))
    exact hh

theorem Holds.slot_cases (h : Holds t [] s) {i : Nat} (hi : i < t.nodes.size) :
    (t.free.count i = 1 ∧ ¬t.Reaches i) ∨ (t.free.count i = 0 ∧ ∃! path, t.at? path = some i) := by
  have hn := h.nodup
  rw [List.nil_append] at hn
  obtain ⟨hfree, -, hdisjoint⟩ := List.nodup_append.mp hn
  rcases List.mem_append.mp (h.slots.mem_iff.mpr (List.mem_range.mpr hi)) with hf | hs
  · refine .inl ⟨List.count_eq_one_of_mem hfree hf, fun hr => ?_⟩
    exact hdisjoint i hf i (h.reaches_iff.mp hr) rfl
  · refine .inr ⟨List.count_eq_zero.mpr fun hf => hdisjoint i hf i hs rfl, ?_⟩
    exact h.existsUnique_path hs

theorem Sound.lookup_iff (h : Sound t) {id : String} {i : Nat} :
    t.leaves.lookup id = some i ↔
      t.Reaches i ∧ (t.node i).children = none ∧ (t.node i).key = some id := by
  obtain ⟨s, hs, hperm⟩ := h.held
  rw [← and_assoc, ← hs.mem_leavesOf, ← hperm.mem_iff, Keyed.lookup_eq_some h.nodup]
  constructor
  · exact fun hid => ⟨List.mem_map_of_mem hid, h.key _ hid⟩
  · rintro ⟨hi, hkey⟩
    obtain ⟨e, he, rfl⟩ := List.mem_map.mp hi
    obtain rfl := Option.some.inj ((h.key e he).symm.trans hkey)
    exact he

theorem Sound.laid (h : Sound t) : Laid t := by
  obtain ⟨s, hs, hperm⟩ := h.held
  have hsize : t.size = (leavesOf s).length := by rw [size, ← hperm.length_eq, List.length_map]
  exact {
    slot := fun i hi => hs.slot_cases hi
    bound := by
      rintro i (hi | hi)
      · exact List.mem_range.mp (hs.slots.mem_iff.mp (List.mem_append_left _ hi))
      · exact hs.lt (hs.reaches_iff.mp hi)
    ids := h.nodup
    leaves := hsize ▸ hs.countP.1
    forks := hsize ▸ hs.countP.2
    key := fun id i => h.lookup_iff
    top := fun i hi => hs.parent_eq_none_iff hi
    parent := fun i hi j => hs.parent_iff hi
    bottom := fun i hi hc => by
      have hmem := hs.mem_leavesOf.mpr ⟨hi, hc⟩
      cases s with
      | none => nomatch hmem
      | some x => exact ((hs.linked x rfl).node_leaf i hmem).2
    height := fun i hi l r hc => hs.height_eq hi hc }

end

end Tree

end Tabletop.Space
