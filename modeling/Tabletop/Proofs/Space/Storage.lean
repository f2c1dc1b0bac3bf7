import Tabletop.Proofs.Space.Linked

/-! The slots of a tree: each is free, loose or in the shape that hangs from the root. Hanging a
leaf in and taking one out move slots between the three. -/

namespace Tabletop.Space

def slotsOf (s : Option Shape) : List Nat := s.elim [] Shape.slots

def leavesOf (s : Option Shape) : List Nat := s.elim [] Shape.leaves

@[simp] theorem slotsOf_some (s : Shape) : slotsOf (some s) = s.slots := rfl

@[simp] theorem leavesOf_some (s : Shape) : leavesOf (some s) = s.leaves := rfl

theorem mem_slotsOf {s : Option Shape} {i : Nat} (hi : i ∈ leavesOf s) : i ∈ slotsOf s := by
  cases s with
  | none => exact hi
  | some x => exact x.leaves_sublist_slots.mem hi

namespace Tree

variable {α : Type}

theorem size_replaceChild (t : Tree α) (fork : Option Nat) (old new : Nat) :
    (t.replaceChild fork old new).nodes.size = t.nodes.size := by
  cases fork <;> simp [Tree.replaceChild]

theorem free_replaceChild (t : Tree α) (fork : Option Nat) (old new : Nat) :
    (t.replaceChild fork old new).free = t.free := by
  cases fork <;> rfl

theorem leaves_replaceChild (t : Tree α) (fork : Option Nat) (old new : Nat) :
    (t.replaceChild fork old new).leaves = t.leaves := by
  cases fork <;> rfl

theorem root_replaceChild {t : Tree α} {up : List Crumb} (old new : Shape)
    (h : t.root = some (plug up old).slot) :
    (t.replaceChild (above up) old.slot new.slot).root = some (plug up new).slot := by
  cases up with
  | nil => rfl
  | cons c up => exact h.trans (congrArg some (slot_plug (by simp) old new))

variable [Inhabited α] {t : Tree α} {loose : List Nat} {s : Option Shape}

theorem node_release_ne (t : Tree α) {i j : Nat} (hij : i ≠ j) :
    (t.release i).node j = t.node j :=
  node_modifyNode_ne t hij _

theorem node_replaceChild_ne (t : Tree α) {fork : Option Nat} {j : Nat} (hj : fork ≠ some j)
    (old new : Nat) : (t.replaceChild fork old new).node j = t.node j := by
  cases fork with
  | none => rfl
  | some i => exact node_modifyNode_ne t (fun e => hj (congrArg some e)) _

/-- Links a leaf and a sibling below a new fork, which takes the place of the sibling. -/
def splice (fork : Nat) (above : Option Nat) (sibling leaf : Nat) (t : Tree α) : Tree α :=
  ((t.replaceChild above sibling fork).modifyNode sibling fun n =>
    { n with parent := some fork }).modifyNode leaf fun n => { n with parent := some fork }

theorem node_splice (fork : Nat) {sibling leaf : Nat} {above : Option Nat}
    (hs : sibling < t.nodes.size) (hl : leaf < t.nodes.size) {j : Nat} (hj : above ≠ some j) :
    (t.splice fork above sibling leaf).node j =
      if j = sibling ∨ j = leaf then { t.node j with parent := some fork } else t.node j := by
  have hsize := size_replaceChild t above sibling fork
  rw [splice, node_modifyNode _ (by rw [size_modifyNode]; omega), node_modifyNode _ (by omega),
    node_replaceChild_ne t hj]
  by_cases h : j = leaf
  · subst h
    by_cases h' : sibling = j <;> simp [h']
  · by_cases h' : sibling = j
    · subst h'; simp [Ne.symm h]
    · simp [h, Ne.symm h, h', Ne.symm h']

/-- Frees the fork above a leaf and a sibling; the sibling takes its place. -/
def unsplice (fork : Nat) (above : Option Nat) (sibling leaf : Nat) (t : Tree α) : Tree α :=
  (((t.replaceChild above fork sibling).modifyNode sibling fun n =>
    { n with parent := above }).release fork).modifyNode leaf fun n => { n with parent := none }

theorem node_unsplice {fork sibling leaf : Nat} {above : Option Nat} (hs : sibling < t.nodes.size)
    (hl : leaf < t.nodes.size) {j : Nat} (hj : above ≠ some j) (hjf : fork ≠ j) :
    (t.unsplice fork above sibling leaf).node j =
      if j = leaf then { t.node j with parent := none }
      else if j = sibling then { t.node j with parent := above } else t.node j := by
  have hsize := size_replaceChild t above fork sibling
  rw [unsplice, node_modifyNode _ (by simp only [release, size_modifyNode]; omega),
    node_release_ne _ hjf, node_modifyNode _ (by omega), node_replaceChild_ne t hj]
  by_cases h : j = leaf
  · subst h
    by_cases h' : sibling = j <;> simp [h']
  · by_cases h' : sibling = j
    · subst h'; simp [h, Ne.symm h]
    · simp [h, Ne.symm h, h', Ne.symm h']

/-- Some nodes keep all but their parents. -/
def Kept (t t' : Tree α) (l : List Nat) : Prop :=
  ∀ j ∈ l, ∃ p, t'.node j = { t.node j with parent := p }

theorem Kept.of_eq {t' : Tree α} {l : List Nat} (h : ∀ j ∈ l, t'.node j = t.node j) :
    Kept t t' l :=
  fun j hj => ⟨(t.node j).parent, h j hj⟩

theorem Kept.trans {t₁ t₂ t₃ : Tree α} {l : List Nat} (h : Kept t₁ t₂ l) (h' : Kept t₂ t₃ l) :
    Kept t₁ t₃ l := by
  intro j hj
  obtain ⟨p, hp⟩ := h j hj
  obtain ⟨q, hq⟩ := h' j hj
  exact ⟨q, by rw [hq, hp]⟩

variable [Coordinate α]

/-- A tree with a shape, and with slots that are in use but do not hang in it. -/
structure Holds (t : Tree α) (loose : List Nat) (s : Option Shape) : Prop where
  root : t.root = s.map Shape.slot
  linked : ∀ x, s = some x → Linked t none x
  slots : (t.free ++ (loose ++ slotsOf s)).Perm (List.range t.nodes.size)

theorem holds_empty : Holds ({} : Tree α) [] none :=
  ⟨rfl, fun _ h => (nomatch h), .refl _⟩

theorem Holds.nodup (h : Holds t loose s) : (t.free ++ (loose ++ slotsOf s)).Nodup :=
  h.slots.nodup_iff.mpr List.nodup_range

theorem Holds.lt (h : Holds t loose s) {i : Nat} (hi : i ∈ loose ++ slotsOf s) :
    i < t.nodes.size :=
  List.mem_range.mp (h.slots.mem_iff.mp (List.mem_append_right _ hi))

theorem Holds.length_le (h : Holds t loose s) : (slotsOf s).length ≤ t.nodes.size := by
  have := h.slots.length_eq
  simp only [List.length_append, List.length_range] at this
  omega

theorem Holds.nodup_slots (h : Holds t loose s) : (slotsOf s).Nodup :=
  (List.nodup_append.mp (List.nodup_append.mp h.nodup).2.1).2.1

theorem Holds.loose_notMem (h : Holds t loose s) {i : Nat} (hi : i ∈ loose) : i ∉ slotsOf s :=
  fun hs => (List.nodup_append.mp (List.nodup_append.mp h.nodup).2.1).2.2 i hi i hs rfl

/-! ### Taking and freeing slots -/

theorem Holds.allocate (h : Holds t loose s) (n : Node α) :
    ∃ i t', t.allocate n = (i, t') ∧ Holds t' (i :: loose) s ∧ t'.leaves = t.leaves ∧
      t'.node i = n ∧ ∀ j, j ≠ i → t'.node j = t.node j := by
  have hn := h.nodup
  simp only [Tree.allocate]
  split
  · next i free hf =>
    have hi : i < t.nodes.size :=
      List.mem_range.mp (h.slots.mem_iff.mp (by simp [hf]))
    rw [hf, List.cons_append, List.nodup_cons] at hn
    have hnode (j : Nat) (hj : j ≠ i) :
        ({ t with nodes := t.nodes.modify i fun _ => n, free } : Tree α).node j = t.node j :=
      node_modifyNode_ne t (Ne.symm hj) _
    refine ⟨i, _, rfl, ⟨h.root, fun x hx => ?_, ?_⟩, rfl, ?_, hnode⟩
    · subst hx
      refine (h.linked x rfl).frame (by simp) h.nodup_slots fun j hj => hnode j ?_
      rintro rfl
      exact hn.1 (by simp [hj])
    · have := h.slots
      rw [hf] at this
      simp only [Array.size_modify]
      exact List.perm_middle.trans this
    · exact (node_modifyNode t hi (fun _ => n) i).trans (if_pos rfl)
  · next hf =>
    have hnode (j : Nat) (hj : j ≠ t.nodes.size) :
        ({ t with nodes := t.nodes.push n } : Tree α).node j = t.node j := by
      simp only [node, Array.getD_eq_getD_getElem?, Array.getElem?_push, if_neg hj]
    refine ⟨t.nodes.size, _, rfl, ⟨h.root, fun x hx => ?_, ?_⟩, rfl, ?_, hnode⟩
    · subst hx
      refine (h.linked x rfl).frame (by simp) h.nodup_slots fun j hj => hnode j ?_
      exact Nat.ne_of_lt (h.lt (List.mem_append_right _ hj))
    · simp only [Array.size_push, List.range_succ]
      have := h.slots.append_right [t.nodes.size]
      rw [hf, List.nil_append] at this ⊢
      exact (List.perm_append_singleton _ _).symm.trans this
    · simp [node]

theorem Holds.release {i : Nat} (h : Holds t (i :: loose) s) : Holds (t.release i) loose s := by
  refine ⟨h.root, fun x hx => ?_, ?_⟩
  · subst hx
    refine (h.linked x rfl).frame (by simp [Tree.release]) h.nodup_slots fun j hj => ?_
    refine node_release_ne t ?_
    rintro rfl
    exact h.loose_notMem List.mem_cons_self hj
  · have := h.slots
    simp only [Tree.release, size_modifyNode]
    exact List.perm_middle.symm.trans this

/-- Loose nodes, and what the leaves are called, are no part of the shape. -/
theorem Holds.modify {i : Nat} (h : Holds t loose s) (hi : i ∈ loose) (f : Node α → Node α) :
    Holds (t.modifyNode i f) loose s := by
  refine ⟨h.root, fun x hx => ?_, by rw [size_modifyNode]; exact h.slots⟩
  subst hx
  refine (h.linked x rfl).frame (by simp) h.nodup_slots fun j hj => node_modifyNode_ne t ?_ f
  rintro rfl
  exact h.loose_notMem hi hj

theorem Holds.relabel (h : Holds t loose s) (leaves : List (String × Nat)) :
    Holds { t with leaves } loose s := by
  refine ⟨h.root, fun x hx => ?_, h.slots⟩
  subst hx
  exact (h.linked x rfl).frame (Nat.le_refl _) h.nodup_slots fun _ _ => rfl

/-! ### Splicing -/

theorem above_ne {up : List Crumb} {j : Nat} (hj : j ∉ around up) : above up ≠ some j := by
  cases up with
  | nil => nofun
  | cons c up =>
    rintro h
    cases h
    exact hj (by simp [Crumb.slots])

/-- Another slot fills a hole. -/
theorem Open.replaceChild {up : List Crumb} {old : Nat} (h : Open t up old)
    (hs : (around up).Nodup) (hold : old ∉ around up) (new : Nat) :
    Open (t.replaceChild (above up) old new) up new := by
  cases up with
  | nil => trivial
  | cons c up =>
    obtain ⟨hlt, hp, hc, ho, hup⟩ := h
    simp only [around_cons, Crumb.slots, List.cons_append, List.nodup_cons, List.mem_append,
      List.nodup_append, List.mem_cons, not_or] at hs hold
    obtain ⟨⟨hfo, hfu⟩, hno, hnu, -⟩ := hs
    have hnode := node_modifyNode t hlt (fun n => { n with
      children := n.children.map fun c => if c.1 = old then (new, c.2) else (c.1, new) }) c.fork
    rw [if_pos rfl, hc] at hnode
    have hframe {l : List Nat} (hl : c.fork ∉ l) (j : Nat) (hj : j ∈ l) :
        (t.replaceChild (some c.fork) old new).node j = t.node j :=
      node_replaceChild_ne t (fun e => hl (by cases e; exact hj)) old new
    refine ⟨by simpa [Tree.replaceChild] using hlt, ?_, ?_, ?_, ?_⟩
    · exact (congrArg Node.parent hnode).trans hp
    · refine (congrArg Node.children hnode).trans ?_
      have hne : c.other.slot ≠ old := fun e => hold.2.1 (e ▸ c.other.slot_mem_slots)
      cases hl : c.left <;> simp [Crumb.children, hl, hne]
    · exact ho.frame (by simp [Tree.replaceChild]) hno (hframe hfo)
    · exact hup.frame (by simp [Tree.replaceChild]) hnu (hframe hfu)

/-- A tree that is right around a hole and in it, refitted from the hole up. -/
theorem Holds.refit {up : List Crumb} {x : Shape} (hup : Open t up x.slot)
    (hx : Linked t (above up) x) (hroot : t.root = some (plug up x).slot)
    (hslots : (t.free ++ (loose ++ (plug up x).slots)).Perm (List.range t.nodes.size)) :
    Holds (refit t.nodes.size (above up) t) loose (some (plug up x)) := by
  obtain ⟨hsize, hfree, hroot', -, -⟩ := refit_keeps t.nodes.size (above up) t
  have hn := hslots.nodup_iff.mpr List.nodup_range
  refine ⟨by rw [hroot', hroot]; rfl, fun y hy => ?_, by rw [hfree, hsize]; exact hslots⟩
  cases hy
  refine hx.refit hup (List.nodup_append.mp (List.nodup_append.mp hn).2.1).2.1 ?_
  have hlen := hslots.length_eq
  have hplug := (perm_slots_plug up x).length_eq
  have hup := length_le_around up
  simp only [List.length_append, List.length_range] at hlen hplug
  omega

/-! ### Hanging a leaf in -/

theorem descend_mem (choose : Chooser α) (box : Box α) (fuel : Nat) {parent : Option Nat}
    {x : Shape} (hx : Linked t parent x) : descend choose t box fuel x.slot ∈ x.slots := by
  induction fuel generalizing parent x with
  | zero => exact x.slot_mem_slots
  | succ fuel ih =>
    cases x with
    | leaf i => simp [descend, Shape.slot, Shape.slots, hx.2.2.1]
    | fork i l r =>
      obtain ⟨-, -, hc, -, -, hl, hr⟩ := hx
      simp only [descend, Shape.slot, hc, Shape.slots, List.mem_cons, List.mem_append]
      split
      · exact .inl rfl
      · exact .inr (.inl (ih hl))
      · exact .inr (.inr (ih hr))

theorem kept_refit (fuel : Nat) (i : Option Nat) {l : List Nat}
    (hl : ∀ j ∈ l, (t.node j).children = none) : Kept t (Tree.refit fuel i t) l :=
  .of_eq fun j hj => (refit_keeps fuel i t).2.2.2.2 j (hl j hj)

theorem Holds.splice {t' : Tree α} {up : List Crumb} {y : Shape} {fork leaf : Nat}
    (h : Holds t (fork :: leaf :: loose) (some (plug up y)))
    (hc : (t.node leaf).children = none) (hh : (t.node leaf).height = 0)
    (hfork : t.node fork =
      { box := (t.node y.slot).box.union (t.node leaf).box
        parent := above up
        children := some (y.slot, leaf)
        height := (t.node y.slot).height + 1
        key := none })
    (ht' : t.splice fork (above up) y.slot leaf = t') :
    Holds (Tree.refit t'.nodes.size (above up) t') loose
        (some (plug up (.fork fork y (.leaf leaf)))) ∧
      Kept t (Tree.refit t'.nodes.size (above up) t') (leaf :: (plug up y).leaves) := by
  have hn : (fork :: leaf :: (plug up y).slots).Nodup :=
    (List.nodup_append.mp h.nodup).2.1.sublist
      (.cons_cons _ (.cons_cons _ (List.sublist_append_right _ _)))
  rw [(((perm_slots_plug up y).cons _).cons _).nodup_iff] at hn
  simp only [List.nodup_cons, List.mem_cons, List.mem_append, List.nodup_append, not_or] at hn
  obtain ⟨⟨hfl, hfa, hfy⟩, ⟨hla, hly⟩, hna, hny, hay⟩ := hn
  obtain ⟨hy, hup⟩ := (h.linked _ rfl).unplug
  have hys : y.slot ∉ around up := fun hm => hay _ hm _ y.slot_mem_slots rfl
  have hyl : y.slot ≠ leaf := fun e => hly (e ▸ y.slot_mem_slots)
  have hlt : leaf < t.nodes.size := h.lt (by simp)
  have hlt' : fork < t.nodes.size := h.lt (by simp)
  have hsize : t'.nodes.size = t.nodes.size := by
    rw [← ht', Tree.splice, size_modifyNode, size_modifyNode, size_replaceChild]
  have hnode {j : Nat} (hj : above up ≠ some j) := ht' ▸ node_splice (t := t) fork
    (hy.lt _ y.slot_mem_slots) hlt hj
  have hya := above_ne hys
  have hup' : Open t' up fork := by
    refine (hup.replaceChild hna hys fork).frame ?_ hna fun j hj => ?_
    · exact Nat.le_of_eq (by rw [hsize, size_replaceChild])
    · have hjl : leaf ≠ j := fun e => hla (e ▸ hj)
      have hjy : y.slot ≠ j := fun e => hys (e ▸ hj)
      rw [← ht', Tree.splice, node_modifyNode_ne _ hjl, node_modifyNode_ne _ hjy]
  have hforkn : t'.node fork = t.node fork := by
    rw [hnode (above_ne hfa), if_neg]
    rintro (rfl | rfl)
    · exact hfy y.slot_mem_slots
    · exact hfl rfl
  have hleafn : t'.node leaf = { t.node leaf with parent := some fork } := by
    rw [hnode (above_ne hla), if_pos (.inr rfl)]
  have hyn : t'.node y.slot = { t.node y.slot with parent := some fork } := by
    rw [hnode hya, if_pos (.inl rfl)]
  have hx : Linked t' (above up) (.fork fork y (.leaf leaf)) := by
    refine ⟨by omega, ?_, ?_, ?_, ?_, ?_, ?_⟩
    · rw [hforkn, hfork]
    · rw [hforkn, hfork]; rfl
    · rw [hforkn, hfork, hyn]
      simp only [Shape.slot]
      rw [hleafn]
    · rw [hforkn, hfork, hyn]
      simp only [Shape.slot]
      rw [hleafn, hh, Nat.max_zero, Nat.add_comm]
    · refine hy.congr (by omega) hny hyn fun j hj hne => ?_
      rw [hnode (above_ne fun hm => hay _ hm _ hj rfl), if_neg]
      rintro (rfl | rfl)
      · exact hne rfl
      · exact hly hj
    · refine ⟨by omega, ?_, ?_, ?_⟩ <;> rw [hleafn]
      · exact hc
      · exact hh
  refine ⟨Holds.refit hup' hx ?_ ?_, ?_⟩
  · rw [← ht']
    exact root_replaceChild y (.fork fork y (.leaf leaf)) h.root
  · have hfree : t'.free = t.free := by rw [← ht']; exact free_replaceChild t _ _ _
    have hslots := h.slots
    rw [hfree, hsize]
    refine .trans (.append_left _ ?_) hslots
    rw [List.perm_iff_count]
    intro a
    have h₁ := (perm_slots_plug up y).count_eq a
    have h₂ := (perm_slots_plug up (.fork fork y (.leaf leaf))).count_eq a
    simp only [Shape.slots, List.count_append, List.count_cons, List.count_nil, slotsOf_some]
      at h₁ h₂ ⊢
    omega
  · have hnone (j : Nat) (hj : j ∈ leaf :: (plug up y).leaves) : (t.node j).children = none := by
      rcases List.mem_cons.mp hj with rfl | hj
      · exact hc
      · exact ((h.linked _ rfl).node_leaf j hj).1
    have hkept : Kept t t' (leaf :: (plug up y).leaves) := by
      intro j hj
      rw [hnode (hup.above_ne (hnone j hj))]
      split
      · exact ⟨some fork, rfl⟩
      · exact ⟨(t.node j).parent, rfl⟩
    refine hkept.trans (kept_refit _ _ fun j hj => ?_)
    obtain ⟨p, hp⟩ := hkept j hj
    rw [hp]
    exact hnone j hj

/-- A leaf and a sibling get a fork out of a free slot, or out of a new one. -/
theorem Holds.graft {up : List Crumb} {y : Shape} {fork leaf : Nat} {t₁ : Tree α}
    (h : Holds t (leaf :: loose) (some (plug up y))) (hc : (t.node leaf).children = none)
    (hh : (t.node leaf).height = 0)
    (halloc : t.allocate
      { box := (t.node y.slot).box.union (t.node leaf).box
        parent := above up
        children := some (y.slot, leaf)
        height := (t.node y.slot).height + 1
        key := none } = (fork, t₁)) {t' : Tree α}
    (ht' : t₁.splice fork (above up) y.slot leaf = t') :
    Holds t₁ (fork :: leaf :: loose) (some (plug up y)) ∧ t₁.leaves = t.leaves ∧
      Holds (Tree.refit t'.nodes.size (above up) t') loose
        (some (plug up (.fork fork y (.leaf leaf)))) ∧
      Kept t (Tree.refit t'.nodes.size (above up) t') (leaf :: (plug up y).leaves) := by
  obtain ⟨fork, t₁, heq, h₁, hleaves, hfork, hnode₁⟩ := h.allocate
    { box := (t.node y.slot).box.union (t.node leaf).box
      parent := above up
      children := some (y.slot, leaf)
      height := (t.node y.slot).height + 1
      key := none }
  obtain ⟨rfl, rfl⟩ := Prod.mk.inj (halloc.symm.trans heq)
  have hfresh : fork ∉ leaf :: (plug up y).slots := fun hm =>
    (List.nodup_cons.mp (List.nodup_append.mp h₁.nodup).2.1).1 (by
      rcases List.mem_cons.mp hm with rfl | hm
      · exact List.mem_cons_self
      · exact List.mem_append_right _ hm)
  have hleaf := hnode₁ leaf fun e => hfresh (by simp [e])
  have hslot := hnode₁ y.slot fun e => hfresh
    (by simp [← e, (perm_slots_plug up y).mem_iff, y.slot_mem_slots])
  obtain ⟨hx, hkept⟩ := h₁.splice (by rw [hleaf]; exact hc) (by rw [hleaf]; exact hh)
    (by rw [hfork, hleaf, hslot]) ht'
  refine ⟨h₁, hleaves, hx, (Kept.of_eq fun j hj => hnode₁ j ?_).trans hkept⟩
  rintro rfl
  refine hfresh ?_
  rcases List.mem_cons.mp hj with rfl | hj
  · exact List.mem_cons_self
  · exact List.mem_cons_of_mem _ ((plug up y).leaves_sublist_slots.mem hj)

theorem Holds.insertLeaf (choose : Chooser α) {leaf : Nat} (h : Holds t (leaf :: loose) s)
    (hc : (t.node leaf).children = none) (hh : (t.node leaf).height = 0) :
    ∃ x, Holds (t.insertLeaf choose leaf) loose (some x) ∧ x.leaves.Perm (leaf :: leavesOf s) ∧
      (t.insertLeaf choose leaf).leaves = t.leaves ∧
      Kept t (t.insertLeaf choose leaf) (leaf :: leavesOf s) := by
  have hlt : leaf < t.nodes.size := h.lt (by simp)
  cases s with
  | none =>
    have hroot : t.root = none := h.root
    have hins : t.insertLeaf choose leaf =
        { t.modifyNode leaf fun n => { n with parent := none } with root := some leaf } := by
      simp [Tree.insertLeaf, hroot]
    have hnode : (t.insertLeaf choose leaf).node leaf = { t.node leaf with parent := none } := by
      rw [hins]
      exact (node_modifyNode t hlt _ leaf).trans (if_pos rfl)
    refine ⟨.leaf leaf, ⟨by rw [hins]; rfl, fun x hx => ?_, ?_⟩, .refl _, by rw [hins]; rfl, ?_⟩
    · cases hx
      refine ⟨by rw [hins]; simpa using hlt, by rw [hnode], by rw [hnode]; exact hc, ?_⟩
      rw [hnode]; exact hh
    · have := h.slots
      rw [hins]
      simp only [modifyNode, Array.size_modify]
      refine .trans (.append_left _ ?_) this
      simp [slotsOf, Shape.slots]
    · intro j hj
      obtain rfl := List.mem_singleton.mp hj
      exact ⟨none, hnode⟩
  | some x =>
    have hroot : t.root = some x.slot := h.root
    have hmem := descend_mem choose (t.node leaf).box t.nodes.size (h.linked x rfl)
    simp only [Tree.insertLeaf, hroot]
    generalize descend choose t (t.node leaf).box t.nodes.size x.slot = sibling at hmem ⊢
    obtain ⟨up, y, rfl, rfl⟩ := exists_plug hmem
    rw [(h.linked _ rfl).unplug.1.parent_slot]
    generalize halloc : t.allocate _ = a
    obtain ⟨fork, t₁⟩ := a
    obtain ⟨-, hleaves, hx, hkept⟩ := h.graft hc hh halloc rfl
    refine ⟨_, hx, ?_, ?_, hkept⟩
    · rw [List.perm_iff_count]
      intro a
      have h₁ := (perm_leaves_plug up y).count_eq a
      have h₂ := (perm_leaves_plug up (.fork fork y (.leaf leaf))).count_eq a
      simp only [Shape.leaves, List.count_append, List.count_cons, List.count_nil, leavesOf_some]
        at h₁ h₂ ⊢
      omega
    · refine (refit_keeps _ _ _).2.2.2.1.trans (Eq.trans ?_ hleaves)
      exact leaves_replaceChild t₁ _ _ _

/-! ### Taking a leaf out -/

theorem Holds.unsplice {t' : Tree α} {c : Crumb} {up : List Crumb} {leaf : Nat}
    (h : Holds t loose (some (plug (c :: up) (.leaf leaf))))
    (ht' : t.unsplice c.fork (above up) c.other.slot leaf = t') :
    Holds (Tree.refit t'.nodes.size (above up) t') (leaf :: loose) (some (plug up c.other)) ∧
      Kept t (Tree.refit t'.nodes.size (above up) t') (plug (c :: up) (.leaf leaf)).leaves := by
  have hn := h.nodup_slots
  rw [slotsOf_some, (perm_slots_plug _ _).nodup_iff] at hn
  simp only [around_cons, Crumb.slots, Shape.slots, List.cons_append, List.nodup_cons,
    List.mem_append, List.nodup_append, List.mem_singleton, not_or] at hn
  obtain ⟨⟨⟨hfo, hfa⟩, hfl⟩, ⟨hno, hna, hoa⟩, -, hleaf⟩ := hn
  have hla : leaf ∉ around up := fun hm => hleaf _ (.inr hm) _ rfl rfl
  have hlo : leaf ∉ c.other.slots := fun hm => hleaf _ (.inl hm) _ rfl rfl
  have hoa' : c.other.slot ∉ around up := fun hm => hoa _ c.other.slot_mem_slots _ hm rfl
  obtain ⟨hl, hlt, hp, hc, ho, hup⟩ := (h.linked _ rfl).unplug
  have hsize : t'.nodes.size = t.nodes.size := by
    rw [← ht', Tree.unsplice, size_modifyNode, Tree.release, size_modifyNode, size_modifyNode,
      size_replaceChild]
  have hnode {j : Nat} (hj : above up ≠ some j) (hjf : c.fork ≠ j) :=
    ht' ▸ node_unsplice (t := t) (ho.lt _ c.other.slot_mem_slots) hl.1 hj hjf
  have hup' : Open t' up c.other.slot := by
    refine (hup.replaceChild hna hfa c.other.slot).frame ?_ hna fun j hj => ?_
    · exact Nat.le_of_eq (by rw [hsize, size_replaceChild])
    · have hjl : leaf ≠ j := fun e => hla (e ▸ hj)
      have hjf : c.fork ≠ j := fun e => hfa (e ▸ hj)
      have hjo : c.other.slot ≠ j := fun e => hoa' (e ▸ hj)
      rw [← ht', Tree.unsplice, node_modifyNode_ne _ hjl, node_release_ne _ hjf,
        node_modifyNode_ne _ hjo]
  have hx : Linked t' (above up) c.other := by
    have hother {j : Nat} (hj : j ∈ c.other.slots) := by
      have hjf : c.fork ≠ j := fun e => hfo (e ▸ hj)
      exact hnode (above_ne fun hm => hoa _ hj _ hm rfl) hjf
    refine ho.congr (by omega) hno ?_ fun j hm hne => ?_
    · rw [hother c.other.slot_mem_slots, if_neg, if_pos rfl]
      exact fun e => hlo (e ▸ c.other.slot_mem_slots)
    · rw [hother hm, if_neg, if_neg hne]
      exact fun e => hlo (e ▸ hm)
  refine ⟨Holds.refit hup' hx ?_ ?_, ?_⟩
  · have hroot := root_replaceChild (c.join (.leaf leaf)) c.other h.root
    rw [Crumb.slot_join] at hroot
    rw [← ht']
    exact hroot
  · have hfree : t'.free = c.fork :: t.free := by
      rw [← ht']; exact congrArg _ (free_replaceChild t _ _ _)
    have hslots := h.slots
    rw [hfree, hsize]
    refine .trans ?_ hslots
    rw [List.perm_iff_count]
    intro a
    have h₁ := (perm_slots_plug up c.other).count_eq a
    have h₂ := (perm_slots_plug (c :: up) (.leaf leaf)).count_eq a
    simp only [Shape.slots, Crumb.slots, around_cons, List.count_append, List.count_cons,
      List.count_nil, slotsOf_some] at h₁ h₂ ⊢
    omega
  · have hnone (j : Nat) (hj : j ∈ (plug (c :: up) (.leaf leaf)).leaves) :=
      ((h.linked _ rfl).node_leaf j hj).1
    have hkept : Kept t t' (plug (c :: up) (.leaf leaf)).leaves := by
      intro j hj
      have hjf : c.fork ≠ j := by
        rintro rfl
        exact absurd (hnone _ hj) (by simp [hc])
      rw [hnode (hup.above_ne (hnone j hj)) hjf]
      split
      · exact ⟨none, rfl⟩
      · split
        · exact ⟨above up, rfl⟩
        · exact ⟨(t.node j).parent, rfl⟩
    refine hkept.trans (kept_refit _ _ fun j hj => ?_)
    obtain ⟨p, hp⟩ := hkept j hj
    rw [hp]
    exact hnone j hj

/-- A leaf below a fork gives way to what is on the other side of the fork. -/
theorem Holds.sibling {c : Crumb} {up : List Crumb} {leaf : Nat}
    (h : Holds t loose (some (plug (c :: up) (.leaf leaf)))) :
    t.root ≠ some leaf ∧
      (if (c.children leaf).1 = leaf then (c.children leaf).2 else (c.children leaf).1) =
        c.other.slot := by
  have hn := h.nodup_slots
  rw [slotsOf_some, (perm_slots_plug _ _).nodup_iff] at hn
  constructor
  · have hmem := slot_plug_mem c up (.leaf leaf)
    intro e
    rw [Option.some.inj (h.root.symm.trans e)] at hmem
    exact (List.nodup_append.mp hn).2.2 _ hmem _ (by simp [Shape.slots]) rfl
  · have hne : c.other.slot ≠ leaf := by
      rintro e
      refine (List.nodup_append.mp hn).2.2 leaf ?_ _ (by simp [Shape.slots]) rfl
      simp [Crumb.slots, ← e, c.other.slot_mem_slots]
    cases hl : c.left <;> simp [Crumb.children, hl, hne]

theorem Holds.removeLeaf {leaf : Nat} {x : Shape} (h : Holds t loose (some x))
    (hleaf : leaf ∈ x.leaves) :
    ∃ s', Holds (t.removeLeaf leaf) (leaf :: loose) s' ∧ (leaf :: leavesOf s').Perm x.leaves ∧
      (t.removeLeaf leaf).leaves = t.leaves ∧ Kept t (t.removeLeaf leaf) x.leaves := by
  obtain ⟨up, rfl⟩ := exists_plug_leaf hleaf
  cases up with
  | nil =>
    have hrem : t.removeLeaf leaf = { t with root := none } := if_pos h.root
    rw [hrem]
    refine ⟨none, ⟨rfl, fun _ e => (nomatch e), ?_⟩, .refl _, rfl, .of_eq fun _ _ => rfl⟩
    refine .trans (.append_left _ ?_) h.slots
    simpa [slotsOf, plug, Shape.slots] using (List.perm_append_singleton leaf loose).symm
  | cons c up =>
    obtain ⟨hl, hlt, hp, hc, ho, hup⟩ := (h.linked _ rfl).unplug
    obtain ⟨hroot, hsibling⟩ := h.sibling
    have hrem : t.removeLeaf leaf =
        Tree.refit (t.unsplice c.fork (above up) c.other.slot leaf).nodes.size (above up)
          (t.unsplice c.fork (above up) c.other.slot leaf) := by
      have hparent : (t.node leaf).parent = some c.fork := hl.2.1
      have hchildren : (t.node c.fork).children =
          some ((c.children leaf).1, (c.children leaf).2) := hc
      simp only [Tree.removeLeaf, if_neg hroot, hparent, hchildren, hp, hsibling]
      rfl
    rw [hrem]
    obtain ⟨hx, hkept⟩ := h.unsplice rfl
    refine ⟨_, hx, ?_, ?_, hkept⟩
    · rw [List.perm_iff_count]
      intro a
      have h₁ := (perm_leaves_plug up c.other).count_eq a
      have h₂ := (perm_leaves_plug (c :: up) (.leaf leaf)).count_eq a
      simp only [Shape.leaves, List.count_append, List.count_cons, List.count_nil, leavesOf_some,
        List.flatMap_cons] at h₁ h₂ ⊢
      omega
    · rw [(refit_keeps _ _ _).2.2.2.1]
      exact leaves_replaceChild t _ _ _

end Tree

end Tabletop.Space
