import Tabletop.Proofs.Space.Paths

/-! The calls on a tree of boxes with a check at every access to its array: they fail at an index
out of range, at a link that is missing, and in a loop that makes more rounds than the array has
slots. In no sequence of calls does that happen. -/

namespace Tabletop.Space

namespace Tree

variable {α : Type}

/-! ### Checked calls -/

/-- A result that needs a slot of the array. -/
def within (t : Tree α) (i : Nat) {β : Type} (b : β) : Option β :=
  if i < t.nodes.size then some b else none

theorem within_of_lt {t : Tree α} {i : Nat} {β : Type} (hi : i < t.nodes.size) (b : β) :
    t.within i b = some b := if_pos hi

def modifyNode? (t : Tree α) (i : Nat) (f : Node α → Node α) : Option (Tree α) :=
  t.within i (t.modifyNode i f)

theorem modifyNode?_of_lt {t : Tree α} {i : Nat} (hi : i < t.nodes.size) (f : Node α → Node α) :
    t.modifyNode? i f = some (t.modifyNode i f) := within_of_lt hi _

def release? (t : Tree α) (i : Nat) : Option (Tree α) := t.within i (t.release i)

theorem release?_of_lt {t : Tree α} {i : Nat} (hi : i < t.nodes.size) :
    t.release? i = some (t.release i) := within_of_lt hi _

def allocate? (t : Tree α) (n : Node α) : Option (Nat × Tree α) :=
  match t.free with
  | i :: _ => t.within i (t.allocate n)
  | [] => some (t.allocate n)

variable [Inhabited α]

def node? (t : Tree α) (i : Nat) : Option (Node α) := t.within i (t.node i)

theorem node?_of_lt {t : Tree α} {i : Nat} (hi : i < t.nodes.size) : t.node? i = some (t.node i) :=
  within_of_lt hi _

def replaceChild? (t : Tree α) (fork : Option Nat) (old new : Nat) : Option (Tree α) :=
  match fork with
  | none => some (t.replaceChild none old new)
  | some i => do
    let _ ← (← t.node? i).children
    return t.replaceChild (some i) old new

variable [Coordinate α]

def refit? : Nat → Option Nat → Tree α → Option (Tree α)
  | _, none, t => some t
  | 0, some _, _ => none
  | fuel + 1, some i, t => do
    let n ← t.node? i
    let (l, r) ← n.children
    let left ← t.node? l
    let right ← t.node? r
    refit? fuel n.parent (t.modifyNode i fun n =>
      { n with box := left.box.union right.box, height := 1 + max left.height right.height })

/-- The choice at a fork looks at the fork and at both of its children. -/
def descend? (choose : Chooser α) (t : Tree α) (box : Box α) : Nat → Nat → Option Nat
  | 0, _ => none
  | fuel + 1, i => do
    match (← t.node? i).children with
    | none => return i
    | some (l, r) =>
      let _ ← t.node? l
      let _ ← t.node? r
      match choose t i box with
      | .here => return i
      | .left => descend? choose t box fuel l
      | .right => descend? choose t box fuel r

def insertLeaf? (choose : Chooser α) (leaf : Nat) (t : Tree α) : Option (Tree α) :=
  match t.root with
  | none => do
    let t ← t.modifyNode? leaf fun n => { n with parent := none }
    return { t with root := some leaf }
  | some root => do
    let box := (← t.node? leaf).box
    let sibling ← descend? choose t box t.nodes.size root
    let n ← t.node? sibling
    let (fork, t) ← t.allocate?
      { box := n.box.union box
        parent := n.parent
        children := some (sibling, leaf)
        height := n.height + 1
        key := none }
    let t ← t.replaceChild? n.parent sibling fork
    let t ← t.modifyNode? sibling fun n => { n with parent := some fork }
    let t ← t.modifyNode? leaf fun n => { n with parent := some fork }
    refit? t.nodes.size n.parent t

def removeLeaf? (leaf : Nat) (t : Tree α) : Option (Tree α) :=
  if t.root = some leaf then some { t with root := none }
  else do
    let fork ← (← t.node? leaf).parent
    let n ← t.node? fork
    let (l, r) ← n.children
    let sibling := if l = leaf then r else l
    let t ← t.replaceChild? n.parent fork sibling
    let t ← t.modifyNode? sibling fun m => { m with parent := n.parent }
    let t ← t.release? fork
    let t ← t.modifyNode? leaf fun n => { n with parent := none }
    refit? t.nodes.size n.parent t

def insert? (choose : Chooser α) (id : String) (box : Box α) (t : Tree α) : Option (Tree α) :=
  match t.leaves.lookup id with
  | some leaf => do
    if (← t.node? leaf).box.same box then return t
    let t ← t.removeLeaf? leaf
    let t ← t.modifyNode? leaf fun n => { n with box }
    t.insertLeaf? choose leaf
  | none => do
    let (leaf, t) ← t.allocate?
      { box, parent := none, children := none, height := 0, key := some id }
    insertLeaf? choose leaf { t with leaves := (id, leaf) :: t.leaves }

def remove? (id : String) (t : Tree α) : Option (Tree α) :=
  match t.leaves.lookup id with
  | none => some t
  | some leaf => do
    let t ← { t with leaves := Keyed.erase id t.leaves }.removeLeaf? leaf
    t.release? leaf

/-- The search with the stack of the nodes that are still to be looked at, the next one first. -/
def search? (t : Tree α) (box : Box α) : Nat → List Nat → Option (List String)
  | _, [] => some []
  | 0, _ :: _ => none
  | fuel + 1, i :: stack => do
    let n ← t.node? i
    if n.box.overlaps box then
      match n.children with
      | none => return n.key.toList ++ (← search? t box fuel stack)
      | some (l, r) => search? t box fuel (r :: l :: stack)
    else search? t box fuel stack

def query? (t : Tree α) (box : Box α) : Option (List String) :=
  t.search? box t.nodes.size t.root.toList

def Call.perform? (t : Tree α) : Call α → Option (Tree α)
  | .insert choose id box => t.insert? choose id box
  | .remove id => t.remove? id

/-! ### Accesses in range -/

variable {t t' : Tree α} {loose : List Nat} {s : Option Shape} {i : Nat}

theorem Holds.allocate? (h : Holds t loose s) (n : Node α) : t.allocate? n = some (t.allocate n) := by
  rw [Tree.allocate?]
  split
  · next i free hf =>
    refine within_of_lt (List.mem_range.mp (h.slots.mem_iff.mp ?_)) _
    rw [hf]
    exact List.mem_append_left _ List.mem_cons_self
  · rfl

theorem Open.replaceChild? {up : List Crumb} {hole : Nat} (h : Open t up hole) (old new : Nat) :
    t.replaceChild? (above up) old new = some (t.replaceChild (above up) old new) := by
  cases up with
  | nil => rfl
  | cons c up =>
    obtain ⟨hlt, -, hc, -⟩ := h
    simp only [Tree.replaceChild?, above_cons, node?_of_lt hlt, Option.bind_eq_bind,
      Option.bind_some, hc]
    rfl

/-! ### Loops that end -/

/-- Refitting goes by links that it does not change, so it may be followed in any tree with these
links. -/
theorem Open.refit? {up : List Crumb} {hole fuel : Nat} (h : Open t' up hole)
    (hhole : hole < t'.nodes.size) (hfuel : up.length ≤ fuel) (hsize : t.nodes.size = t'.nodes.size)
    (hlinks : ∀ j, (t.node j).parent = (t'.node j).parent ∧
      (t.node j).children = (t'.node j).children) :
    Tree.refit? fuel (above up) t = some (Tree.refit fuel (above up) t) := by
  induction up generalizing t hole fuel with
  | nil => cases fuel <;> rfl
  | cons c up ih =>
    obtain ⟨fuel, rfl⟩ : ∃ n, fuel = n + 1 := ⟨fuel - 1, by simp at hfuel; omega⟩
    obtain ⟨hlt, hp, hc, ho, hup⟩ := h
    obtain ⟨l, r, hlr⟩ : ∃ l r, c.children hole = (l, r) := ⟨_, _, rfl⟩
    have hother := ho.lt _ c.other.slot_mem_slots
    have hbound : l < t'.nodes.size ∧ r < t'.nodes.size := by
      obtain ⟨rfl, rfl⟩ | ⟨rfl, rfl⟩ := Crumb.children_cases hlr
      · exact ⟨hhole, hother⟩
      · exact ⟨hother, hhole⟩
    have hchildren : (t.node c.fork).children = some (l, r) := by rw [(hlinks _).2, hc, hlr]
    rw [← hsize] at hlt hbound
    rw [above_cons, refit_some fuel hchildren, Tree.refit?]
    simp only [node?_of_lt hlt, node?_of_lt hbound.1, node?_of_lt hbound.2, hchildren,
      Option.bind_eq_bind, Option.bind_some, (hlinks _).1, hp]
    refine ih hup (by omega) (by simpa using hfuel) (by rw [size_modifyNode, hsize]) fun j => ?_
    rw [← (hlinks j).1, ← (hlinks j).2]
    exact links_modifyNode t _ j _ fun _ => ⟨rfl, rfl⟩

theorem Holds.refit? {up : List Crumb} {x : Shape}
    (h : Holds (Tree.refit t.nodes.size (above up) t) loose (some (plug up x))) :
    Tree.refit? t.nodes.size (above up) t = some (Tree.refit t.nodes.size (above up) t) := by
  obtain ⟨hx, hup⟩ := (h.linked _ rfl).unplug
  have hlen := h.length_le
  have hslot := hx.lt _ x.slot_mem_slots
  have hsize := (refit_keeps t.nodes.size (above up) t).1
  have hlinks := refit_links t.nodes.size (above up) t
  generalize ht' : Tree.refit t.nodes.size (above up) t = t' at hup hlen hslot hsize hlinks
  rw [← ht']
  refine hup.refit? hslot ?_ hsize.symm fun j => ⟨(hlinks j).1.symm, (hlinks j).2.symm⟩
  have hplug := (perm_slots_plug up x).length_eq
  have hup := length_le_around up
  rw [slotsOf_some, hplug, List.length_append, hsize] at hlen
  omega

theorem Linked.descend? (choose : Chooser α) (box : Box α) {parent : Option Nat} {x : Shape}
    (h : Linked t parent x) {fuel : Nat} (hfuel : x.slots.length ≤ fuel) :
    Tree.descend? choose t box fuel x.slot = some (descend choose t box fuel x.slot) := by
  induction x generalizing parent fuel with
  | leaf i =>
    obtain ⟨fuel, rfl⟩ : ∃ n, fuel = n + 1 := ⟨fuel - 1, by simp [Shape.slots] at hfuel; omega⟩
    simp [Tree.descend?, descend, node?_of_lt h.1, h.2.2.1]
  | fork i l r hl hr =>
    simp only [Shape.slots, List.length_cons, List.length_append] at hfuel
    obtain ⟨fuel, rfl⟩ : ∃ n, fuel = n + 1 := ⟨fuel - 1, by omega⟩
    obtain ⟨hi, -, hc, -, -, hll, hrr⟩ := h
    have hleft := node?_of_lt (hll.lt _ l.slot_mem_slots)
    have hright := node?_of_lt (hrr.lt _ r.slot_mem_slots)
    simp only [Tree.descend?, descend, Shape.slot_fork, node?_of_lt hi, hc, hleft, hright,
      Option.bind_eq_bind, Option.bind_some]
    cases choose t i box with
    | here => rfl
    | left => exact hl hll (by omega)
    | right => exact hr hrr (by omega)

/-! ### Hanging a leaf in and taking one out -/

theorem Holds.insertLeaf? (choose : Chooser α) {leaf : Nat} (h : Holds t (leaf :: loose) s)
    (hc : (t.node leaf).children = none) (hh : (t.node leaf).height = 0) :
    t.insertLeaf? choose leaf = some (t.insertLeaf choose leaf) := by
  have hlt : leaf < t.nodes.size := h.lt (by simp)
  cases s with
  | none =>
    have hroot : t.root = none := h.root
    simp only [Tree.insertLeaf?, Tree.insertLeaf, hroot, modifyNode?_of_lt hlt,
      Option.bind_eq_bind, Option.bind_some]
    rfl
  | some x =>
    have hroot : t.root = some x.slot := h.root
    have hdescend := (h.linked x rfl).descend? choose (t.node leaf).box h.length_le
    have hmem := descend_mem choose (t.node leaf).box t.nodes.size (h.linked x rfl)
    simp only [Tree.insertLeaf?, Tree.insertLeaf, hroot, node?_of_lt hlt, hdescend,
      Option.bind_eq_bind, Option.bind_some]
    generalize descend choose t (t.node leaf).box t.nodes.size x.slot = sibling at hmem ⊢
    obtain ⟨up, y, rfl, rfl⟩ := exists_plug hmem
    obtain ⟨hy, -⟩ := (h.linked _ rfl).unplug
    simp only [node?_of_lt (hy.lt _ y.slot_mem_slots), Option.bind_some, hy.parent_slot,
      h.allocate?]
    generalize halloc : t.allocate _ = a
    obtain ⟨fork, t₁⟩ := a
    obtain ⟨h₁, -, hx, -⟩ := h.graft hc hh halloc rfl
    obtain ⟨hy₁, hup₁⟩ := (h₁.linked _ rfl).unplug
    have hslot : y.slot < (t₁.replaceChild (above up) y.slot fork).nodes.size := by
      rw [size_replaceChild]
      exact hy₁.lt _ y.slot_mem_slots
    have hleaf : leaf < ((t₁.replaceChild (above up) y.slot fork).modifyNode y.slot fun n =>
        { n with parent := some fork }).nodes.size := by
      rw [size_modifyNode, size_replaceChild]
      exact h₁.lt (by simp)
    simp only [hup₁.replaceChild?, modifyNode?_of_lt hslot, modifyNode?_of_lt hleaf,
      Option.bind_some]
    exact hx.refit?

theorem Holds.removeLeaf? {leaf : Nat} {x : Shape} (h : Holds t loose (some x))
    (hleaf : leaf ∈ x.leaves) : t.removeLeaf? leaf = some (t.removeLeaf leaf) := by
  obtain ⟨up, rfl⟩ := exists_plug_leaf hleaf
  cases up with
  | nil =>
    have hroot : t.root = some leaf := h.root
    rw [Tree.removeLeaf?, Tree.removeLeaf, if_pos hroot, if_pos hroot]
  | cons c up =>
    obtain ⟨hl, hlt, hp, hc, ho, hup⟩ := (h.linked _ rfl).unplug
    obtain ⟨hroot, hsibling⟩ := h.sibling
    have hparent : (t.node leaf).parent = some c.fork := hl.2.1
    have hchildren : (t.node c.fork).children =
        some ((c.children leaf).1, (c.children leaf).2) := hc
    have hslot : c.other.slot < (t.replaceChild (above up) c.fork c.other.slot).nodes.size := by
      rw [size_replaceChild]
      exact ho.lt _ c.other.slot_mem_slots
    have hfork : c.fork < ((t.replaceChild (above up) c.fork c.other.slot).modifyNode c.other.slot
        fun n => { n with parent := above up }).nodes.size := by
      rw [size_modifyNode, size_replaceChild]
      exact hlt
    have hleaf : leaf < (((t.replaceChild (above up) c.fork c.other.slot).modifyNode c.other.slot
        fun n => { n with parent := above up }).release c.fork).nodes.size := by
      rw [Tree.release, size_modifyNode, size_modifyNode, size_replaceChild]
      exact hl.1
    simp only [Tree.removeLeaf?, Tree.removeLeaf, if_neg hroot, node?_of_lt hl.1, hparent,
      node?_of_lt hlt, hp, hchildren, hsibling, hup.replaceChild?, modifyNode?_of_lt hslot,
      release?_of_lt hfork, modifyNode?_of_lt hleaf, Option.bind_eq_bind, Option.bind_some]
    exact (h.unsplice rfl).1.refit?

/-! ### Calls -/

theorem Sound.insert? (h : Sound t) (choose : Chooser α) (id : String) (box : Box α) :
    t.insert? choose id box = some (t.insert choose id box) := by
  obtain ⟨s, hs, hperm⟩ := h.held
  cases hid : t.leaves.lookup id with
  | none =>
    obtain ⟨i, t₁, halloc, h₁, -, hi, -⟩ := hs.allocate
      { box, parent := none, children := none, height := 0, key := some id }
    simp only [Tree.insert?, Tree.insert, hid, hs.allocate?, halloc, Option.bind_eq_bind,
      Option.bind_some]
    refine (h₁.relabel ((id, i) :: t₁.leaves)).insertLeaf? choose ?_ ?_
    · exact congrArg Node.children hi
    · exact congrArg Node.height hi
  | some leaf =>
    have hleaf : leaf ∈ leavesOf s := mem_of_perm hperm (Keyed.mem_of_lookup hid)
    have hlt : leaf < t.nodes.size := hs.lt (List.mem_append_right _ (mem_slotsOf hleaf))
    simp only [Tree.insert?, Tree.insert, hid, node?_of_lt hlt, Option.bind_eq_bind,
      Option.bind_some]
    split
    · rfl
    · cases s with
      | none => cases hleaf
      | some x =>
        obtain ⟨hc, hh⟩ := (hs.linked x rfl).node_leaf leaf hleaf
        obtain ⟨s₁, h₁, -, -, hkept⟩ := hs.removeLeaf hleaf
        obtain ⟨p, hp⟩ := hkept leaf hleaf
        have hlt : leaf < (t.removeLeaf leaf).nodes.size := h₁.lt (by simp)
        have hnode := node_modifyNode _ hlt (fun n => { n with box }) leaf
        rw [if_pos rfl, hp] at hnode
        simp only [hs.removeLeaf? hleaf, modifyNode?_of_lt hlt, Option.bind_some]
        exact (h₁.modify List.mem_cons_self _).insertLeaf? choose (by rw [hnode]; exact hc)
          (by rw [hnode]; exact hh)

theorem Sound.remove? (h : Sound t) (id : String) : t.remove? id = some (t.remove id) := by
  obtain ⟨s, hs, hperm⟩ := h.held
  cases hid : t.leaves.lookup id with
  | none => simp only [Tree.remove?, Tree.remove, hid]
  | some leaf =>
    have hleaf : leaf ∈ leavesOf s := mem_of_perm hperm (Keyed.mem_of_lookup hid)
    cases s with
    | none => cases hleaf
    | some x =>
      have hr := hs.relabel (Keyed.erase id t.leaves)
      obtain ⟨s₁, h₁, -⟩ := hr.removeLeaf hleaf
      simp only [Tree.remove?, Tree.remove, hid, hr.removeLeaf? hleaf, Option.bind_eq_bind,
        Option.bind_some]
      exact release?_of_lt (h₁.lt (by simp))

theorem Sound.perform? (h : Sound t) : ∀ c : Call α, c.perform? t = some (c.perform t)
  | .insert choose id box => h.insert? choose id box
  | .remove id => h.remove? id

/-! ### Searches -/

/-- What a search gives below a node. -/
def gathered (t : Tree α) (q : Box α) : Shape → List String
  | .leaf i => if (t.node i).box.overlaps q then (t.node i).key.toList else []
  | .fork i l r => if (t.node i).box.overlaps q then gathered t q l ++ gathered t q r else []

theorem Linked.collect_eq {parent : Option Nat} {x : Shape} (h : Linked t parent x) (q : Box α)
    {fuel : Nat} (hfuel : x.slots.length ≤ fuel) : Tree.collect t q fuel x.slot = gathered t q x := by
  induction x generalizing parent fuel with
  | leaf i =>
    obtain ⟨fuel, rfl⟩ : ∃ n, fuel = n + 1 := ⟨fuel - 1, by simp [Shape.slots] at hfuel; omega⟩
    simp only [Tree.collect, gathered, Shape.slot_leaf, h.2.2.1]
  | fork i l r hl hr =>
    simp only [Shape.slots, List.length_cons, List.length_append] at hfuel
    obtain ⟨fuel, rfl⟩ : ∃ n, fuel = n + 1 := ⟨fuel - 1, by omega⟩
    obtain ⟨-, -, hc, -, -, hll, hrr⟩ := h
    have hleft := hl hll (show l.slots.length ≤ fuel by omega)
    have hright := hr hrr (show r.slots.length ≤ fuel by omega)
    simp only [Tree.collect, gathered, Shape.slot_fork, hc, hleft, hright]

/-- Each round takes one slot off what hangs below the stack. -/
theorem search?_eq (q : Box α) (xs : List Shape) {fuel : Nat}
    (hlinked : ∀ x ∈ xs, ∃ parent, Linked t parent x)
    (hfuel : (xs.flatMap Shape.slots).length ≤ fuel) :
    ∃ found, t.search? q fuel (xs.map Shape.slot) = some found ∧
      found.Perm (xs.flatMap (gathered t q)) := by
  induction fuel generalizing xs with
  | zero =>
    cases xs with
    | nil => exact ⟨[], rfl, .refl _⟩
    | cons x xs => cases x <;> simp [Shape.slots] at hfuel
  | succ fuel ih =>
    cases xs with
    | nil => exact ⟨[], rfl, .refl _⟩
    | cons x xs =>
      obtain ⟨⟨parent, hx⟩, hxs⟩ := List.forall_mem_cons.mp hlinked
      rw [List.flatMap_cons, List.length_append] at hfuel
      rw [List.map_cons, List.flatMap_cons, search?, node?_of_lt (hx.lt _ x.slot_mem_slots)]
      cases x with
      | leaf i =>
        simp only [Shape.slots, List.length_singleton] at hfuel
        obtain ⟨found, hfound, hperm⟩ := ih xs hxs (by omega)
        simp only [Option.bind_eq_bind, Option.bind_some, Shape.slot_leaf, hx.2.2.1, gathered,
          hfound]
        split
        · exact ⟨_, rfl, hperm.append_left _⟩
        · exact ⟨found, rfl, hperm⟩
      | fork i l r =>
        obtain ⟨-, -, hc, -, -, hl, hr⟩ := hx
        simp only [Shape.slots, List.length_cons, List.length_append] at hfuel
        simp only [Option.bind_eq_bind, Option.bind_some, Shape.slot_fork, hc, gathered]
        split
        · obtain ⟨found, hfound, hperm⟩ := ih (r :: l :: xs)
            (List.forall_mem_cons.mpr ⟨⟨_, hr⟩, List.forall_mem_cons.mpr ⟨⟨_, hl⟩, hxs⟩⟩)
            (by simp only [List.flatMap_cons, List.length_append]; omega)
          refine ⟨found, hfound, hperm.trans ?_⟩
          rw [List.flatMap_cons, List.flatMap_cons, ← List.append_assoc]
          exact List.perm_append_comm.append_right _
        · obtain ⟨found, hfound, hperm⟩ := ih xs hxs (by omega)
          exact ⟨found, hfound, hperm⟩

theorem Sound.query? (h : Sound t) (q : Box α) :
    ∃ found, t.query? q = some found ∧ found.Perm (t.query q) := by
  obtain ⟨s, hs, -⟩ := h.held
  rw [Tree.query?, Tree.query, hs.root]
  cases s with
  | none => exact ⟨[], by cases t.nodes.size <;> rfl, .refl _⟩
  | some x =>
    have hx := hs.linked x rfl
    obtain ⟨found, hfound, hperm⟩ := search?_eq q [x]
      (List.forall_mem_singleton.mpr ⟨none, hx⟩) (by simpa using hs.length_le)
    refine ⟨found, hfound, hperm.trans (.of_eq ?_)⟩
    rw [List.flatMap_singleton]
    exact (hx.collect_eq q hs.length_le).symm

/-- In any sequence of calls, whatever is chosen at the forks, no loop goes on for more rounds than
there are slots and every access is in range. What the calls leave behind is in order, and can be
searched in the same way. -/
theorem calls_in_range (calls : List (Call α)) :
    calls.foldlM Call.perform? {} = some (ofCalls calls) ∧ Laid (ofCalls calls) ∧
      ∀ q, ∃ found, (ofCalls calls).query? q = some found ∧
        found.Perm ((ofCalls calls).query q) := by
  refine ⟨?_, (sound_ofCalls calls).laid, (sound_ofCalls calls).query?⟩
  induction calls using List.reverseRecOn with
  | nil => rfl
  | append_singleton calls c ih =>
    rw [List.foldlM_append, ih, ofCalls_snoc]
    simp only [Option.bind_eq_bind, Option.bind_some, List.foldlM_cons, List.foldlM_nil,
      (sound_ofCalls calls).perform? c]
    rfl

end Tree

end Tabletop.Space
