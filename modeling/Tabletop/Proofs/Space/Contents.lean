import Tabletop.Proofs.Keyed
import Tabletop.Proofs.Space.Storage
import Mathlib.Order.MinMax

/-! A tree of boxes as a map from ids to boxes: inserting puts an entry, removing takes one out, and
a search finds exactly the entries whose boxes overlap. -/

namespace Tabletop.Space

/-! ### Coordinates -/

instance {α : Type} [LinearOrder α] : Coordinate α where
  lt a b := decide (a < b)
  le a b := decide (a ≤ b)
  same a b := decide (a = b)
  least := min
  greatest := max

namespace Box

variable {α : Type} [LinearOrder α] {a b c : Box α}

theorem overlaps_iff : a.overlaps b = true ↔
    a.lo.x < b.hi.x ∧ b.lo.x < a.hi.x ∧ a.lo.y < b.hi.y ∧ b.lo.y < a.hi.y := by
  simp [overlaps, Coordinate.lt, and_assoc]

theorem overlaps_comm : a.overlaps b = b.overlaps a := by
  rw [Bool.eq_iff_iff, overlaps_iff, overlaps_iff]
  constructor <;> exact fun ⟨h₁, h₂, h₃, h₄⟩ => ⟨h₂, h₁, h₄, h₃⟩

theorem union_overlaps (h : a.overlaps c = true ∨ b.overlaps c = true) :
    (a.union b).overlaps c = true := by
  simp only [overlaps_iff, union, Coordinate.least, Coordinate.greatest, min_lt_iff,
    lt_max_iff] at h ⊢
  rcases h with ⟨h₁, h₂, h₃, h₄⟩ | ⟨h₁, h₂, h₃, h₄⟩
  · exact ⟨.inl h₁, .inl h₂, .inl h₃, .inl h₄⟩
  · exact ⟨.inr h₁, .inr h₂, .inr h₃, .inr h₄⟩

theorem eq_of_same (h : a.same b = true) : a = b := by
  obtain ⟨⟨_, _⟩, ⟨_, _⟩⟩ := a
  simp only [same, Coordinate.same, Bool.and_eq_true, decide_eq_true_eq, and_assoc] at h
  obtain ⟨rfl, rfl, rfl, rfl⟩ := h
  rfl

end Box

namespace Tree

variable {α : Type}

theorem mem_of_perm {t : Tree α} {l : List Nat} (hl : (t.leaves.map (·.2)).Perm l)
    {e : String × Nat} (he : e ∈ t.leaves) : e.2 ∈ l :=
  hl.mem_iff.mp (List.mem_map_of_mem he)

variable [Inhabited α]

/-! ### Look-ups -/

theorem get?_of_notMem {t : Tree α} {j : String} (hj : j ∉ Keyed.keys t.leaves) :
    t.get? j = none := by
  rw [get?, Keyed.lookup_eq_none.mpr hj]; rfl

theorem get?_of_mem {t : Tree α} (h : (Keyed.keys t.leaves).Nodup) {j : String} {i : Nat}
    (hj : (j, i) ∈ t.leaves) : t.get? j = some (t.node i).box := by
  rw [get?, (Keyed.lookup_eq_some h).mpr hj]; rfl

theorem get?_eq_some {t : Tree α} (h : (Keyed.keys t.leaves).Nodup) {j : String} {b : Box α} :
    t.get? j = some b ↔ ∃ i, (j, i) ∈ t.leaves ∧ (t.node i).box = b := by
  constructor
  · intro hb
    obtain ⟨i, hi, rfl⟩ := Option.map_eq_some_iff.mp hb
    exact ⟨i, Keyed.mem_of_lookup hi, rfl⟩
  · rintro ⟨i, hi, rfl⟩
    exact get?_of_mem h hi

theorem get?_congr {t t' : Tree α} {j : String}
    (hleaves : t'.leaves.lookup j = t.leaves.lookup j)
    (hboxes : ∀ i, (j, i) ∈ t.leaves → (t'.node i).box = (t.node i).box) :
    t'.get? j = t.get? j := by
  simp only [get?, hleaves]
  cases hj : t.leaves.lookup j with
  | none => rfl
  | some i => simp only [Option.map_some, hboxes i (Keyed.mem_of_lookup hj)]

/-! ### Well-formed trees -/

section

variable [Coordinate α] {t : Tree α} {id : String} {leaf : Nat}

/-- A tree between two operations: nothing is loose, and the leaves are exactly those that the ids
name. -/
structure Sound (t : Tree α) : Prop where
  nodup : (Keyed.keys t.leaves).Nodup
  key : ∀ e ∈ t.leaves, (t.node e.2).key = some e.1
  held : ∃ s, Holds t [] s ∧ (t.leaves.map (·.2)).Perm (leavesOf s)

theorem sound_empty : Sound ({} : Tree α) :=
  ⟨.nil, fun _ h => (nomatch h), none, holds_empty, .refl _⟩

theorem Sound.eq_of_leaf (h : Sound t) {j : String} (hid : (id, leaf) ∈ t.leaves)
    (hj : (j, leaf) ∈ t.leaves) : j = id :=
  Option.some.inj ((h.key _ hj).symm.trans (h.key _ hid))

/-- Moving a leaf changes its box, and parents. -/
theorem Sound.move (h : Sound t) (choose : Chooser α) (hid : (id, leaf) ∈ t.leaves)
    (box : Box α) {t' : Tree α} (ht' : ((t.removeLeaf leaf).modifyNode leaf fun n =>
      { n with box }).insertLeaf choose leaf = t') :
    Sound t' ∧ t'.leaves = t.leaves ∧
      ∀ e ∈ t.leaves, (t'.node e.2).box = if e.2 = leaf then box else (t.node e.2).box := by
  obtain ⟨s, hs, hperm⟩ := h.held
  have hleaf := mem_of_perm hperm hid
  cases s with
  | none => nomatch hleaf
  | some x =>
    obtain ⟨hc, hh⟩ := (hs.linked x rfl).node_leaf leaf hleaf
    obtain ⟨s₁, h₁, hperm₁, hleaves₁, hkept₁⟩ := hs.removeLeaf hleaf
    have h₂ := h₁.modify List.mem_cons_self fun n => { n with box }
    have hlt : leaf < (t.removeLeaf leaf).nodes.size := h₁.lt (by simp)
    have hnode (j : Nat) (hj : j ∈ x.leaves) : ∃ p, ((t.removeLeaf leaf).modifyNode leaf fun n =>
        { n with box }).node j =
          { t.node j with parent := p, box := if j = leaf then box else (t.node j).box } := by
      obtain ⟨p, hp⟩ := hkept₁ j hj
      refine ⟨p, ?_⟩
      rw [node_modifyNode _ hlt, hp]
      by_cases hj : leaf = j
      · simp [hj]
      · simp [hj, Ne.symm hj]
    obtain ⟨p, hp⟩ := hnode leaf hleaf
    obtain ⟨x', h₃, hperm₃, hleaves₃, hkept₃⟩ := h₂.insertLeaf choose (by rw [hp]; exact hc)
      (by rw [hp]; exact hh)
    rw [ht'] at h₃ hleaves₃ hkept₃
    have hleaves : t'.leaves = t.leaves := hleaves₃.trans hleaves₁
    have hlast (e : String × Nat) (he : e ∈ t.leaves) : ∃ p, t'.node e.2 =
        { t.node e.2 with parent := p, box := if e.2 = leaf then box else (t.node e.2).box } := by
      have hmem := mem_of_perm hperm he
      obtain ⟨p, hp⟩ := hnode e.2 hmem
      obtain ⟨q, hq⟩ := hkept₃ e.2 (hperm₁.mem_iff.mpr hmem)
      exact ⟨q, by rw [hq, hp]⟩
    refine ⟨⟨by rw [hleaves]; exact h.nodup, fun e he => ?_, some x', h₃, ?_⟩, hleaves,
      fun e he => ?_⟩
    · rw [hleaves] at he
      obtain ⟨p, hp⟩ := hlast e he
      rw [hp]
      exact h.key e he
    · rw [hleaves]
      exact hperm.trans (hperm₁.symm.trans hperm₃.symm)
    · obtain ⟨p, hp⟩ := hlast e he
      rw [hp]

/-- A new id gets a leaf of its own. -/
theorem Sound.add (h : Sound t) (choose : Chooser α) (hid : id ∉ Keyed.keys t.leaves)
    {n : Node α} (hkey : n.key = some id) (hc : n.children = none) (hh : n.height = 0)
    {t' : Tree α} (ht' : insertLeaf choose (t.allocate n).1
      { (t.allocate n).2 with leaves := (id, (t.allocate n).1) :: (t.allocate n).2.leaves } = t') :
    Sound t' ∧ (∃ leaf, t'.leaves = (id, leaf) :: t.leaves ∧ (t'.node leaf).box = n.box) ∧
      ∀ e ∈ t.leaves, (t'.node e.2).box = (t.node e.2).box := by
  obtain ⟨s, hs, hperm⟩ := h.held
  obtain ⟨i, t₁, halloc, h₁, hleaves₁, hi, hnode₁⟩ := hs.allocate n
  rw [halloc] at ht'
  have h₂ := h₁.relabel ((id, i) :: t₁.leaves)
  have hnode₂ (j : Nat) :
      ({ t₁ with leaves := (id, i) :: t₁.leaves } : Tree α).node j = t₁.node j := rfl
  obtain ⟨x, h₃, hperm₃, hleaves₃, hkept₃⟩ := h₂.insertLeaf choose (by rw [hnode₂, hi]; exact hc)
    (by rw [hnode₂, hi]; exact hh)
  rw [ht'] at h₃ hleaves₃ hkept₃
  have hleaves : t'.leaves = (id, i) :: t.leaves := by rw [hleaves₃, hleaves₁]
  obtain ⟨p, hp⟩ := hkept₃ i List.mem_cons_self
  rw [hnode₂, hi] at hp
  have hlast (e : String × Nat) (he : e ∈ t.leaves) :
      ∃ p, t'.node e.2 = { t.node e.2 with parent := p } := by
    have hmem := mem_of_perm hperm he
    obtain ⟨p, hp⟩ := hkept₃ e.2 (List.mem_cons_of_mem _ hmem)
    have hne : e.2 ≠ i := fun e => h₁.loose_notMem List.mem_cons_self (e ▸ mem_slotsOf hmem)
    exact ⟨p, by rw [hp, hnode₂, hnode₁ _ hne]⟩
  refine ⟨⟨?_, fun e he => ?_, some x, h₃, ?_⟩, ⟨i, hleaves, by rw [hp]⟩, fun e he => ?_⟩
  · rw [hleaves]
    exact List.nodup_cons.mpr ⟨hid, h.nodup⟩
  · rw [hleaves] at he
    rcases List.mem_cons.mp he with rfl | he
    · rw [hp]; exact hkey
    · obtain ⟨q, hq⟩ := hlast e he
      rw [hq]; exact h.key e he
  · rw [hleaves]
    exact (hperm.cons i).trans hperm₃.symm
  · obtain ⟨q, hq⟩ := hlast e he
    rw [hq]

/-- Dropping a leaf leaves the others as they are. -/
theorem Sound.drop (h : Sound t) (hid : (id, leaf) ∈ t.leaves) {t' : Tree α}
    (ht' : ({ t with leaves := Keyed.erase id t.leaves }.removeLeaf leaf).release leaf = t') :
    Sound t' ∧ t'.leaves = Keyed.erase id t.leaves ∧
      ∀ e ∈ t'.leaves, (t'.node e.2).box = (t.node e.2).box := by
  obtain ⟨s, hs, hperm⟩ := h.held
  have hleaf := mem_of_perm hperm hid
  cases s with
  | none => nomatch hleaf
  | some x =>
    have hr := hs.relabel (Keyed.erase id t.leaves)
    obtain ⟨s₁, h₁, hperm₁, hleaves₁, hkept₁⟩ := hr.removeLeaf hleaf
    have h₂ := h₁.release
    rw [ht'] at h₂
    have hleaves : t'.leaves = Keyed.erase id t.leaves := by rw [← ht']; exact hleaves₁
    have hlast (e : String × Nat) (he : e ∈ t'.leaves) :
        e ∈ t.leaves ∧ ∃ p, t'.node e.2 = { t.node e.2 with parent := p } := by
      rw [hleaves] at he
      obtain ⟨he, hne⟩ := Keyed.mem_erase.mp he
      obtain ⟨p, hp⟩ := hkept₁ e.2 (mem_of_perm hperm he)
      have hne' : leaf ≠ e.2 := by
        rintro rfl
        exact hne (h.eq_of_leaf hid he)
      exact ⟨he, p, by rw [← ht', node_release_ne _ hne', hp]; rfl⟩
    refine ⟨⟨?_, fun e he => ?_, s₁, h₂, ?_⟩, hleaves, fun e he => ?_⟩
    · rw [hleaves]
      exact Keyed.nodup_keys_erase id h.nodup
    · obtain ⟨he, p, hp⟩ := hlast e he
      rw [hp]
      exact h.key e he
    · rw [hleaves]
      have := (Keyed.perm_cons_erase h.nodup hid).map (·.2)
      exact List.Perm.cons_inv (this.symm.trans (hperm.trans hperm₁.symm))
    · obtain ⟨-, p, hp⟩ := hlast e he
      rw [hp]

/-! ### Inserting and removing -/

theorem insert_cases (h : Sound t) (choose : Chooser α) (id : String) (box : Box α) :
    (∃ b, t.get? id = some b ∧ b.same box = true ∧ t.insert choose id box = t) ∨
    Sound (t.insert choose id box) ∧ (t.insert choose id box).get? id = some box ∧
      ∀ j, j ≠ id → (t.insert choose id box).get? j = t.get? j := by
  cases hid : t.leaves.lookup id with
  | none =>
    have hnew := Keyed.lookup_eq_none.mp hid
    obtain ⟨hs, ⟨leaf, hleaves, hbox⟩, hothers⟩ := h.add choose hnew
      (n := ⟨box, none, none, 0, some id⟩) rfl rfl rfl
      (show _ = t.insert choose id box by simp only [Tree.insert, hid])
    refine .inr ⟨hs, ?_, fun j hj => get?_congr ?_ fun i hi => hothers _ hi⟩
    · rw [get?_of_mem hs.nodup (by rw [hleaves]; exact List.mem_cons_self), hbox]
    · rw [hleaves, List.lookup_cons, beq_eq_false_iff_ne.mpr hj]
  | some leaf =>
    have hmem := Keyed.mem_of_lookup hid
    cases hsame : (t.node leaf).box.same box with
    | true =>
      refine .inl ⟨_, get?_of_mem h.nodup hmem, hsame, ?_⟩
      simp only [Tree.insert, hid, hsame, ↓reduceIte]
    | false =>
      obtain ⟨hs, hleaves, hboxes⟩ := h.move choose hmem box
        (show _ = t.insert choose id box by simp [Tree.insert, hid, hsame])
      refine .inr ⟨hs, ?_, fun j hj => get?_congr (by rw [hleaves]) fun i hi => ?_⟩
      · rw [get?_of_mem hs.nodup (by rw [hleaves]; exact hmem), hboxes _ hmem, if_pos rfl]
      · rw [hboxes _ hi, if_neg]
        rintro rfl
        exact hj (h.eq_of_leaf hmem hi)

theorem Sound.insert (h : Sound t) (choose : Chooser α) (id : String) (box : Box α) :
    Sound (t.insert choose id box) := by
  obtain ⟨b, -, -, hins⟩ | ⟨hs, -⟩ := insert_cases h choose id box
  · rw [hins]; exact h
  · exact hs

theorem remove_cases (h : Sound t) (id : String) :
    Sound (t.remove id) ∧ ∀ j, (t.remove id).get? j = if j = id then none else t.get? j := by
  cases hid : t.leaves.lookup id with
  | none =>
    have hrem : t.remove id = t := by simp only [Tree.remove, hid]
    rw [hrem]
    refine ⟨h, fun j => ?_⟩
    split
    · next hj => rw [hj, get?_of_notMem (Keyed.lookup_eq_none.mp hid)]
    · rfl
  | some leaf =>
    have hmem := Keyed.mem_of_lookup hid
    obtain ⟨hs, hleaves, hboxes⟩ := h.drop hmem
      (show _ = t.remove id by simp only [Tree.remove, hid])
    refine ⟨hs, fun j => ?_⟩
    split
    · next hj =>
      simp only [get?, hleaves, Keyed.lookup_erase, if_pos hj, Option.map_none]
    · next hj =>
      refine get?_congr (by rw [hleaves, Keyed.lookup_erase, if_neg hj]) fun i hi =>
        hboxes (j, i) ?_
      rw [hleaves]
      exact Keyed.mem_erase.mpr ⟨hi, hj⟩

theorem Sound.remove (h : Sound t) (id : String) : Sound (t.remove id) :=
  (remove_cases h id).1

theorem Sound.get?_remove (h : Sound t) (id j : String) :
    (t.remove id).get? j = if j = id then none else t.get? j :=
  (remove_cases h id).2 j

end

/-! ### Coordinates in a linear order -/

variable [LinearOrder α] {t : Tree α} {q : Box α}

theorem Sound.get?_insert (h : Sound t) (choose : Chooser α) (id : String) (box : Box α)
    (j : String) : (t.insert choose id box).get? j = if j = id then some box else t.get? j := by
  obtain ⟨b, hb, hsame, hins⟩ | ⟨-, hid, hothers⟩ := insert_cases h choose id box
  · rw [hins]
    split
    · next hj => rw [hj, hb, Box.eq_of_same hsame]
    · rfl
  · split
    · next hj => rw [hj, hid]
    · next hj => exact hothers j hj

/-- The box of a fork misses nothing below it. -/
theorem Linked.overlaps_slot {parent : Option Nat} {x : Shape} (h : Linked t parent x) :
    ∀ i ∈ x.leaves, (t.node i).box.overlaps q = true → (t.node x.slot).box.overlaps q = true := by
  induction x generalizing parent with
  | leaf i =>
    intro j hj
    rw [List.mem_singleton.mp hj]
    exact id
  | fork i l r hl hr =>
    obtain ⟨-, -, -, hb, -, hll, hrr⟩ := h
    intro j hj hq
    simp only [Shape.slot]
    rw [hb]
    refine Box.union_overlaps ?_
    exact (List.mem_append.mp hj).imp (hl hll j · hq) (hr hrr j · hq)

/-- What a search gives of one leaf. -/
def found (t : Tree α) (q : Box α) (i : Nat) : List String :=
  if (t.node i).box.overlaps q then (t.node i).key.toList else []

theorem Linked.collect {parent : Option Nat} {x : Shape} (h : Linked t parent x) {fuel : Nat}
    (hfuel : x.slots.length ≤ fuel) :
    Tree.collect t q fuel x.slot = x.leaves.flatMap (found t q) := by
  induction x generalizing parent fuel with
  | leaf i =>
    obtain ⟨fuel, rfl⟩ : ∃ n, fuel = n + 1 := ⟨fuel - 1, by simp [Shape.slots] at hfuel; omega⟩
    simp [Tree.collect, Shape.slot, Shape.leaves, found, h.2.2.1]
  | fork i l r hl hr =>
    simp only [Shape.slots, List.length_cons, List.length_append] at hfuel
    obtain ⟨fuel, rfl⟩ : ∃ n, fuel = n + 1 := ⟨fuel - 1, by omega⟩
    have hmiss := h.overlaps_slot (q := q)
    obtain ⟨-, -, hc, -, -, hll, hrr⟩ := h
    by_cases hq : (t.node i).box.overlaps q
    · simp only [Shape.slot_fork, Tree.collect, hc, hq, ↓reduceIte, Shape.leaves,
        List.flatMap_append]
      rw [hl hll (by omega), hr hrr (by omega)]
    · simp only [Shape.slot_fork, Tree.collect, hq, Bool.false_eq_true, ↓reduceIte]
      refine (List.flatMap_eq_nil_iff.mpr fun j hj => if_neg fun hj' => hq ?_).symm
      exact hmiss j hj hj'

theorem Sound.perm_query (h : Sound t) (q : Box α) :
    (t.query q).Perm (Keyed.keys (t.leaves.filter fun e => (t.node e.2).box.overlaps q)) := by
  obtain ⟨s, hs, hperm⟩ := h.held
  have hquery : t.query q = (leavesOf s).flatMap (found t q) := by
    cases s with
    | none =>
      have hroot : t.root = none := hs.root
      simp [query, hroot, leavesOf]
    | some x =>
      have hroot : t.root = some x.slot := hs.root
      simp only [query, hroot]
      exact (hs.linked x rfl).collect hs.length_le
  have hfound (l : List (String × Nat)) (hl : ∀ e ∈ l, (t.node e.2).key = some e.1) :
      (l.map (·.2)).flatMap (found t q) =
        Keyed.keys (l.filter fun e => (t.node e.2).box.overlaps q) := by
    induction l with
    | nil => rfl
    | cons e l ih =>
      rw [List.map_cons, List.flatMap_cons, ih fun e he => hl e (List.mem_cons_of_mem _ he),
        List.filter_cons, found, hl e List.mem_cons_self]
      split <;> rfl
  rw [hquery, ← hfound _ h.key]
  exact hperm.symm.flatMap_right _

/-- A search finds the ids whose boxes overlap. -/
theorem Sound.mem_query (h : Sound t) (q : Box α) (id : String) :
    id ∈ t.query q ↔ ∃ b, t.get? id = some b ∧ b.overlaps q = true := by
  rw [(h.perm_query q).mem_iff, Keyed.mem_keys]
  simp only [List.mem_filter, get?_eq_some h.nodup]
  constructor
  · rintro ⟨i, hi, hq⟩
    exact ⟨_, ⟨i, hi, rfl⟩, hq⟩
  · rintro ⟨_, ⟨i, hi, rfl⟩, hq⟩
    exact ⟨i, hi, hq⟩

/-- It finds each of them once. -/
theorem Sound.nodup_query (h : Sound t) (q : Box α) : (t.query q).Nodup := by
  rw [(h.perm_query q).nodup_iff]
  exact h.nodup.sublist (List.filter_sublist.map _)

end Tree

end Tabletop.Space
