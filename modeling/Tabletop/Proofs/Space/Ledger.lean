import Mathlib.Data.List.Nodup
import Tabletop.Proofs.Names
import Tabletop.Space.Overlap

/-! One batch of changes to the overlaps, on its way to a target. What is linked and what is
reported stay in step as long as links of the target alone are made, and others alone are ended. -/

namespace Tabletop.Space

theorem Pair.of_comm (a b : String) : Pair.of a b = Pair.of b a := by
  simp only [Pair.of]
  split
  · next h => rw [if_neg (String.lt_asymm h)]
  · next h =>
    split
    · rfl
    · next h' => rw [String.le_antisymm h h']

theorem Pair.of_eq_of {a b c d : String} :
    Pair.of a b = Pair.of c d ↔ (a = c ∧ b = d) ∨ (a = d ∧ b = c) := by
  constructor
  · intro h
    simp only [Pair.of] at h
    split at h <;> split at h <;> cases h
    · exact .inl ⟨rfl, rfl⟩
    · exact .inr ⟨rfl, rfl⟩
    · exact .inr ⟨rfl, rfl⟩
    · exact .inl ⟨rfl, rfl⟩
  · rintro (⟨rfl, rfl⟩ | ⟨rfl, rfl⟩)
    · rfl
    · exact Pair.of_comm a b

namespace Overlaps

variable {α : Type}

/-- Some links, against those before a batch and a target. The reports say what changed. -/
structure Ledger (target : String → String → Prop) (before l : List (String × String))
    (c : OverlapChange) : Prop where
  mirrored : ∀ {a b}, (a, b) ∈ l → (b, a) ∈ l
  kept : ∀ {a b}, target a b → (a, b) ∈ before → (a, b) ∈ l
  sound : ∀ {a b}, ¬target a b → (a, b) ∈ l → (a, b) ∈ before
  started : ∀ p, p ∈ c.started ↔ ∃ a b, p = .of a b ∧ (a, b) ∈ l ∧ (a, b) ∉ before
  finished : ∀ p, p ∈ c.finished ↔ ∃ a b, p = .of a b ∧ (a, b) ∈ before ∧ (a, b) ∉ l
  nodup_started : c.started.Nodup
  nodup_finished : c.finished.Nodup

/-- The links of some ids have reached the target, the other ones are as they were. -/
structure Settled (target : String → String → Prop) (ids : String → Prop)
    (l l' : List (String × String)) : Prop where
  exact : ∀ {a b}, ids a ∨ ids b → ((a, b) ∈ l' ↔ target a b)
  frame : ∀ {a b}, ¬(ids a ∨ ids b) → ((a, b) ∈ l' ↔ (a, b) ∈ l)

variable {target : String → String → Prop} {before l l' l'' : List (String × String)}
  {s : Overlaps α} {c : OverlapChange} {a b : String}

theorem Settled.refl : Settled target (fun _ => False) l l :=
  ⟨fun h => h.elim False.elim False.elim, fun _ => .rfl⟩

theorem Settled.trans {ids ids' : String → Prop} (h : Settled target ids l l')
    (h' : Settled target ids' l' l'') : Settled target (fun x => ids x ∨ ids' x) l l'' where
  exact {a b} hab := by
    by_cases hl : ids' a ∨ ids' b
    · exact h'.exact hl
    · rw [h'.frame hl]
      refine h.exact ?_
      rcases hab with (ha | ha) | (hb | hb)
      · exact .inl ha
      · exact absurd (.inl ha) hl
      · exact .inr hb
      · exact absurd (.inr hb) hl
  frame {a b} hab := by
    have hl' : ¬(ids' a ∨ ids' b) := fun h => hab (h.imp .inr .inr)
    have hl : ¬(ids a ∨ ids b) := fun h => hab (h.imp .inl .inl)
    rw [h'.frame hl', h.frame hl]

theorem Settled.congr {ids ids' : String → Prop} (h : Settled target ids l l')
    (hids : ∀ x, ids x ↔ ids' x) : Settled target ids' l l' := by
  obtain rfl : ids = ids' := funext fun x => propext (hids x)
  exact h

theorem mem_neighbours {id x : String} : x ∈ s.neighbours id ↔ (id, x) ∈ s.links := by
  simp only [neighbours, Names.mem_ofList, List.mem_filterMap, Prod.exists]
  constructor
  · rintro ⟨i, j, h, hx⟩
    split at hx <;> cases hx
    next hi => rw [← hi]; exact h
  · exact fun h => ⟨id, x, h, if_pos rfl⟩

/-! ### Linking and unlinking -/

theorem Ledger.nil (hb : ∀ {a b}, (a, b) ∈ l → (b, a) ∈ l) : Ledger target l l {} where
  mirrored := hb
  kept _ h := h
  sound _ h := h
  started p := by simp
  finished p := by simp
  nodup_started := .nil
  nodup_finished := .nil

theorem mem_links_link (h : Ledger target before s.links c) {x y : String} :
    (x, y) ∈ (link a b s c).1.links ↔
      (x, y) ∈ s.links ∨ (x = a ∧ y = b) ∨ (x = b ∧ y = a) := by
  simp only [link, touching, List.contains_iff_mem]
  split
  · next hab =>
    refine ⟨.inl, ?_⟩
    rintro (h' | ⟨rfl, rfl⟩ | ⟨rfl, rfl⟩)
    · exact h'
    · exact hab
    · exact h.mirrored hab
  · simp only [List.mem_cons, Prod.mk.injEq]
    rw [← or_assoc, or_comm]

theorem mem_links_unlink {x y : String} :
    (x, y) ∈ (unlink a b s c).1.links ↔
      (x, y) ∈ s.links ∧ ¬((x = a ∧ y = b) ∨ (x = b ∧ y = a)) := by
  simp [unlink, not_or]

theorem Ledger.link (h : Ledger target before s.links c) (hsymm : ∀ {a b}, target a b → target b a)
    (hab : target a b) :
    Ledger target before (Overlaps.link a b s c).1.links (Overlaps.link a b s c).2 := by
  by_cases hl : (a, b) ∈ s.links
  · rw [Overlaps.link, if_pos (by simpa [touching] using hl)]
    exact h
  have hnew : (a, b) ∉ before ∧ (b, a) ∉ before :=
    ⟨fun hb => hl (h.kept hab hb), fun hb => hl (h.mirrored (h.kept (hsymm hab) hb))⟩
  have hlinks {x y : String} := mem_links_link (a := a) (b := b) (x := x) (y := y) h
  have hchange : (Overlaps.link a b s c).2 = { c with started := c.started ++ [.of a b] } := by
    rw [Overlaps.link, if_neg (by simpa [touching] using hl)]
  refine ⟨?_, ?_, ?_, fun p => ?_, fun p => ?_, ?_, ?_⟩
  · intro x y hxy
    rw [hlinks] at hxy ⊢
    rcases hxy with hxy | ⟨rfl, rfl⟩ | ⟨rfl, rfl⟩
    · exact .inl (h.mirrored hxy)
    · exact .inr (.inr ⟨rfl, rfl⟩)
    · exact .inr (.inl ⟨rfl, rfl⟩)
  · exact fun ht hb => hlinks.mpr (.inl (h.kept ht hb))
  · intro x y ht hxy
    rcases hlinks.mp hxy with hxy | ⟨rfl, rfl⟩ | ⟨rfl, rfl⟩
    · exact h.sound ht hxy
    · exact absurd hab ht
    · exact absurd (hsymm hab) ht
  · rw [hchange, List.mem_append, List.mem_singleton, h.started]
    constructor
    · rintro (⟨x, y, rfl, hxy, hb⟩ | rfl)
      · exact ⟨x, y, rfl, hlinks.mpr (.inl hxy), hb⟩
      · exact ⟨a, b, rfl, hlinks.mpr (.inr (.inl ⟨rfl, rfl⟩)), hnew.1⟩
    · rintro ⟨x, y, rfl, hxy, hb⟩
      rcases hlinks.mp hxy with hxy | ⟨rfl, rfl⟩ | ⟨rfl, rfl⟩
      · exact .inl ⟨x, y, rfl, hxy, hb⟩
      · exact .inr rfl
      · exact .inr (Pair.of_comm _ _)
  · rw [hchange, h.finished]
    constructor
    · rintro ⟨x, y, rfl, hb, hxy⟩
      refine ⟨x, y, rfl, hb, fun hxy' => ?_⟩
      rcases hlinks.mp hxy' with hxy' | ⟨rfl, rfl⟩ | ⟨rfl, rfl⟩
      · exact hxy hxy'
      · exact hnew.1 hb
      · exact hnew.2 hb
    · rintro ⟨x, y, rfl, hb, hxy⟩
      exact ⟨x, y, rfl, hb, fun hxy' => hxy (hlinks.mpr (.inl hxy'))⟩
  · rw [hchange]
    refine h.nodup_started.append (List.nodup_singleton _) ?_
    rw [List.disjoint_singleton, h.started]
    rintro ⟨x, y, hp, hxy, -⟩
    rcases Pair.of_eq_of.mp hp with ⟨rfl, rfl⟩ | ⟨rfl, rfl⟩
    · exact hl hxy
    · exact hl (h.mirrored hxy)
  · rw [hchange]
    exact h.nodup_finished

theorem Ledger.unlink (h : Ledger target before s.links c)
    (hsymm : ∀ {a b}, target a b → target b a) (hab : ¬target a b) (hl : (a, b) ∈ s.links) :
    Ledger target before (Overlaps.unlink a b s c).1.links (Overlaps.unlink a b s c).2 := by
  have hba : ¬target b a := fun h => hab (hsymm h)
  have hold : (a, b) ∈ before ∧ (b, a) ∈ before :=
    ⟨h.sound hab hl, h.sound hba (h.mirrored hl)⟩
  have hlinks {x y : String} :=
    mem_links_unlink (s := s) (c := c) (a := a) (b := b) (x := x) (y := y)
  refine ⟨?_, ?_, ?_, fun p => ?_, fun p => ?_, h.nodup_started, ?_⟩
  · intro x y hxy
    rw [hlinks] at hxy ⊢
    refine ⟨h.mirrored hxy.1, fun hyx => hxy.2 ?_⟩
    exact hyx.symm.imp And.symm And.symm
  · intro x y ht hb
    refine hlinks.mpr ⟨h.kept ht hb, ?_⟩
    rintro (⟨rfl, rfl⟩ | ⟨rfl, rfl⟩)
    · exact hab ht
    · exact hba ht
  · exact fun ht hxy => h.sound ht (hlinks.mp hxy).1
  · refine (h.started p).trans ⟨?_, ?_⟩
    · rintro ⟨x, y, rfl, hxy, hb⟩
      refine ⟨x, y, rfl, hlinks.mpr ⟨hxy, ?_⟩, hb⟩
      rintro (⟨rfl, rfl⟩ | ⟨rfl, rfl⟩)
      · exact hb hold.1
      · exact hb hold.2
    · rintro ⟨x, y, rfl, hxy, hb⟩
      exact ⟨x, y, rfl, (hlinks.mp hxy).1, hb⟩
  · simp only [Overlaps.unlink]
    rw [List.mem_append, List.mem_singleton, h.finished]
    constructor
    · rintro (⟨x, y, rfl, hb, hxy⟩ | rfl)
      · exact ⟨x, y, rfl, hb, fun hxy' => hxy (hlinks.mp hxy').1⟩
      · exact ⟨a, b, rfl, hold.1, fun hxy => (hlinks.mp hxy).2 (.inl ⟨rfl, rfl⟩)⟩
    · rintro ⟨x, y, rfl, hb, hxy⟩
      by_cases hxy' : (x, y) ∈ s.links
      · right
        by_contra hne
        exact hxy (hlinks.mpr ⟨hxy', fun he => hne (Pair.of_eq_of.mpr he)⟩)
      · exact .inl ⟨x, y, rfl, hb, hxy'⟩
  · refine h.nodup_finished.append (List.nodup_singleton _) ?_
    rw [List.disjoint_singleton, h.finished]
    rintro ⟨x, y, hp, -, hxy⟩
    rcases Pair.of_eq_of.mp hp with ⟨rfl, rfl⟩ | ⟨rfl, rfl⟩
    · exact hxy hl
    · exact hxy (h.mirrored hl)

/-! ### All links of one id -/

theorem Ledger.linkAll {others : List String} (h : Ledger target before s.links c)
    (hsymm : ∀ {a b}, target a b → target b a) (hothers : ∀ o ∈ others, target a o)
    {p : Overlaps α × OverlapChange}
    (hp : others.foldl (fun p o => Overlaps.link a o p.1 p.2) (s, c) = p) :
    Ledger target before p.1.links p.2 ∧ p.1.tree = s.tree ∧ ∀ {x y}, (x, y) ∈ p.1.links ↔
      (x, y) ∈ s.links ∨ (x = a ∧ y ∈ others) ∨ (x ∈ others ∧ y = a) := by
  induction others generalizing s c with
  | nil => subst hp; simpa using h
  | cons o others ih =>
    have htree : (Overlaps.link a o s c).1.tree = s.tree := by
      simp only [Overlaps.link]; split <;> rfl
    obtain ⟨h', htree', hlinks⟩ := ih (h.link hsymm (hothers o List.mem_cons_self))
      (fun o ho => hothers o (List.mem_cons_of_mem _ ho)) hp
    refine ⟨h', htree'.trans htree, ?_⟩
    intro x y
    rw [hlinks, mem_links_link h, List.mem_cons, List.mem_cons]
    tauto

theorem Ledger.unlinkAll {others : List String} (h : Ledger target before s.links c)
    (hsymm : ∀ {a b}, target a b → target b a)
    (hothers : ∀ o ∈ others, ¬target a o ∧ (a, o) ∈ s.links) (hn : others.Nodup)
    {p : Overlaps α × OverlapChange}
    (hp : others.foldl (fun p o => Overlaps.unlink a o p.1 p.2) (s, c) = p) :
    Ledger target before p.1.links p.2 ∧ p.1.tree = s.tree ∧ ∀ {x y}, (x, y) ∈ p.1.links ↔
      (x, y) ∈ s.links ∧ ¬((x = a ∧ y ∈ others) ∨ (x ∈ others ∧ y = a)) := by
  induction others generalizing s c with
  | nil => subst hp; simpa using h
  | cons o others ih =>
    obtain ⟨ho, hn⟩ := List.nodup_cons.mp hn
    obtain ⟨hao, hmem⟩ := hothers o List.mem_cons_self
    have hrest : ∀ o' ∈ others, ¬target a o' ∧ (a, o') ∈ (Overlaps.unlink a o s c).1.links := by
      intro o' ho'
      obtain ⟨hao', hmem'⟩ := hothers o' (List.mem_cons_of_mem _ ho')
      refine ⟨hao', mem_links_unlink.mpr ⟨hmem', ?_⟩⟩
      rintro (⟨-, rfl⟩ | ⟨rfl, rfl⟩) <;> exact ho ho'
    obtain ⟨h', htree', hlinks⟩ := ih (h.unlink hsymm hao hmem) hrest hn hp
    refine ⟨h', htree', ?_⟩
    intro x y
    rw [hlinks, mem_links_unlink, List.mem_cons, List.mem_cons]
    tauto

theorem foldl_unlink (others : List String) (a : String) (s : Overlaps α) (c : OverlapChange) :
    others.foldl (fun p o => Overlaps.unlink a o p.1 p.2) (s, c) =
      ({ s with links := s.links.filter fun l => others.all fun o => l != (a, o) && l != (o, a) },
        { c with finished := c.finished ++ others.map (Pair.of a) }) := by
  induction others generalizing s c with
  | nil => simp
  | cons o others ih =>
    rw [List.foldl_cons, ih]
    simp [Overlaps.unlink, List.filter_filter, Bool.and_comm]

variable [Inhabited α] [Coordinate α]

/-- Bringing one object up to date settles it, if the tree knows what it must touch. -/
theorem Ledger.relink {id : String} {box : Box α} (h : Ledger target before s.links c)
    (hsymm : ∀ {a b}, target a b → target b a)
    (hquery : ∀ o, target id o ↔ o ∈ s.tree.query box ∧ o ≠ id)
    {p : Overlaps α × OverlapChange} (hp : Overlaps.relink id box s c = p) :
    Ledger target before p.1.links p.2 ∧ p.1.tree = s.tree ∧
      Settled target (· = id) s.links p.1.links := by
  simp only [Overlaps.relink] at hp
  generalize hnow : Names.ofList ((s.tree.query box).filter (· != id)) = now at hp
  generalize hended : Names.minus (s.neighbours id) now = ended at hp
  have hmemnow (o : String) : o ∈ now ↔ target id o := by
    rw [← hnow, Names.mem_ofList, hquery]; simp
  have hmemended (o : String) : o ∈ ended ↔ (id, o) ∈ s.links ∧ ¬target id o := by
    rw [← hended, Names.mem_minus, mem_neighbours, hmemnow]
  obtain ⟨h₁, htree₁, hlinks₁⟩ := h.linkAll hsymm (fun o ho => (hmemnow o).mp ho) rfl
  have hself : ¬target id id := fun ht => ((hquery id).mp ht).2 rfl
  have hended' (o : String) (ho : o ∈ ended) :
      ¬target id o ∧
        (id, o) ∈ (now.foldl (fun p o => Overlaps.link id o p.1 p.2) (s, c)).1.links := by
    obtain ⟨hmem, hno⟩ := (hmemended o).mp ho
    exact ⟨hno, hlinks₁.mpr (.inl hmem)⟩
  have hn : ended.Nodup := by
    rw [← hended]
    exact Names.nodup_minus (Names.nodup_ofList _) _
  obtain ⟨h₂, htree₂, hlinks₂⟩ := h₁.unlinkAll hsymm hended' hn hp
  have hid (y : String) : (id, y) ∈ p.1.links ↔ target id y := by
    rw [hlinks₂, hlinks₁, hmemnow, hmemnow, hmemended, hmemended]
    by_cases hy : y = id
    · subst hy; tauto
    · tauto
  refine ⟨h₂, htree₂.trans htree₁, ?_, ?_⟩
  · rintro x y (rfl | rfl)
    · exact hid y
    · exact ⟨fun h => hsymm ((hid x).mp (h₂.mirrored h)),
        fun h => h₂.mirrored ((hid x).mpr (hsymm h))⟩
  · intro x y hxy
    obtain ⟨hx, hy⟩ := not_or.mp hxy
    simp [hlinks₂, hlinks₁, hx, hy]

/-- Forgetting an id is unlinking it from all its neighbours. -/
theorem forget_eq (id : String) (s : Overlaps α) (c : OverlapChange)
    (hs : ∀ {a b}, (a, b) ∈ s.links → (b, a) ∈ s.links) {p : Overlaps α × OverlapChange}
    (hp : (s.neighbours id).foldl (fun p o => Overlaps.unlink id o p.1 p.2) (s, c) = p) :
    forget id s c = ({ p.1 with tree := s.tree.remove id }, p.2) := by
  rw [← hp, foldl_unlink]
  simp only [forget, Prod.mk.injEq, Overlaps.mk.injEq, and_true, true_and]
  refine List.filter_congr fun l hl => ?_
  rw [Bool.eq_iff_iff]
  simp only [Bool.and_eq_true, bne_iff_ne, List.all_eq_true, mem_neighbours]
  constructor
  · rintro ⟨h₁, h₂⟩ o -
    exact ⟨fun e => h₁ (congrArg Prod.fst e), fun e => h₂ (congrArg Prod.snd e)⟩
  · intro h
    refine ⟨fun e => (h l.2 (e ▸ hl)).1 (e ▸ rfl), fun e => (h l.1 (hs (e ▸ hl))).2 (e ▸ rfl)⟩

/-- Forgetting an id settles it, if it takes no part in the target. -/
theorem Ledger.forget {id : String} (h : Ledger target before s.links c)
    (hsymm : ∀ {a b}, target a b → target b a) (hid : ∀ o, ¬target id o)
    {p : Overlaps α × OverlapChange} (hp : Overlaps.forget id s c = p) :
    Ledger target before p.1.links p.2 ∧ p.1.tree = s.tree.remove id ∧
      Settled target (· = id) s.links p.1.links := by
  have hall (o : String) (ho : o ∈ s.neighbours id) : ¬target id o ∧ (id, o) ∈ s.links :=
    ⟨hid o, mem_neighbours.mp ho⟩
  obtain ⟨h', -, hlinks⟩ := h.unlinkAll hsymm hall (Names.nodup_ofList _) rfl
  rw [forget_eq id s c h.mirrored rfl] at hp
  subst hp
  refine ⟨h', rfl, ?_, ?_⟩
  · rintro x y hxy
    refine iff_of_false (fun hmem => ?_) ?_
    · obtain ⟨hold, hno⟩ := hlinks.mp hmem
      rw [mem_neighbours, mem_neighbours] at hno
      rcases hxy with rfl | rfl
      · exact hno (.inl ⟨rfl, hold⟩)
      · exact hno (.inr ⟨h.mirrored hold, rfl⟩)
    · rcases hxy with rfl | rfl
      · exact hid y
      · exact fun ht => hid x (hsymm ht)
  · intro x y hxy
    obtain ⟨hx, hy⟩ := not_or.mp hxy
    simp [hlinks, hx, hy]

end Overlaps

end Tabletop.Space
