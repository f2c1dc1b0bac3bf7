import Tabletop.Proofs.Space.Contents
import Tabletop.Proofs.Space.Ledger

/-! Overlaps that are kept up to date batch by batch are those of the boxes as they are, and each
batch reports what changed. -/

namespace Tabletop.Space

variable {α : Type} [LinearOrder α]

/-- Two different ids whose boxes overlap. -/
def Meets (boxes : String → Option (Box α)) (a b : String) : Prop :=
  a ≠ b ∧ ∃ x y, boxes a = some x ∧ boxes b = some y ∧ x.overlaps y = true

theorem Meets.symm {boxes : String → Option (Box α)} {a b : String} (h : Meets boxes a b) :
    Meets boxes b a := by
  obtain ⟨hab, x, y, hx, hy, hxy⟩ := h
  exact ⟨hab.symm, y, x, hy, hx, by rw [Box.overlaps_comm]; exact hxy⟩

theorem not_meets {boxes : String → Option (Box α)} {a : String} (ha : boxes a = none)
    (b : String) : ¬Meets boxes a b := by
  rintro ⟨-, x, y, hx, -⟩
  rw [ha] at hx
  nomatch hx

theorem Meets.congr {boxes boxes' : String → Option (Box α)} {a b : String}
    (ha : boxes' a = boxes a) (hb : boxes' b = boxes b) : Meets boxes' a b ↔ Meets boxes a b := by
  simp only [Meets, ha, hb]

namespace Overlaps

variable [Inhabited α]

/-- Overlaps that are up to date with some boxes. -/
structure Tracks (s : Overlaps α) (boxes : String → Option (Box α)) : Prop where
  sound : s.tree.Sound
  get : ∀ id, s.tree.get? id = boxes id
  links : ∀ {a b}, (a, b) ∈ s.links ↔ Meets boxes a b

theorem tracks_empty : Tracks ({} : Overlaps α) fun _ => none where
  sound := Tree.sound_empty
  get _ := rfl
  links := ⟨nofun, fun h => absurd h (not_meets rfl _)⟩

variable {target : String → Option (Box α)} {before : List (String × String)} {s : Overlaps α}
  {c : OverlapChange} {p : Overlaps α × OverlapChange}

/-! ### The parts of a batch -/

theorem forgetAll {ids : List String} (h : Ledger (Meets target) before s.links c)
    (hs : s.tree.Sound) (hids : ∀ id ∈ ids, target id = none)
    (hp : ids.foldl (fun p id => forget id p.1 p.2) (s, c) = p) :
    Ledger (Meets target) before p.1.links p.2 ∧ p.1.tree.Sound ∧
      (∀ j, p.1.tree.get? j = if j ∈ ids then none else s.tree.get? j) ∧
      Settled (Meets target) (· ∈ ids) s.links p.1.links := by
  induction ids generalizing s c with
  | nil =>
    subst hp
    exact ⟨h, hs, fun j => by simp, Settled.refl.congr fun x => by simp⟩
  | cons id ids ih =>
    obtain ⟨h₁, htree₁, hset₁⟩ := h.forget Meets.symm
      (not_meets (hids id List.mem_cons_self)) rfl
    obtain ⟨h₂, hs₂, hget₂, hset₂⟩ := ih h₁ (by rw [htree₁]; exact hs.remove id)
      (fun x hx => hids x (List.mem_cons_of_mem _ hx)) hp
    refine ⟨h₂, hs₂, fun j => ?_, (hset₁.trans hset₂).congr fun x => List.mem_cons.symm⟩
    rw [hget₂, htree₁, hs.get?_remove]
    by_cases hj : j ∈ ids <;> by_cases hj' : j = id <;> simp [hj, hj']

theorem placeAll (choose : Chooser α) {touched : List (String × Option (Box α))}
    (h : Ledger (Meets target) before s.links c) (hs : s.tree.Sound)
    (htouched : ∀ e ∈ touched, target e.1 = e.2)
    (hp : touched.foldl (fun p o => place choose p.1 p.2 o) (s, c) = p) :
    Ledger (Meets target) before p.1.links p.2 ∧ p.1.tree.Sound ∧
      (∀ j, p.1.tree.get? j = if j ∈ Keyed.keys touched then target j else s.tree.get? j) ∧
      Settled (Meets target) (fun x => (x, none) ∈ touched) s.links p.1.links := by
  induction touched generalizing s c with
  | nil =>
    subst hp
    exact ⟨h, hs, fun j => by simp [Keyed.keys], Settled.refl.congr fun x => by simp⟩
  | cons e touched ih =>
    have hrest (x) (hx : x ∈ touched) := htouched x (List.mem_cons_of_mem _ hx)
    have htarget := htouched e List.mem_cons_self
    have hmem {j : String} : j ∈ Keyed.keys (e :: touched) ↔ j = e.1 ∨ j ∈ Keyed.keys touched :=
      List.mem_cons
    rcases e with ⟨id, _ | box⟩
    · obtain ⟨h₁, htree₁, hset₁⟩ := h.forget Meets.symm (not_meets htarget) rfl
      obtain ⟨h₂, hs₂, hget₂, hset₂⟩ := ih h₁ (by rw [htree₁]; exact hs.remove id) hrest hp
      refine ⟨h₂, hs₂, fun j => ?_, (hset₁.trans hset₂).congr fun x => by simp⟩
      rw [hget₂, htree₁, hs.get?_remove]
      simp only [hmem]
      by_cases hj : j ∈ Keyed.keys touched <;> by_cases hj' : j = id <;> simp [hj, hj', htarget]
    · obtain ⟨h₂, hs₂, hget₂, hset₂⟩ := ih
        (s := { s with tree := s.tree.insert choose id box }) h (hs.insert choose id box) hrest hp
      refine ⟨h₂, hs₂, fun j => ?_, hset₂.congr fun x => by simp⟩
      rw [hget₂, hs.get?_insert]
      simp only [hmem]
      by_cases hj : j ∈ Keyed.keys touched <;> by_cases hj' : j = id <;> simp [hj, hj', htarget]

theorem relinkAll {touched : List (String × Option (Box α))}
    (h : Ledger (Meets target) before s.links c) (hs : s.tree.Sound)
    (hget : ∀ j, s.tree.get? j = target j) (htouched : ∀ e ∈ touched, target e.1 = e.2)
    (hp : touched.foldl (fun p o => match o.2 with
      | some box => relink o.1 box p.1 p.2
      | none => p) (s, c) = p) :
    Ledger (Meets target) before p.1.links p.2 ∧ p.1.tree = s.tree ∧
      Settled (Meets target) (fun x => ∃ b, (x, some b) ∈ touched) s.links p.1.links := by
  induction touched generalizing s c with
  | nil =>
    subst hp
    exact ⟨h, rfl, Settled.refl.congr fun x => by simp⟩
  | cons e touched ih =>
    have hrest (x) (hx : x ∈ touched) := htouched x (List.mem_cons_of_mem _ hx)
    have htarget := htouched e List.mem_cons_self
    rcases e with ⟨id, _ | box⟩
    · obtain ⟨h₂, htree₂, hset₂⟩ := ih h hs hget hrest hp
      exact ⟨h₂, htree₂, hset₂.congr fun x => by simp⟩
    · have hquery (o : String) : Meets target id o ↔ o ∈ s.tree.query box ∧ o ≠ id := by
        rw [hs.mem_query, hget]
        constructor
        · rintro ⟨hne, x, y, hx, hy, hxy⟩
          obtain rfl := Option.some.inj (htarget.symm.trans hx)
          exact ⟨⟨y, hy, by rw [Box.overlaps_comm]; exact hxy⟩, hne.symm⟩
        · rintro ⟨⟨y, hy, hxy⟩, hne⟩
          exact ⟨hne.symm, box, y, htarget, hy, by rw [Box.overlaps_comm]; exact hxy⟩
      obtain ⟨h₁, htree₁, hset₁⟩ := h.relink Meets.symm hquery rfl
      obtain ⟨h₂, htree₂, hset₂⟩ := ih h₁ (by rw [htree₁]; exact hs) (by rw [htree₁]; exact hget)
        hrest hp
      refine ⟨h₂, htree₂.trans htree₁, (hset₁.trans hset₂).congr fun x => ?_⟩
      simp [exists_or]

/-! ### Batches -/

/-- What a batch reports, from what touched before to what touches now. -/
structure Reports (before now : String → String → Prop) (c : OverlapChange) : Prop where
  started : ∀ p, p ∈ c.started ↔ ∃ a b, p = .of a b ∧ now a b ∧ ¬before a b
  finished : ∀ p, p ∈ c.finished ↔ ∃ a b, p = .of a b ∧ before a b ∧ ¬now a b
  nodup_started : c.started.Nodup
  nodup_finished : c.finished.Nodup

theorem Tracks.update {boxes : String → Option (Box α)} (h : Tracks s boxes) (choose : Chooser α)
    {m : Movement α} (hgone : ∀ id ∈ m.gone, target id = none)
    (htouched : ∀ e ∈ m.touched, target e.1 = e.2)
    (hrest : ∀ id, id ∉ m.gone → id ∉ Keyed.keys m.touched → target id = boxes id)
    (hp : s.update choose m = p) :
    Tracks p.1 target ∧ Reports (Meets boxes) (Meets target) p.2 := by
  have hnil : Ledger (Meets target) s.links s.links {} :=
    .nil fun hab => h.links.mpr (h.links.mp hab).symm
  obtain ⟨h₁, hs₁, hget₁, hset₁⟩ := forgetAll hnil h.sound hgone rfl
  obtain ⟨h₂, hs₂, hget₂, hset₂⟩ := placeAll choose h₁ hs₁ htouched rfl
  have hget (j : String) : (m.touched.foldl (fun p o => place choose p.1 p.2 o)
      (m.gone.foldl (fun p id => forget id p.1 p.2) (s, {}))).1.tree.get? j = target j := by
    rw [hget₂, hget₁, h.get]
    by_cases hj : j ∈ Keyed.keys m.touched
    · rw [if_pos hj]
    · rw [if_neg hj]
      by_cases hj' : j ∈ m.gone
      · rw [if_pos hj', hgone j hj']
      · rw [if_neg hj', hrest j hj' hj]
  obtain ⟨h₃, htree₃, hset₃⟩ := relinkAll h₂ hs₂ hget htouched hp
  have hset := (hset₁.trans hset₂).trans hset₃
  have hlinks {a b : String} : (a, b) ∈ p.1.links ↔ Meets target a b := by
    -- where neither id was in the batch, both the links and the boxes are as before
    by_cases hab : (((a ∈ m.gone ∨ (a, none) ∈ m.touched) ∨ ∃ x, (a, some x) ∈ m.touched) ∨
        (b ∈ m.gone ∨ (b, none) ∈ m.touched) ∨ ∃ x, (b, some x) ∈ m.touched)
    · exact hset.exact hab
    · have hsame (x : String) (hx : ¬((x ∈ m.gone ∨ (x, none) ∈ m.touched) ∨
          ∃ y, (x, some y) ∈ m.touched)) : target x = boxes x := by
        refine hrest x (fun hg => hx (.inl (.inl hg))) fun hk => hx ?_
        obtain ⟨_ | y, hy⟩ := Keyed.mem_keys.mp hk
        · exact .inl (.inr hy)
        · exact .inr ⟨y, hy⟩
      rw [hset.frame hab, h.links]
      obtain ⟨ha, hb⟩ := not_or.mp hab
      exact (Meets.congr (hsame a ha) (hsame b hb)).symm
  refine ⟨⟨by rw [htree₃]; exact hs₂, fun j => by rw [htree₃]; exact hget j, hlinks⟩, ?_⟩
  refine ⟨fun q => ?_, fun q => ?_, h₃.nodup_started, h₃.nodup_finished⟩
  · rw [h₃.started]; simp only [hlinks, h.links]
  · rw [h₃.finished]; simp only [hlinks, h.links]

end Overlaps

end Tabletop.Space
