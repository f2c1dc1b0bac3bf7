import Mathlib.Data.List.Chain
import Tabletop.Proofs.Snapshot
import Tabletop.Proofs.Space.Tracking

/-! The overlaps of a scene that is watched snapshot by snapshot. They are those of the last
snapshot alone, whatever came before it. -/

namespace Tabletop

/-- What is remembered between snapshots. -/
structure Watch (α : Type) where
  differ : Differ := {}
  overlaps : Space.Overlaps α := {}

/-- The box of an id in a snapshot, if it names an object that can collide. -/
def boxesIn {α : Type} (boxOf : SceneObject → Space.Box α) (snapshot : List SceneObject)
    (id : String) : Option (Space.Box α) :=
  (lastObject snapshot id).bind fun o => if o.isCollidable then some (boxOf o) else none

/-- What a host promises of two snapshots in a row: an object whose `lastModified` did not move has
the box it had, and can collide if it could. -/
def Steady {α : Type} (boxOf : SceneObject → Space.Box α) (before now : List SceneObject) : Prop :=
  ∀ id o o', lastObject before id = some o → lastObject now id = some o' →
    o.lastModified = o'.lastModified → boxOf o = boxOf o' ∧ o.isCollidable = o'.isCollidable

section

variable {α : Type} {boxOf : SceneObject → Space.Box α} {now : List SceneObject}

theorem boxesIn_of_mem {o : SceneObject} (h : lastObject now o.id = some o) :
    boxesIn boxOf now o.id = if o.isCollidable then some (boxOf o) else none := by
  rw [boxesIn, h, Option.bind_some]

theorem boxesIn_eq_some {id : String} {b : Space.Box α} : boxesIn boxOf now id = some b ↔
    ∃ o, lastObject now id = some o ∧ o.isCollidable = true ∧ boxOf o = b := by
  simp only [boxesIn, Option.bind_eq_some_iff]
  simp

theorem boxesIn_eq_none {id : String} (h : lastObject now id = none) :
    boxesIn boxOf now id = none := by
  rw [boxesIn, h, Option.bind_none]

/-- What the differ leaves out has the box it had. -/
theorem boxesIn_of_untouched {d : Differ} {before : List SceneObject}
    (hd : d.previous = Differ.byId before) (hsteady : Steady boxOf before now) {id : String}
    (hgone : id ∉ (d.update now).1.deleted)
    (htouched : ∀ o ∈ (d.update now).1.touched, o.id ≠ id) :
    boxesIn boxOf now id = boxesIn boxOf before id := by
  rw [Differ.mem_deleted hd] at hgone
  cases hnow : lastObject now id with
  | none =>
    have hbefore : lastObject before id = none := by
      by_contra hne
      exact hgone ⟨hne, hnow⟩
    rw [boxesIn_eq_none hnow, boxesIn_eq_none hbefore]
  | some o =>
    obtain rfl := id_of_lastObject hnow
    by_cases hq : ∃ q, lastObject before o.id = some q ∧ q.lastModified = o.lastModified
    · obtain ⟨q, hq, hsame⟩ := hq
      obtain ⟨hbox, hcollidable⟩ := hsteady o.id q o hq hnow hsame
      simp only [boxesIn, hnow, hq, Option.bind_some, hbox, hcollidable]
    · have hmem := (Differ.mem_touched hd).mpr ⟨hnow, fun q hq' hsame => hq ⟨q, hq', hsame⟩⟩
      exact absurd rfl (htouched o hmem)

theorem steady_nil (boxOf : SceneObject → Space.Box α) (now : List SceneObject) :
    Steady boxOf [] now :=
  fun _ _ _ h => nomatch h

end

namespace Watch

open Space

variable {α : Type} [Inhabited α] [LinearOrder α] (boxOf : SceneObject → Box α)
  (choose : Chooser α)

/-- Takes in a snapshot. -/
def see (w : Watch α) (snapshot : List SceneObject) : OverlapChange × Watch α :=
  let (diff, differ) := w.differ.update snapshot
  let (overlaps, change) := w.overlaps.update choose (diff.movementBy boxOf)
  (change, { differ, overlaps })

/-- Takes in snapshots from the first on. -/
def after (snapshots : List (List SceneObject)) : Watch α :=
  snapshots.foldl (fun w snapshot => (w.see boxOf choose snapshot).2) {}

/-- A watch that is up to date with a snapshot. -/
structure Follows (w : Watch α) (snapshot : List SceneObject) : Prop where
  differ : w.differ.previous = Differ.byId snapshot
  overlaps : w.overlaps.Tracks (boxesIn boxOf snapshot)

variable {boxOf} {w : Watch α} {before now : List SceneObject}

theorem follows_nil : Follows boxOf ({} : Watch α) [] :=
  ⟨rfl, Overlaps.tracks_empty⟩

theorem see_follows (h : Follows boxOf w before) (hsteady : Steady boxOf before now) :
    Follows boxOf (w.see boxOf choose now).2 now ∧
      Overlaps.Reports (Meets (boxesIn boxOf before)) (Meets (boxesIn boxOf now))
        (w.see boxOf choose now).1 := by
  have hgone (id : String) (hid : id ∈ (w.differ.update now).1.deleted) :
      boxesIn boxOf now id = none :=
    boxesIn_eq_none ((Differ.mem_deleted h.differ).mp hid).2
  have htouched (e) (he : e ∈ ((w.differ.update now).1.movementBy boxOf).touched) :
      boxesIn boxOf now e.1 = e.2 := by
    obtain ⟨o, ho, rfl⟩ := List.mem_map.mp he
    exact boxesIn_of_mem ((Differ.mem_touched h.differ).mp ho).1
  have hrest (id : String) (hid : id ∉ (w.differ.update now).1.deleted)
      (hid' : id ∉ Keyed.keys ((w.differ.update now).1.movementBy boxOf).touched) :
      boxesIn boxOf now id = boxesIn boxOf before id := by
    refine boxesIn_of_untouched h.differ hsteady hid fun o ho hoid => hid' ?_
    rw [← hoid]
    exact List.mem_map_of_mem (List.mem_map_of_mem ho)
  obtain ⟨hs, hreports⟩ := h.overlaps.update choose hgone htouched hrest rfl
  exact ⟨⟨rfl, hs⟩, hreports⟩

/-- A watch is up to date with the last snapshot it took in. -/
theorem after_follows {snapshots : List (List SceneObject)}
    (h : (snapshots ++ [now]).IsChain (Steady boxOf)) :
    ∃ before, Steady boxOf before now ∧ Follows boxOf (after boxOf choose snapshots) before := by
  induction snapshots using List.reverseRecOn generalizing now with
  | nil => exact ⟨[], steady_nil boxOf now, follows_nil⟩
  | append_singleton snapshots last ih =>
    rw [List.append_assoc] at h
    obtain ⟨hinit, hlast, -⟩ := List.isChain_append_cons_cons.mp h
    obtain ⟨before, hsteady, hfollows⟩ := ih hinit
    refine ⟨last, hlast, ?_⟩
    rw [after, List.foldl_concat]
    exact (see_follows choose hfollows hsteady).1

theorem touching_iff_meets {a b : String} (h : Follows boxOf w now) :
    w.overlaps.touching a b = true ↔ Meets (boxesIn boxOf now) a b := by
  rw [Overlaps.touching, List.contains_iff_mem, h.overlaps.links]

theorem touching_iff {a b : String} (h : Follows boxOf w now) : w.overlaps.touching a b = true ↔
    a ≠ b ∧ ∃ o p, lastObject now a = some o ∧ lastObject now b = some p ∧
      o.isCollidable = true ∧ p.isCollidable = true ∧ (boxOf o).overlaps (boxOf p) = true := by
  rw [touching_iff_meets h, Meets]
  simp only [boxesIn_eq_some]
  constructor
  · rintro ⟨hab, _, _, ⟨o, ho, hoc, rfl⟩, ⟨p, hp, hpc, rfl⟩, hop⟩
    exact ⟨hab, o, p, ho, hp, hoc, hpc, hop⟩
  · rintro ⟨hab, o, p, ho, hp, hoc, hpc, hop⟩
    exact ⟨hab, _, _, ⟨o, ho, hoc, rfl⟩, ⟨p, hp, hpc, rfl⟩, hop⟩

theorem isSymmetric_of_follows (h : Follows boxOf w now) : w.overlaps.isSymmetric = true := by
  refine List.all_eq_true.mpr fun l hl => List.contains_iff_mem.mpr ?_
  exact h.overlaps.links.mpr (h.overlaps.links.mp hl).symm

/-- After any snapshots of a faithful host, two objects touch when the boxes they now have overlap,
and a snapshot reports each pair that began or ceased to touch with it, once. -/
theorem overlaps_exact (boxOf : SceneObject → Box α) (choose : Chooser α)
    (history : List (List SceneObject)) (last : List SceneObject)
    (h : (history ++ [last]).IsChain (Steady boxOf)) :
    let old := (after boxOf choose history).overlaps
    let new := (after boxOf choose (history ++ [last])).overlaps
    let change := ((after boxOf choose history).see boxOf choose last).1
    (∀ a b, new.touching a b = true ↔
      a ≠ b ∧ ∃ o p, lastObject last a = some o ∧ lastObject last b = some p ∧
        o.isCollidable = true ∧ p.isCollidable = true ∧ (boxOf o).overlaps (boxOf p) = true) ∧
    (∀ p, p ∈ change.started ↔
      ∃ a b, p = .of a b ∧ new.touching a b = true ∧ old.touching a b = false) ∧
    (∀ p, p ∈ change.finished ↔
      ∃ a b, p = .of a b ∧ old.touching a b = true ∧ new.touching a b = false) ∧
    change.started.Nodup ∧ change.finished.Nodup ∧ change.started.Disjoint change.finished ∧
    new.isSymmetric = true := by
  obtain ⟨before, hsteady, hold⟩ := after_follows choose h
  have hsee := see_follows choose hold hsteady
  have hnew : Follows boxOf (after boxOf choose (history ++ [last])) last := by
    rw [after, List.foldl_concat]
    exact hsee.1
  obtain ⟨-, hstarted, hfinished, hns, hnf⟩ := hsee
  have hnot {w : Watch α} {s : List SceneObject} (hw : Follows boxOf w s) (a b : String) :
      w.overlaps.touching a b = false ↔ ¬Meets (boxesIn boxOf s) a b := by
    rw [← touching_iff_meets hw, Bool.not_eq_true]
  refine ⟨fun a b => touching_iff hnew, fun p => ?_, fun p => ?_, hns, hnf, ?_,
    isSymmetric_of_follows hnew⟩
  · rw [hstarted]
    simp only [touching_iff_meets hnew, hnot hold]
  · rw [hfinished]
    simp only [touching_iff_meets hold, hnot hnew]
  · intro p hs hf
    obtain ⟨a, b, rfl, hab, -⟩ := (hstarted p).mp hs
    obtain ⟨c, d, hp, -, hcd⟩ := (hfinished _).mp hf
    rcases Pair.of_eq_of.mp hp with ⟨rfl, rfl⟩ | ⟨rfl, rfl⟩
    · exact hcd hab
    · exact hcd hab.symm

/-- A marker that its host has written some times. -/
def marker (id : String) (written : Nat) : SceneObject := { id, lastModified := written }

/-- A box two wide, which lies one further to the right with each write. -/
def strip (o : SceneObject) : Box Nat := ⟨⟨o.lastModified, 0⟩, ⟨o.lastModified + 2, 1⟩⟩

/-- A marker that stays, and one that leaves it. -/
theorem overlaps_exact_markers :
    let near := [marker "map" 0, marker "pin" 1]
    let far := [marker "map" 0, marker "pin" 2]
    [near, far].IsChain (Steady strip) ∧
      Pair.of "map" "pin" ∈ ((after strip (fun _ _ _ => .here) [near]).see strip
        (fun _ _ _ => .here) far).1.finished := by
  intro near far
  have hmarker (l : List SceneObject) (hl : ∀ o ∈ l, o.isCollidable = true) (id : String)
      (o : SceneObject) (h : lastObject l id = some o) : o.isCollidable = true :=
    hl o (by simpa using List.mem_of_find?_eq_some h)
  have hsteady : [near, far].IsChain (Steady strip) := by
    refine .cons_cons (fun id o p ho hp hsame => ⟨by simp only [strip, hsame], ?_⟩) (.singleton _)
    rw [hmarker near (by decide) id o ho, hmarker far (by decide) id p hp]
  refine ⟨hsteady, ?_⟩
  obtain ⟨-, -, hfinished, -⟩ := overlaps_exact strip (fun _ _ _ => .here) [near] far hsteady
  exact (hfinished _).mpr ⟨"map", "pin", rfl, by decide, by decide⟩

end Watch

end Tabletop
