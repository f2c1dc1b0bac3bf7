import Tabletop.Names

/-! Sets of names: what is in them, and that nothing is in them twice. -/

namespace Tabletop.Names

/-- Strictly increasing. -/
abbrev Sorted (l : List String) : Prop := l.Pairwise (· < ·)

theorem Sorted.nodup {l : List String} (h : Sorted l) : l.Nodup := by
  refine h.imp fun hlt => ?_
  rintro rfl
  exact String.lt_irrefl _ hlt

theorem mem_insert {x y : String} {l : List String} : y ∈ insert x l ↔ y = x ∨ y ∈ l := by
  induction l with
  | nil => simp [insert]
  | cons z rest ih =>
    simp only [insert]
    split
    · simp
    · split
      · simp only [List.mem_cons, ih]
        exact or_left_comm
      · next h h' =>
        obtain rfl := String.le_antisymm h' h
        simp

theorem Sorted.insert {l : List String} (h : Sorted l) (x : String) : Sorted (insert x l) := by
  induction l with
  | nil => exact List.pairwise_singleton _ _
  | cons y rest ih =>
    obtain ⟨hy, hrest⟩ := List.pairwise_cons.mp h
    simp only [Names.insert]
    split
    · next hxy =>
      refine List.pairwise_cons.mpr ⟨fun z hz => ?_, h⟩
      rcases List.mem_cons.mp hz with rfl | hz
      · exact hxy
      · exact String.lt_trans hxy (hy z hz)
    · split
      · next hyx =>
        refine List.pairwise_cons.mpr ⟨fun z hz => ?_, ih hrest⟩
        rcases mem_insert.mp hz with rfl | hz
        · exact hyx
        · exact hy z hz
      · exact h

theorem mem_ofList {x : String} {xs : List String} : x ∈ ofList xs ↔ x ∈ xs := by
  suffices h : ∀ l, x ∈ xs.foldl (fun set x => Names.insert x set) l ↔ x ∈ l ∨ x ∈ xs by
    simpa [ofList] using h []
  induction xs with
  | nil => simp
  | cons y xs ih =>
    intro l
    rw [List.foldl_cons, ih, mem_insert, List.mem_cons, or_assoc, or_left_comm]

theorem nodup_ofList (xs : List String) : (ofList xs).Nodup := by
  suffices h : ∀ l, Sorted l → Sorted (xs.foldl (fun set x => Names.insert x set) l) from
    (h [] .nil).nodup
  induction xs with
  | nil => exact fun _ h => h
  | cons x xs ih => exact fun l h => ih _ (h.insert x)

theorem mem_minus {x : String} {a b : List String} : x ∈ minus a b ↔ x ∈ a ∧ x ∉ b := by
  simp [minus]

theorem nodup_minus {a : List String} (ha : a.Nodup) (b : List String) : (minus a b).Nodup :=
  ha.filter _

end Tabletop.Names
