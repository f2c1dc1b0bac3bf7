import Mathlib.Data.List.Nodup
import Tabletop.Keyed

/-! Entries with keys, seen as a finite map: what each operation does to membership, to the keys and
to look-ups, as long as no key repeats. -/

namespace Tabletop.Keyed

variable {α : Type}

theorem mem_keys {k : String} {l : List (String × α)} : k ∈ keys l ↔ ∃ a, (k, a) ∈ l := by
  simp [keys]

theorem has_iff {k : String} {l : List (String × α)} : has k l = true ↔ k ∈ keys l := by
  simp [has, keys]

theorem eq_of_mem {l : List (String × α)} (hl : (keys l).Nodup) {k : String} {a b : α}
    (ha : (k, a) ∈ l) (hb : (k, b) ∈ l) : a = b :=
  congrArg Prod.snd (List.inj_on_of_nodup_map hl ha hb rfl)

theorem mem_of_lookup {κ : Type} [BEq κ] [LawfulBEq κ] {l : List (κ × α)} {k : κ} {a : α}
    (h : l.lookup k = some a) : (k, a) ∈ l := by
  obtain ⟨l₁, l₂, rfl, -⟩ := List.lookup_eq_some_iff.mp h
  simp

/-- Keys other than names have look-ups too. -/
theorem lookup_of_mem {κ : Type} [BEq κ] [LawfulBEq κ] {l : List (κ × α)}
    (hl : (l.map (·.1)).Nodup) {k : κ} {a : α} (h : (k, a) ∈ l) : l.lookup k = some a := by
  cases hb : l.lookup k with
  | none => exact absurd h (by simpa using List.lookup_eq_none_iff.mp hb (k, a))
  | some b =>
    obtain ⟨⟩ := List.inj_on_of_nodup_map hl (mem_of_lookup hb) h rfl
    rfl

theorem lookup_eq_none {l : List (String × α)} {k : String} : l.lookup k = none ↔ k ∉ keys l := by
  simp only [List.lookup_eq_none_iff, keys, List.mem_map, not_exists, not_and, bne_iff_ne]
  exact ⟨fun h e he hk => h e he hk.symm, fun h e he hk => h e he hk.symm⟩

theorem lookup_eq_some {l : List (String × α)} (hl : (keys l).Nodup) {k : String} {a : α} :
    l.lookup k = some a ↔ (k, a) ∈ l :=
  ⟨mem_of_lookup, lookup_of_mem hl⟩

/-- Entries are known by their keys in order and by what is looked up. -/
theorem ext {l l' : List (String × α)} (hl : (keys l).Nodup) (hkeys : keys l = keys l')
    (h : ∀ k, l.lookup k = l'.lookup k) : l = l' := by
  induction l generalizing l' with
  | nil => exact (List.map_eq_nil_iff.mp hkeys.symm).symm
  | cons e rest ih =>
    cases l' with
    | nil => nomatch hkeys
    | cons e' rest' =>
      obtain ⟨k, a⟩ := e
      obtain ⟨k', a'⟩ := e'
      obtain ⟨rfl, hrest⟩ := List.cons.inj hkeys
      obtain ⟨hk, hnodup⟩ := List.nodup_cons.mp hl
      have ha : a = a' := by simpa using h k
      rw [ha, ih hnodup hrest fun j => ?_]
      by_cases hj : j = k
      · have hk' : k ∉ keys rest' := by rwa [keys, ← hrest]
        rw [hj, lookup_eq_none.mpr hk, lookup_eq_none.mpr hk']
      · simpa [List.lookup_cons, beq_eq_false_iff_ne.mpr hj] using h j

/-! ### Erasing -/

theorem mem_erase {k : String} {e : String × α} {l : List (String × α)} :
    e ∈ erase k l ↔ e ∈ l ∧ e.1 ≠ k := by
  simp [erase]

theorem nodup_keys_erase (k : String) {l : List (String × α)} (hl : (keys l).Nodup) :
    (keys (erase k l)).Nodup :=
  hl.sublist (List.filter_sublist.map _)

/-- Entries that are kept by their keys are looked up as before. -/
theorem lookup_filter (p : String → Bool) (j : String) (l : List (String × α)) :
    (l.filter fun e => p e.1).lookup j = if p j then l.lookup j else none := by
  induction l with
  | nil => simp
  | cons e rest ih =>
    obtain ⟨i, a⟩ := e
    rw [List.filter_cons]
    by_cases hj : j = i
    · subst hj
      by_cases hp : p j <;> simp [hp, ih]
    · split <;> simp [List.lookup_cons, beq_eq_false_iff_ne.mpr hj, ih]

theorem lookup_erase (k j : String) (l : List (String × α)) :
    (erase k l).lookup j = if j = k then none else l.lookup j := by
  rw [erase, lookup_filter (· != k)]
  by_cases hj : j = k <;> simp [hj]

/-- Keys other than names can be taken out too. -/
theorem perm_cons_filter {κ : Type} [BEq κ] [LawfulBEq κ] {k : κ} {a : α} {l : List (κ × α)}
    (hl : (l.map (·.1)).Nodup) (h : (k, a) ∈ l) : l.Perm ((k, a) :: l.filter (·.1 != k)) := by
  induction l with
  | nil => nomatch h
  | cons e rest ih =>
    obtain ⟨hn, hr⟩ := List.nodup_cons.mp hl
    rcases List.mem_cons.mp h with rfl | h
    · have hrest : rest.filter (·.1 != k) = rest := by
        refine List.filter_eq_self.mpr fun e he => bne_iff_ne.mpr ?_
        rintro rfl
        exact hn (List.mem_map.mpr ⟨_, he, rfl⟩)
      simp [hrest]
    · have hne : e.1 ≠ k := by
        rintro rfl
        exact hn (List.mem_map.mpr ⟨_, h, rfl⟩)
      rw [List.filter_cons, if_pos (bne_iff_ne.mpr hne)]
      exact ((ih hr h).cons e).trans (.swap _ _ _)

theorem perm_cons_erase {k : String} {a : α} {l : List (String × α)} (hl : (keys l).Nodup)
    (h : (k, a) ∈ l) : l.Perm ((k, a) :: erase k l) :=
  perm_cons_filter hl h

/-! ### Changing in place -/

theorem lookup_mapValues (f : α → α) (k : String) (l : List (String × α)) :
    (l.map fun e => (e.1, f e.2)).lookup k = (l.lookup k).map f := by
  induction l with
  | nil => rfl
  | cons e rest ih =>
    rw [List.map_cons, List.lookup_cons, List.lookup_cons, ih]
    split <;> rfl

theorem keys_modify (k : String) (f : α → α) (l : List (String × α)) :
    keys (modify k f l) = keys l := by
  simp only [keys, modify, List.map_map]
  refine List.map_congr_left fun e _ => ?_
  simp only [Function.comp_apply]
  split <;> rfl

theorem mem_modify {k : String} {f : α → α} {l : List (String × α)} {j : String} {a : α} :
    (j, a) ∈ modify k f l ↔ (j ≠ k ∧ (j, a) ∈ l) ∨ (j = k ∧ ∃ b, (k, b) ∈ l ∧ a = f b) := by
  simp only [modify, List.mem_map, Prod.exists]
  constructor
  · rintro ⟨i, b, hb, h⟩
    split at h <;> cases h
    · next hk => subst hk; exact .inr ⟨rfl, b, hb, rfl⟩
    · next hk => exact .inl ⟨hk, hb⟩
  · rintro (⟨hk, h⟩ | ⟨rfl, b, hb, rfl⟩)
    · exact ⟨j, a, h, by simp [hk]⟩
    · exact ⟨j, b, hb, by simp⟩

theorem modify_of_notMem {k : String} {f : α → α} {l : List (String × α)} (hk : k ∉ keys l) :
    modify k f l = l := by
  refine (List.map_congr_left fun e he => if_neg ?_).trans (List.map_id l)
  rintro rfl
  exact hk (mem_keys.mpr ⟨e.2, he⟩)

theorem lookup_modify (k j : String) (f : α → α) (l : List (String × α)) :
    (modify k f l).lookup j = if j = k then (l.lookup k).map f else l.lookup j := by
  induction l with
  | nil => simp [modify]
  | cons e rest ih =>
    obtain ⟨i, a⟩ := e
    rw [modify, List.map_cons, ← modify]
    by_cases hi : i = k
    · subst hi
      by_cases hj : j = i
      · simp [hj]
      · simpa [List.lookup_cons, hj, beq_eq_false_iff_ne.mpr hj] using ih
    · have hk : ¬k = i := fun hk => hi hk.symm
      by_cases hj : j = i
      · simp [hi, hj]
      · simp [hi, List.lookup_cons, beq_eq_false_iff_ne.mpr hj, beq_eq_false_iff_ne.mpr hk, ih]

theorem modify_zipper {k : String} (f : α → α) {before after : List (String × α)} {a : α}
    (hl : (keys (before ++ (k, a) :: after)).Nodup) :
    modify k f (before ++ (k, a) :: after) = before ++ (k, f a) :: after := by
  have hkeys : keys (before ++ (k, a) :: after) = keys before ++ k :: keys after := by simp [keys]
  obtain ⟨-, hafter, hne⟩ := List.nodup_append.mp (hkeys ▸ hl)
  have hb : k ∉ keys before := fun h => hne k h k (List.mem_cons_self ..) rfl
  have ha : k ∉ keys after := (List.nodup_cons.mp hafter).1
  rw [modify, List.map_append, List.map_cons, if_pos rfl, ← modify, ← modify,
    modify_of_notMem hb, modify_of_notMem ha]

theorem lookup_zipper {k : String} {before after : List (String × α)} {a : α}
    (hl : (keys (before ++ (k, a) :: after)).Nodup) :
    (before ++ (k, a) :: after).lookup k = some a :=
  lookup_of_mem hl (List.mem_append_right _ (List.mem_cons_self ..))

/-! ### Putting -/

theorem keys_put (k : String) (a : α) (l : List (String × α)) :
    keys (put k a l) = if k ∈ keys l then keys l else keys l ++ [k] := by
  induction l with
  | nil => simp [put, keys]
  | cons e rest ih =>
    simp only [put]
    by_cases h : e.1 = k
    · simp [h, keys]
    · have hk : ¬k = e.1 := fun hk => h hk.symm
      simp only [keys, List.map_cons, List.mem_cons, hk, false_or, h, ↓reduceIte] at ih ⊢
      rw [ih]
      split <;> simp [*]

theorem lookup_put (k j : String) (a : α) (l : List (String × α)) :
    (put k a l).lookup j = if j = k then some a else l.lookup j := by
  induction l with
  | nil =>
    by_cases hj : j = k
    · simp [put, hj]
    · simp [put, List.lookup_cons, hj, beq_eq_false_iff_ne.mpr hj]
  | cons e rest ih =>
    obtain ⟨i, b⟩ := e
    simp only [put, List.lookup_cons]
    by_cases hi : i = k
    · by_cases hj : j = k
      · simp [hi, hj]
      · simp [hi, List.lookup_cons, hj, beq_eq_false_iff_ne.mpr hj]
    · by_cases hj : j = i
      · simp [hi, hj]
      · simp [hi, List.lookup_cons, beq_eq_false_iff_ne.mpr hj, ih]

theorem nodup_keys_put (k : String) (a : α) {l : List (String × α)} (hl : (keys l).Nodup) :
    (keys (put k a l)).Nodup := by
  rw [keys_put]
  split
  · exact hl
  · next h => exact hl.append (by simp) (by simpa using h)

theorem mem_of_mem_put {k : String} {a : α} {l : List (String × α)} {e : String × α}
    (h : e ∈ put k a l) : e ∈ l ∨ e = (k, a) := by
  induction l with
  | nil => exact .inr (List.mem_singleton.mp h)
  | cons d rest ih =>
    simp only [put] at h
    split at h
    · rcases List.mem_cons.mp h with rfl | h
      · exact .inr rfl
      · exact .inl (.tail _ h)
    · rcases List.mem_cons.mp h with rfl | h
      · exact .inl (.head _)
      · exact (ih h).imp (.tail _) id

theorem mem_put {k : String} {a : α} {l : List (String × α)} (hl : (keys l).Nodup) {j : String}
    {b : α} : (j, b) ∈ put k a l ↔ (j ≠ k ∧ (j, b) ∈ l) ∨ (j = k ∧ b = a) := by
  induction l with
  | nil => simp [put]
  | cons e rest ih =>
    obtain ⟨hn, hr⟩ : e.1 ∉ keys rest ∧ (keys rest).Nodup := by simpa [keys] using hl
    simp only [put]
    by_cases h : e.1 = k
    · subst h
      have hne : (j, b) ∈ rest → j ≠ e.1 := fun hm hj => hn (mem_keys.mpr ⟨b, hj ▸ hm⟩)
      simp only [↓reduceIte, List.mem_cons, Prod.mk.injEq]
      constructor
      · rintro (h | h)
        · exact .inr h
        · exact .inl ⟨hne h, .inr h⟩
      · rintro (⟨hj, h | h⟩ | h)
        · exact absurd (congrArg Prod.fst h) hj
        · exact .inr h
        · exact .inl h
    · simp only [h, ↓reduceIte, List.mem_cons, ih hr]
      constructor
      · rintro (rfl | ⟨hj, hm⟩ | hm)
        · exact .inl ⟨h, .inl rfl⟩
        · exact .inl ⟨hj, .inr hm⟩
        · exact .inr hm
      · rintro (⟨hj, rfl | hm⟩ | hm)
        · exact .inl rfl
        · exact .inr (.inl ⟨hj, hm⟩)
        · exact .inr (.inr hm)

end Tabletop.Keyed
