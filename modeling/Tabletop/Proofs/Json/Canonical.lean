import Mathlib.Data.List.Induction
import Mathlib.Data.String.Basic
import Tabletop.Json.Decode
import Tabletop.Proofs.Keyed

/-! Values in their canonical form, in which the members of an object stand in the order of their
keys. The value of a document is canonical, and a canonical value is that of its document. -/

namespace Tabletop

namespace Json

variable {k : String} {v : Json} {m : String × Json} {members : List (String × Json)}

/-! ### Members in the order of their keys -/

theorem insertMember_cases (k : String) (v : Json) (m : String × Json)
    (rest : List (String × Json)) :
    k < m.1 ∧ insertMember k v (m :: rest) = (k, v) :: m :: rest ∨
      m.1 < k ∧ insertMember k v (m :: rest) = m :: insertMember k v rest ∨
      k = m.1 ∧ insertMember k v (m :: rest) = (k, v) :: rest := by
  rw [insertMember]
  rcases lt_trichotomy k m.1 with h | h | h
  · exact .inl ⟨h, if_pos h⟩
  · exact .inr (.inr ⟨h, by rw [if_neg (h ▸ lt_irrefl _), if_neg (h ▸ lt_irrefl _)]⟩)
  · exact .inr (.inl ⟨h, by rw [if_neg (lt_asymm h), if_pos h]⟩)

theorem lookup_insertMember_self (k : String) (v : Json) (members : List (String × Json)) :
    (insertMember k v members).lookup k = some v := by
  induction members with
  | nil => exact List.lookup_cons_self
  | cons m rest ih =>
    obtain ⟨-, hinsert⟩ | ⟨hk, hinsert⟩ | ⟨-, hinsert⟩ := insertMember_cases k v m rest
    · rw [hinsert, List.lookup_cons_self]
    · have hne : (k == m.1) = false := beq_false_of_ne fun heq => String.lt_irrefl k (heq ▸ hk)
      rw [hinsert, List.lookup_cons, hne]
      exact ih
    · rw [hinsert, List.lookup_cons_self]

theorem mem_of_mem_insertMember (h : m ∈ insertMember k v members) :
    m = (k, v) ∨ m ∈ members := by
  induction members with
  | nil => exact .inl (List.mem_singleton.mp h)
  | cons m' rest ih =>
    obtain ⟨-, hinsert⟩ | ⟨-, hinsert⟩ | ⟨-, hinsert⟩ := insertMember_cases k v m' rest
    · rw [hinsert] at h
      exact List.mem_cons.mp h
    · rw [hinsert] at h
      rcases List.mem_cons.mp h with rfl | h
      · exact .inr (List.mem_cons_self ..)
      · exact (ih h).imp_right (List.mem_cons_of_mem _)
    · rw [hinsert] at h
      exact (List.mem_cons.mp h).imp_right (List.mem_cons_of_mem _)

/-- The keys go up strictly. -/
def Sorted (members : List (String × Json)) : Prop := members.Pairwise (·.1 < ·.1)

theorem Sorted.insertMember (h : Sorted members) (k : String) (v : Json) :
    Sorted (Json.insertMember k v members) := by
  induction members with
  | nil => exact List.pairwise_singleton _ _
  | cons m rest ih =>
    obtain ⟨hm, hrest⟩ := List.pairwise_cons.mp h
    obtain ⟨hk, hinsert⟩ | ⟨hk, hinsert⟩ | ⟨rfl, hinsert⟩ := insertMember_cases k v m rest
    · rw [hinsert]
      refine List.pairwise_cons.mpr ⟨fun m' hm' => ?_, h⟩
      rcases List.mem_cons.mp hm' with rfl | hm'
      · exact hk
      · exact lt_trans hk (hm m' hm')
    · rw [hinsert]
      refine List.pairwise_cons.mpr ⟨fun m' hm' => ?_, ih hrest⟩
      rcases mem_of_mem_insertMember hm' with rfl | hm'
      · exact hk
      · exact hm m' hm'
    · rw [hinsert]
      exact List.pairwise_cons.mpr ⟨hm, hrest⟩

theorem perm_insertMember (h : k ∉ Keyed.keys members) :
    (insertMember k v members).Perm ((k, v) :: members) := by
  induction members with
  | nil => exact .refl _
  | cons m rest ih =>
    obtain ⟨hne, hrest⟩ := not_or.mp (mt List.mem_cons.mpr h)
    obtain ⟨-, hinsert⟩ | ⟨-, hinsert⟩ | ⟨hk, -⟩ := insertMember_cases k v m rest
    · rw [hinsert]
    · rw [hinsert]
      exact ((ih hrest).cons m).trans (.swap ..)
    · exact absurd hk hne

theorem insertMember_of_last (h : ∀ m ∈ members, m.1 < k) :
    insertMember k v members = members ++ [(k, v)] := by
  induction members with
  | nil => rfl
  | cons m rest ih =>
    obtain ⟨hm, hrest⟩ := List.forall_mem_cons.mp h
    rw [insertMember, if_neg (lt_asymm hm), if_pos hm, ih hrest, List.cons_append]

theorem sortMembers_concat (members : List (String × Json)) (m : String × Json) :
    sortMembers (members ++ [m]) = insertMember m.1 m.2 (sortMembers members) := by
  simp [sortMembers]

theorem sorted_sortMembers (members : List (String × Json)) : Sorted (sortMembers members) := by
  induction members using List.reverseRecOn with
  | nil => exact .nil
  | append_singleton members m ih =>
    rw [sortMembers_concat]
    exact ih.insertMember m.1 m.2

theorem mem_of_mem_sortMembers (h : m ∈ sortMembers members) : m ∈ members := by
  induction members using List.reverseRecOn with
  | nil => exact h
  | append_singleton members m' ih =>
    rw [sortMembers_concat] at h
    rcases mem_of_mem_insertMember h with rfl | h
    · exact List.mem_append_right _ (List.mem_singleton_self _)
    · exact List.mem_append_left _ (ih h)

theorem perm_sortMembers (h : (Keyed.keys members).Nodup) :
    (sortMembers members).Perm members := by
  induction members using List.reverseRecOn with
  | nil => exact .refl _
  | append_singleton members m ih =>
    rw [Keyed.keys, List.map_append, List.map_singleton, List.nodup_append] at h
    obtain ⟨hkeys, -, hnew⟩ := h
    have hperm := ih hkeys
    rw [sortMembers_concat]
    refine (perm_insertMember ?_).trans ((hperm.cons m).trans (List.perm_append_singleton ..).symm)
    exact fun hk => hnew _ ((hperm.map _).mem_iff.mp hk) _ (List.mem_singleton_self _) rfl

theorem sortMembers_of_sorted (h : Sorted members) : sortMembers members = members := by
  induction members using List.reverseRecOn with
  | nil => rfl
  | append_singleton members m ih =>
    obtain ⟨hmembers, -, hlast⟩ := List.pairwise_append.mp h
    rw [sortMembers_concat, ih hmembers, insertMember_of_last fun m' hm' => ?_]
    exact hlast m' hm' m (List.mem_singleton_self m)

theorem canonicalMembers_iff : CanonicalMembers members ↔ ∀ m ∈ members, m.2.Canonical := by
  induction members with
  | nil => simp [CanonicalMembers]
  | cons m rest ih => rw [CanonicalMembers, ih, List.forall_mem_cons]

end Json

/-! ### Documents of values -/

namespace Document

open Json (Canonical CanonicalItems CanonicalMembers Sorted sortMembers)

theorem toItems_eq (items : List Document) : toItems items = items.map toJson := by
  induction items with
  | nil => rfl
  | cons d rest ih => rw [toItems, ih, List.map_cons]

theorem ofItems_eq (items : List Json) : ofItems items = items.map ofJson := by
  induction items with
  | nil => rfl
  | cons j rest ih => rw [ofItems, ih, List.map_cons]

theorem toMembers_eq (members : List (String × Document)) :
    toMembers members = members.map fun m => (m.1, m.2.toJson) := by
  induction members with
  | nil => rfl
  | cons m rest ih => rw [toMembers, ih, List.map_cons]

theorem ofMembers_eq (members : List (String × Json)) :
    ofMembers members = members.map fun m => (m.1, ofJson m.2) := by
  induction members with
  | nil => rfl
  | cons m rest ih => rw [ofMembers, ih, List.map_cons]

mutual

theorem canonical_toJson : ∀ d : Document, d.toJson.Canonical
  | null | bool _ | number _ | string _ => trivial
  | array items => canonicalItems_toItems items
  | object members => by
    refine ⟨Json.sorted_sortMembers _, Json.canonicalMembers_iff.mpr fun m hm => ?_⟩
    exact Json.canonicalMembers_iff.mp (canonicalMembers_toMembers members) m
      (Json.mem_of_mem_sortMembers hm)

theorem canonicalItems_toItems : ∀ items : List Document, CanonicalItems (toItems items)
  | [] => trivial
  | d :: rest => ⟨canonical_toJson d, canonicalItems_toItems rest⟩

theorem canonicalMembers_toMembers :
    ∀ members : List (String × Document), CanonicalMembers (toMembers members)
  | [] => trivial
  | (_, d) :: rest => ⟨canonical_toJson d, canonicalMembers_toMembers rest⟩

end

mutual

theorem toJson_ofJson : ∀ {j : Json}, j.Canonical → (ofJson j).toJson = j
  | .null, _ | .bool _, _ | .number _, _ | .string _, _ => rfl
  | .array items, h => by rw [ofJson, toJson, toItems_ofItems h]
  | .object members, h => by
    rw [ofJson, toJson, toMembers_ofMembers h.2, Json.sortMembers_of_sorted h.1]

theorem toItems_ofItems : ∀ {items : List Json}, CanonicalItems items →
    toItems (ofItems items) = items
  | [], _ => rfl
  | j :: rest, h => by rw [ofItems, toItems, toJson_ofJson h.1, toItems_ofItems h.2]

theorem toMembers_ofMembers : ∀ {members : List (String × Json)}, CanonicalMembers members →
    toMembers (ofMembers members) = members
  | [], _ => rfl
  | (k, j) :: rest, h => by rw [ofMembers, toMembers, toJson_ofJson h.1, toMembers_ofMembers h.2]

end

end Document

end Tabletop
