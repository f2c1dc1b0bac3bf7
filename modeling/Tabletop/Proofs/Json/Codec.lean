import Tabletop.Proofs.Json.Canonical
import Tabletop.Proofs.Json.Fields

/-! What structures and entries come back as, from their documents and through their values. The
value of a document loses the order of the members, and nothing else of a document whose members
have keys of their own. -/

namespace Tabletop

namespace Keyed

variable {α : Type}

theorem put_of_notMem {k : String} {l : List (String × α)} (hk : k ∉ keys l) (a : α) :
    put k a l = l ++ [(k, a)] := by
  induction l with
  | nil => rfl
  | cons e rest ih =>
    obtain ⟨hne, hrest⟩ := not_or.mp (mt List.mem_cons.mpr hk)
    rw [put, if_neg (Ne.symm hne), ih hrest, List.cons_append]

end Keyed

namespace Decode

variable {α : Type} {decode : Decoder α} {members : List (String × Document)} {d : Document}
  {found seen : List (String × α)} {declared : List String}

/-! ### Entries -/

theorem entriesFrom_eq
    (h : List.Forall₂ (fun m e => m.1 = e.1 ∧ decode m.2 = some e.2) members found)
    (hkeys : (Keyed.keys (seen ++ found)).Nodup) :
    entriesFrom decode seen members = some (seen ++ found) := by
  induction h generalizing seen with
  | nil => rw [entriesFrom, List.append_nil]
  | @cons m e members found hm _ ih =>
    obtain ⟨hk, hd⟩ := hm
    have hnew : m.1 ∉ Keyed.keys seen := by
      rw [Keyed.keys, List.map_append, List.nodup_append] at hkeys
      exact fun hmem => hkeys.2.2 _ hmem _ (by simp) hk
    rw [List.append_cons] at hkeys ⊢
    obtain ⟨k, d⟩ := m
    obtain rfl : k = e.1 := hk
    simp only [entriesFrom, hd, Option.bind_eq_bind, Option.bind_some, Keyed.put_of_notMem hnew]
    exact ih hkeys

/-- Canonical values under keys of their own come back. -/
theorem entries_ofMembers {fields : List (String × Json)} (hkeys : (Keyed.keys fields).Nodup)
    (hcanonical : ∀ m ∈ fields, m.2.Canonical) :
    entries json (.object (Document.ofMembers fields)) = some fields := by
  rw [entries, Document.ofMembers_eq]
  refine entriesFrom_eq (List.forall₂_map_left_iff.mpr ?_) hkeys
  refine List.forall₂_same.mpr fun m hm => ⟨rfl, ?_⟩
  rw [json, Document.toJson_ofJson (hcanonical m hm)]

theorem entriesFrom_sound {P : α → Prop} (hP : ∀ d a, decode d = some a → P a)
    (hseen : (Keyed.keys seen).Nodup ∧ ∀ e ∈ seen, P e.2)
    (h : entriesFrom decode seen members = some found) :
    (Keyed.keys found).Nodup ∧ ∀ e ∈ found, P e.2 := by
  induction members generalizing seen with
  | nil =>
    cases h
    exact hseen
  | cons m rest ih =>
    obtain ⟨k, d⟩ := m
    simp only [entriesFrom, Option.bind_eq_bind, Option.bind_eq_some_iff] at h
    obtain ⟨a, ha, h⟩ := h
    refine ih ⟨Keyed.nodup_keys_put k a hseen.1, fun e he => ?_⟩ h
    rcases Keyed.mem_of_mem_put he with he | rfl
    · exact hseen.2 e he
    · exact hP d a ha

/-- Entries that were read have keys of their own and values that were read. -/
theorem entries_sound {P : α → Prop} (hP : ∀ d a, decode d = some a → P a)
    (h : entries decode d = some found) : (Keyed.keys found).Nodup ∧ ∀ e ∈ found, P e.2 := by
  cases d with
  | object members =>
    have hnone : (Keyed.keys ([] : List (String × α))).Nodup := List.nodup_nil
    exact entriesFrom_sound hP ⟨hnone, fun e he => nomatch he⟩ h
  | _ => nomatch h

/-! ### Structures -/

/-- Members with declared keys are all found. -/
theorem fields_of_declared (hkeys : (Keyed.keys members).Nodup)
    (hdeclared : ∀ k ∈ Keyed.keys members, k ∈ declared) :
    fields declared (.object members) = some ⟨members⟩ := by
  have hall : members.filter (declared.contains ·.1) = members := by
    refine List.filter_eq_self.mpr fun m hm => ?_
    simpa using hdeclared m.1 (List.mem_map_of_mem hm)
  rw [fields, declaredMembers_eq_some.mpr ⟨hall.symm, hkeys⟩, Option.map_some]

end Decode

namespace Document

open Json (sortMembers)

/-- A document as it comes back from its value. -/
def stored (d : Document) : Document := ofJson d.toJson

theorem stored_array (items : List Document) : (array items).stored = array (items.map stored) := by
  rw [stored, toJson, ofJson, toItems_eq, ofItems_eq, List.map_map]
  rfl

theorem stored_object (members : List (String × Document)) :
    (object members).stored = object (ofMembers (sortMembers (toMembers members))) := rfl

/-- The value of members with canonical values, as it is stored, has them in the order of their
keys. -/
theorem stored_ofMembers {fields : List (String × Json)}
    (hcanonical : ∀ m ∈ fields, m.2.Canonical) :
    (object (ofMembers fields)).stored = object (ofMembers (sortMembers fields)) := by
  rw [stored_object, toMembers_ofMembers (Json.canonicalMembers_iff.mpr hcanonical)]

variable {members : List (String × Document)} {declared : List String}

/-- Through its value a structure keeps its members. -/
theorem fields_stored (hkeys : (Keyed.keys members).Nodup)
    (hdeclared : ∀ k ∈ Keyed.keys members, k ∈ declared) :
    ∃ f, Decode.fields declared (object members).stored = some f ∧
      ∀ k, f.found.lookup k = (members.lookup k).map stored := by
  have hmembers : Keyed.keys (toMembers members) = Keyed.keys members := by
    rw [toMembers_eq, Keyed.keys, List.map_map]
    rfl
  have hperm := Json.perm_sortMembers (hmembers ▸ hkeys)
  set sorted := sortMembers (toMembers members) with hsorted
  have hof : Keyed.keys (ofMembers sorted) = Keyed.keys sorted := by
    rw [ofMembers_eq, Keyed.keys, List.map_map]
    rfl
  have hsame : (Keyed.keys sorted).Perm (Keyed.keys members) := hmembers ▸ hperm.map _
  have hnodup : (Keyed.keys (ofMembers sorted)).Nodup := hof ▸ hsame.nodup_iff.mpr hkeys
  refine ⟨⟨ofMembers sorted⟩, ?_, fun k => ?_⟩
  · rw [stored_object]
    refine Decode.fields_of_declared hnodup fun k hk => hdeclared k ?_
    exact hsame.mem_iff.mp (hof ▸ hk)
  · ext d
    rw [Keyed.lookup_eq_some hnodup, ofMembers_eq, Option.map_eq_some_iff]
    simp only [Keyed.lookup_eq_some hkeys, List.mem_map, hperm.mem_iff, toMembers_eq, Prod.mk.injEq,
      Prod.exists]
    constructor
    · rintro ⟨k', j, ⟨k'', d', hd', rfl, rfl⟩, rfl, rfl⟩
      exact ⟨d', hd', rfl⟩
    · rintro ⟨d', hd', rfl⟩
      exact ⟨k, d'.toJson, ⟨k, d', hd', rfl, rfl⟩, rfl, rfl⟩

end Document

end Tabletop
