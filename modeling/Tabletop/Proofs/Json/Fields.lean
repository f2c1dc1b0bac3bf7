import Mathlib.Data.List.Forall2
import Tabletop.Json.Decode
import Tabletop.Proofs.Keyed

/-! What is read of an object as a structure: its members with declared keys, as long as none of
these keys repeats. -/

namespace Tabletop.Decode

variable {α : Type} {declared : List String} {members found : List (String × Document)} {k : String}
  {d : Document}

theorem declaredMembers_eq_some : declaredMembers declared members = some found ↔
    found = members.filter (declared.contains ·.1) ∧ (Keyed.keys found).Nodup := by
  induction members generalizing found with
  | nil =>
    simp only [declaredMembers, Option.some.injEq, List.filter_nil, eq_comm (a := found)]
    exact ⟨fun h => ⟨h, h ▸ List.nodup_nil⟩, And.left⟩
  | cons m rest ih =>
    simp only [declaredMembers, Option.bind_eq_bind, Option.bind_eq_some_iff, Option.pure_def,
      List.filter_cons]
    cases hm : declared.contains m.1 with
    | false => simp [ih]
    | true =>
      simp only [Bool.not_true, Bool.false_eq_true, ↓reduceIte]
      constructor
      · rintro ⟨later, hlater, h⟩
        obtain ⟨rfl, hnodup⟩ := ih.mp hlater
        split at h
        · nomatch h
        · next hnew =>
          cases h
          rw [Option.not_isSome_iff_eq_none, Keyed.lookup_eq_none] at hnew
          exact ⟨rfl, List.nodup_cons.mpr ⟨hnew, hnodup⟩⟩
      · rintro ⟨rfl, h⟩
        obtain ⟨hnew, hnodup⟩ := List.nodup_cons.mp h
        refine ⟨_, ih.mpr ⟨rfl, hnodup⟩, ?_⟩
        rw [Keyed.lookup_eq_none.mpr hnew]
        rfl

theorem only_eq_some : only k members = some d ↔ members.filter (·.1 == k) = [(k, d)] := by
  unfold only
  split
  · next m h =>
    have hm : m.1 = k := by
      have : m ∈ members.filter (·.1 == k) := h ▸ List.mem_singleton_self m
      simpa using (List.mem_filter.mp this).2
    rw [h]
    simp [Prod.ext_iff, hm]
  · next h => exact ⟨nofun, fun h' => absurd h' (h _)⟩

theorem mem_of_only (h : only k members = some d) : (k, d) ∈ members :=
  (List.mem_filter.mp (only_eq_some.mp h ▸ List.mem_singleton_self (k, d))).1

theorem only_of_mem (hkeys : (Keyed.keys members).Nodup) (h : (k, d) ∈ members) :
    only k members = some d := by
  have hperm := (Keyed.perm_cons_erase hkeys h).filter (·.1 == k)
  have hone : ((k, d) :: Keyed.erase k members).filter (·.1 == k) = [(k, d)] := by
    simp [Keyed.erase]
  exact only_eq_some.mpr (List.perm_singleton.mp (hone ▸ hperm))

/-- What is found under a declared key is the one member with it. -/
theorem lookup_found (h : declaredMembers declared members = some found)
    (hk : declared.contains k = true) : found.lookup k = only k members := by
  obtain ⟨rfl, hnodup⟩ := declaredMembers_eq_some.mp h
  have hfilter : (members.filter (declared.contains ·.1)).filter (·.1 == k) =
      members.filter (·.1 == k) := by
    rw [List.filter_filter]
    refine List.filter_congr fun m _ => ?_
    cases hm : m.1 == k with
    | false => rfl
    | true => rw [eq_of_beq hm, hk, Bool.and_self]
  ext d
  rw [Keyed.lookup_eq_some hnodup, only_eq_some, ← hfilter, ← only_eq_some]
  exact ⟨only_of_mem hnodup, mem_of_only⟩

/-- The one field of a structure is there, or not, or its key repeats. -/
theorem fields_one (k : String) (members : List (String × Document)) :
    (∃ f, fields [k] (.object members) = some f ∧ f.found.lookup k = only k members ∧
        (only k members = none → k ∉ Keyed.keys members)) ∨
      fields [k] (.object members) = none ∧ only k members = none ∧ k ∈ Keyed.keys members := by
  have hone : members.filter ([k].contains ·.1) = members.filter (·.1 == k) :=
    List.filter_congr fun m _ => by rw [List.contains_cons, List.contains_nil, Bool.or_false]
  cases h : declaredMembers [k] members with
  | some found =>
    have hlookup := lookup_found h (show [k].contains k = true by simp)
    refine .inl ⟨⟨found⟩, by rw [fields, h, Option.map_some], hlookup, fun honly hk => ?_⟩
    obtain ⟨d, hd⟩ := Keyed.mem_keys.mp hk
    rw [← hlookup, Keyed.lookup_eq_none, (declaredMembers_eq_some.mp h).1, hone] at honly
    exact honly (Keyed.mem_keys.mpr ⟨d, List.mem_filter.mpr ⟨hd, beq_self_eq_true k⟩⟩)
  | none =>
    have hdup : ¬(Keyed.keys (members.filter (·.1 == k))).Nodup := fun hnodup => by
      rw [declaredMembers_eq_some.mpr ⟨rfl, hone ▸ hnodup⟩] at h
      nomatch h
    refine .inr ⟨by rw [fields, h, Option.map_none], ?_, ?_⟩
    · refine Option.eq_none_iff_forall_ne_some.mpr fun d hd => hdup ?_
      rw [only_eq_some.mp hd]
      exact List.nodup_singleton k
    · by_contra hk
      refine hdup ?_
      rw [List.filter_eq_nil_iff.mpr fun m hm hmk => hk (List.mem_map.mpr ⟨m, hm, eq_of_beq hmk⟩)]
      exact List.nodup_nil

/-- The one field of a structure. -/
theorem need_one (decode : Decoder α) :
    (fields [k] (.object members)).bind (·.need k decode) = (only k members).bind decode := by
  obtain ⟨f, hf, hlookup, -⟩ | ⟨hf, honly, -⟩ := fields_one k members
  · rw [hf, Option.bind_some, Fields.need, hlookup]
    rfl
  · rw [hf, honly]
    rfl

/-- The one field of a structure, with a default. -/
theorem get_one (decode : Decoder α) (default : α) :
    (fields [k] (.object members)).bind (·.get k decode default) =
      if k ∈ Keyed.keys members then (only k members).bind decode else some default := by
  obtain ⟨f, hf, hlookup, habsent⟩ | ⟨hf, honly, hk⟩ := fields_one k members
  · rw [hf, Option.bind_some, Fields.get, hlookup]
    cases honly : only k members with
    | none => rw [if_neg (habsent honly)]
    | some d => rw [if_pos (Keyed.mem_keys.mpr ⟨d, mem_of_only honly⟩), Option.bind_some]
  · rw [hf, honly, if_pos hk]
    rfl

theorem mapM_eq_some {decode : Decoder α} {items : List Document} {l : List α} :
    items.mapM decode = some l ↔ List.Forall₂ (fun d a => decode d = some a) items l := by
  induction items generalizing l with
  | nil => simp [eq_comm]
  | cons d rest ih =>
    simp only [List.mapM_cons, Option.bind_eq_bind, Option.bind_eq_some_iff, Option.pure_def,
      Option.some.injEq, ih, List.forall₂_cons_left_iff, eq_comm (b := l), exists_and_left]

theorem list_eq_some {decode : Decoder α} {l : List α} :
    list decode d = some l ↔
      ∃ items, d = .array items ∧ List.Forall₂ (fun d a => decode d = some a) items l := by
  cases d with
  | array items => simp [list, mapM_eq_some]
  | _ => simp [list]

end Tabletop.Decode
