import Mathlib.Data.List.Induction
import Tabletop.Proofs.Keyed
import Tabletop.Proofs.Names
import Tabletop.Snapshot

/-! What changed between two snapshots, in terms of the objects that count in them. -/

namespace Tabletop

/-- The object of an id in a snapshot. If the id repeats, the last object counts. -/
def lastObject (snapshot : List SceneObject) (id : String) : Option SceneObject :=
  snapshot.reverse.find? (·.id == id)

theorem lastObject_concat (snapshot : List SceneObject) (o : SceneObject) (id : String) :
    lastObject (snapshot ++ [o]) id = if id = o.id then some o else lastObject snapshot id := by
  by_cases h : id = o.id
  · simp [lastObject, h]
  · simp [lastObject, h, beq_eq_false_iff_ne.mpr (Ne.symm h)]

theorem id_of_lastObject {snapshot : List SceneObject} {id : String} {o : SceneObject}
    (h : lastObject snapshot id = some o) : o.id = id := by
  simpa using List.find?_some h

theorem mem_of_lastObject {snapshot : List SceneObject} {id : String} {o : SceneObject}
    (h : lastObject snapshot id = some o) : o ∈ snapshot :=
  List.mem_reverse.mp (List.mem_of_find?_eq_some h)

namespace Differ

theorem byId_concat (snapshot : List SceneObject) (o : SceneObject) :
    byId (snapshot ++ [o]) = Keyed.put o.id o (byId snapshot) := by
  simp [byId]

theorem nodup_keys_byId (snapshot : List SceneObject) : (Keyed.keys (byId snapshot)).Nodup := by
  induction snapshot using List.reverseRecOn with
  | nil => exact .nil
  | append_singleton snapshot o ih =>
    rw [byId_concat]
    exact Keyed.nodup_keys_put o.id o ih

theorem lookup_byId (snapshot : List SceneObject) (id : String) :
    (byId snapshot).lookup id = lastObject snapshot id := by
  induction snapshot using List.reverseRecOn with
  | nil => rfl
  | append_singleton snapshot o ih => rw [byId_concat, Keyed.lookup_put, ih, lastObject_concat]

theorem mem_byId {snapshot : List SceneObject} {id : String} {o : SceneObject} :
    (id, o) ∈ byId snapshot ↔ lastObject snapshot id = some o := by
  rw [← lookup_byId, Keyed.lookup_eq_some (nodup_keys_byId snapshot)]

theorem mem_keys_byId {snapshot : List SceneObject} {id : String} :
    id ∈ Keyed.keys (byId snapshot) ↔ lastObject snapshot id ≠ none := by
  rw [← lookup_byId, Ne, Keyed.lookup_eq_none, not_not]

variable {d : Differ} {before now : List SceneObject}

@[simp] theorem previous_update (now : List SceneObject) (d : Differ) :
    (d.update now).2.previous = byId now := rfl

theorem mem_created (hd : d.previous = byId before) {o : SceneObject} :
    o ∈ (d.update now).1.created ↔
      lastObject now o.id = some o ∧ lastObject before o.id = none := by
  simp only [update, hd, List.mem_filterMap, Prod.exists]
  constructor
  · rintro ⟨id, q, hq, h⟩
    split at h <;> cases h
    next hnew =>
    have hmem := mem_byId.mp hq
    obtain rfl := id_of_lastObject hmem
    rw [Keyed.has_iff, mem_keys_byId, not_not] at hnew
    exact ⟨hmem, hnew⟩
  · rintro ⟨ho, hnew⟩
    refine ⟨o.id, o, mem_byId.mpr ho, if_neg ?_⟩
    rw [Keyed.has_iff, mem_keys_byId, hnew]
    exact not_not.mpr rfl

theorem mem_updated (hd : d.previous = byId before) {u : Update} :
    u ∈ (d.update now).1.updated ↔ lastObject now u.current.id = some u.current ∧
      lastObject before u.current.id = some u.previous ∧
      u.previous.lastModified ≠ u.current.lastModified := by
  simp only [update, hd, List.mem_filterMap, Prod.exists, lookup_byId]
  constructor
  · rintro ⟨id, o, ho, h⟩
    have hmem := mem_byId.mp ho
    obtain rfl := id_of_lastObject hmem
    cases hq : lastObject before o.id with
    | none => simp [hq] at h
    | some q =>
      simp only [hq] at h
      split at h <;> cases h
      next hne => exact ⟨hmem, hq, hne⟩
  · rintro ⟨ho, hq, hne⟩
    exact ⟨u.current.id, u.current, mem_byId.mpr ho, by simp [hq, hne]⟩

/-- What is picked from a snapshot by id has no id twice. -/
theorem nodup_filterMap_byId {α : Type} (id : α → String) (now : List SceneObject)
    {f : String × SceneObject → Option α} (hf : ∀ e ∈ byId now, ∀ a, f e = some a → id a = e.1) :
    (((byId now).filterMap f).map id).Nodup := by
  refine List.pairwise_map.mpr (List.pairwise_filterMap.mpr ?_)
  refine List.Pairwise.imp_of_mem ?_ (List.pairwise_map.mp (nodup_keys_byId now))
  intro e e' he he' hne a ha a' ha'
  rwa [hf e he a ha, hf e' he' a' ha']

theorem id_of_mem_byId {e : String × SceneObject} (he : e ∈ byId now) : e.2.id = e.1 :=
  id_of_lastObject (mem_byId.mp he)

theorem nodup_updated (now : List SceneObject) (d : Differ) :
    ((d.update now).1.updated.map (·.current.id)).Nodup := by
  refine nodup_filterMap_byId _ now fun e he u hu => ?_
  split at hu
  · split at hu <;> cases hu
    exact id_of_mem_byId he
  · nomatch hu

theorem nodup_touched (hd : d.previous = byId before) :
    ((d.update now).1.touched.map (·.id)).Nodup := by
  have hcreated : ((d.update now).1.created.map (·.id)).Nodup := by
    refine nodup_filterMap_byId _ now fun e he o ho => ?_
    split at ho <;> cases ho
    exact id_of_mem_byId he
  rw [SnapshotDiff.touched, List.map_append, List.map_map]
  refine hcreated.append (nodup_updated now d) fun id hc hu => ?_
  obtain ⟨o, ho, rfl⟩ := List.mem_map.mp hc
  obtain ⟨u, hu, huo⟩ := List.mem_map.mp hu
  have hprevious := ((mem_updated hd).mp hu).2.1
  rw [show u.current.id = o.id from huo, ((mem_created hd).mp ho).2] at hprevious
  nomatch hprevious

/-- An object is touched if it is new or its `lastModified` moved. -/
theorem mem_touched (hd : d.previous = byId before) {o : SceneObject} :
    o ∈ (d.update now).1.touched ↔ lastObject now o.id = some o ∧
      ∀ q, lastObject before o.id = some q → q.lastModified ≠ o.lastModified := by
  simp only [SnapshotDiff.touched, List.mem_append, List.mem_map, mem_created hd, mem_updated hd]
  constructor
  · rintro (⟨ho, hnew⟩ | ⟨u, ⟨ho, hq, hne⟩, rfl⟩)
    · exact ⟨ho, fun q hq => by rw [hnew] at hq; cases hq⟩
    · refine ⟨ho, fun q hq' => ?_⟩
      obtain rfl := Option.some.inj (hq.symm.trans hq')
      exact hne
  · rintro ⟨ho, hne⟩
    cases hq : lastObject before o.id with
    | none => exact .inl ⟨ho, rfl⟩
    | some q => exact .inr ⟨⟨q, o⟩, ⟨ho, hq, hne q hq⟩, rfl⟩

theorem mem_deleted (hd : d.previous = byId before) {id : String} :
    id ∈ (d.update now).1.deleted ↔ lastObject before id ≠ none ∧ lastObject now id = none := by
  simp only [update, hd, Names.mem_ofList, List.mem_filter, mem_keys_byId, Bool.not_eq_true',
    Bool.eq_false_iff, Ne, Keyed.has_iff, not_not]

end Differ

end Tabletop
