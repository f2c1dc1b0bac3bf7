import Tabletop.Proofs.Snapshot

/-! A row of snapshots, and what its comparisons say of it. Every id is named once and as what
happened to it. Whoever only follows the comparisons knows after each of them which objects there
are, and with which stamps. -/

namespace Tabletop

/-! ### The object of an id -/

theorem lastObject_of_mem {objects : List SceneObject} (hids : (objects.map (·.id)).Nodup)
    {o : SceneObject} (ho : o ∈ objects) : lastObject objects o.id = some o := by
  cases h : lastObject objects o.id with
  | none =>
    have hnone := List.find?_eq_none.mp h o (List.mem_reverse.mpr ho)
    exact absurd (beq_self_eq_true o.id) hnone
  | some q =>
    obtain rfl := List.inj_on_of_nodup_map hids (mem_of_lastObject h) ho (id_of_lastObject h)
    rfl

theorem lookup_foldl_put (objects : List SceneObject) (m : List (String × SceneObject))
    (id : String) : (objects.foldl (fun m o => Keyed.put o.id o m) m).lookup id =
      (lastObject objects id).or (m.lookup id) := by
  induction objects using List.reverseRecOn with
  | nil => rfl
  | append_singleton objects o ih =>
    rw [List.foldl_concat, Keyed.lookup_put, ih, lastObject_concat]
    split <;> rfl

theorem nodup_keys_foldl_put (objects : List SceneObject) {m : List (String × SceneObject)}
    (hm : (Keyed.keys m).Nodup) :
    (Keyed.keys (objects.foldl (fun m o => Keyed.put o.id o m) m)).Nodup := by
  induction objects generalizing m with
  | nil => exact hm
  | cons o objects ih => exact ih (Keyed.nodup_keys_put o.id o hm)

/-! ### One comparison -/

namespace SnapshotDiff

/-- Each id is named at most once. It is created if only the later snapshot has it, deleted if only
the earlier one has it, and updated if both have it with stamps that differ. -/
structure Sorts (before now : List SceneObject) (d : SnapshotDiff) : Prop where
  once : (d.created.map (·.id) ++ d.updated.map (·.current.id) ++ d.deleted).Nodup
  created : ∀ o, o ∈ d.created ↔ lastObject now o.id = some o ∧ lastObject before o.id = none
  updated : ∀ u, u ∈ d.updated ↔ lastObject now u.current.id = some u.current ∧
    lastObject before u.current.id = some u.previous ∧
    u.previous.lastModified ≠ u.current.lastModified
  deleted : ∀ id, id ∈ d.deleted ↔ lastObject before id ≠ none ∧ lastObject now id = none

/-- Drops what was deleted and stores what is new or changed. -/
def replay (m : List (String × SceneObject)) (d : SnapshotDiff) : List (String × SceneObject) :=
  d.touched.foldl (fun m o => Keyed.put o.id o m) (m.filter fun e => !d.deleted.contains e.1)

theorem lookup_replay (m : List (String × SceneObject)) (d : SnapshotDiff) (id : String) :
    (d.replay m).lookup id =
      (lastObject d.touched id).or (if id ∈ d.deleted then none else m.lookup id) := by
  rw [replay, lookup_foldl_put, Keyed.lookup_filter fun id => !d.deleted.contains id]
  by_cases hid : id ∈ d.deleted <;> simp [hid]

theorem nodup_keys_replay {m : List (String × SceneObject)} (hm : (Keyed.keys m).Nodup)
    (d : SnapshotDiff) : (Keyed.keys (d.replay m)).Nodup :=
  nodup_keys_foldl_put _ (hm.sublist (List.filter_sublist.map _))

end SnapshotDiff

namespace Differ

variable {d : Differ} {before now : List SceneObject}

theorem sorts_update (hd : d.previous = byId before) : (d.update now).1.Sorts before now where
  created _ := mem_created hd
  updated _ := mem_updated hd
  deleted _ := mem_deleted hd
  once := by
    have htouched : ((d.update now).1.touched.map (·.id)).Nodup := nodup_touched hd
    rw [SnapshotDiff.touched, List.map_append, List.map_map] at htouched
    refine htouched.append (Names.nodup_ofList _) fun id hid hdeleted => ?_
    have hnow : lastObject now id = none := ((mem_deleted hd).mp hdeleted).2
    rcases List.mem_append.mp hid with hid | hid
    · obtain ⟨o, ho, rfl⟩ := List.mem_map.mp hid
      cases hnow.symm.trans ((mem_created hd).mp ho).1
    · obtain ⟨u, hu, rfl⟩ := List.mem_map.mp hid
      cases hnow.symm.trans ((mem_updated hd).mp hu).1

/-- The object that a comparison stores under an id, if any. -/
theorem lastObject_touched (hd : d.previous = byId before) {id : String} {o : SceneObject} :
    lastObject (d.update now).1.touched id = some o ↔ lastObject now id = some o ∧
      ∀ q, lastObject before id = some q → q.lastModified ≠ o.lastModified := by
  constructor
  · intro h
    obtain rfl := id_of_lastObject h
    exact (mem_touched hd).mp (mem_of_lastObject h)
  · intro h
    obtain rfl := id_of_lastObject h.1
    exact lastObject_of_mem (nodup_touched hd) ((mem_touched hd).mpr h)

/-- The stamps of a map are those of a snapshot. -/
def Stamped (m : List (String × SceneObject)) (snapshot : List SceneObject) : Prop :=
  ∀ id, (m.lookup id).map (·.lastModified) = (lastObject snapshot id).map (·.lastModified)

theorem Stamped.replay {m : List (String × SceneObject)} (hm : Stamped m before)
    (hd : d.previous = byId before) : Stamped ((d.update now).1.replay m) now := by
  intro id
  have hbefore := hm id
  rw [SnapshotDiff.lookup_replay]
  cases htouched : lastObject (d.update now).1.touched id with
  | some o => rw [((lastObject_touched hd).mp htouched).1, Option.some_or]
  | none =>
    rw [Option.none_or]
    cases hnow : lastObject now id with
    | none =>
      by_cases hold : lastObject before id = none
      · have hdeleted : id ∉ (d.update now).1.deleted := fun h => ((mem_deleted hd).mp h).1 hold
        rw [if_neg hdeleted, hbefore, hold]
      · rw [if_pos ((mem_deleted hd).mpr ⟨hold, hnow⟩)]
    | some o =>
      have hdeleted : id ∉ (d.update now).1.deleted := fun h => by
        cases hnow.symm.trans ((mem_deleted hd).mp h).2
      rw [if_neg hdeleted, hbefore]
      -- The object is there and was not stored, so its stamp has not moved.
      by_contra hne
      refine absurd ((lastObject_touched hd).mpr ⟨hnow, fun q hq hsame => hne ?_⟩)
        (by rw [htouched]; simp)
      rw [hq, Option.map_some, Option.map_some, hsame]

/-! ### A row of snapshots -/

/-- Compares each snapshot of a row with the one before, and the first with none. -/
def follow (snapshots : List (List SceneObject)) : List SnapshotDiff × Differ :=
  snapshots.foldl (fun p now => (p.1 ++ [(p.2.update now).1], (p.2.update now).2)) ([], {})

/-- The snapshot that comes last. Before the first there are no objects. -/
def latest (snapshots : List (List SceneObject)) : List SceneObject := snapshots.getLast?.getD []

/-- The map that the comparisons of a row build. -/
def replayed (snapshots : List (List SceneObject)) : List (String × SceneObject) :=
  (follow snapshots).1.foldl SnapshotDiff.replay []

variable (snapshots : List (List SceneObject))

theorem follow_concat (now : List SceneObject) : follow (snapshots ++ [now]) =
    ((follow snapshots).1 ++ [((follow snapshots).2.update now).1],
      ((follow snapshots).2.update now).2) := by
  simp [follow]

theorem latest_concat (now : List SceneObject) : latest (snapshots ++ [now]) = now := by
  simp [latest]

theorem replayed_concat (now : List SceneObject) : replayed (snapshots ++ [now]) =
    ((follow snapshots).2.update now).1.replay (replayed snapshots) := by
  rw [replayed, follow_concat, List.foldl_concat, replayed]

theorem previous_follow : (follow snapshots).2.previous = byId (latest snapshots) := by
  induction snapshots using List.reverseRecOn with
  | nil => rfl
  | append_singleton snapshots now _ => rw [follow_concat, latest_concat, previous_update]

theorem stamped_replayed : Stamped (replayed snapshots) (latest snapshots) := by
  induction snapshots using List.reverseRecOn with
  | nil => exact fun _ => rfl
  | append_singleton snapshots now ih =>
    rw [replayed_concat, latest_concat]
    exact ih.replay (previous_follow snapshots)

theorem nodup_keys_replayed : (Keyed.keys (replayed snapshots)).Nodup := by
  induction snapshots using List.reverseRecOn with
  | nil => exact .nil
  | append_singleton snapshots now ih =>
    rw [replayed_concat]
    exact SnapshotDiff.nodup_keys_replay ih _

/-- After any row of snapshots the next comparison sorts its ids by what happened to them. The
comparisons so far build a map with the ids and the stamps of the latest snapshot, each id once,
and the objects that are remembered are those of the latest snapshot. -/
theorem comparisons_follow_row :
    (∀ now, ((follow snapshots).2.update now).1.Sorts (latest snapshots) now) ∧
      (Keyed.keys (replayed snapshots)).Nodup ∧
      (∀ id, ((replayed snapshots).lookup id).map (·.lastModified) =
        (lastObject (latest snapshots) id).map (·.lastModified)) ∧
      ∀ id, (follow snapshots).2.get? id = lastObject (latest snapshots) id := by
  refine ⟨fun now => sorts_update (previous_follow snapshots), nodup_keys_replayed snapshots,
    stamped_replayed snapshots, fun id => ?_⟩
  rw [get?, previous_follow, lookup_byId]

end Differ

end Tabletop
