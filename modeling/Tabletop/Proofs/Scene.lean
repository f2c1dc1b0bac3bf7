import Tabletop.Proofs.WriteQueue
import Tabletop.Scene.Memory

/-! What a scene kept in memory shows of its objects after one of them was deleted, and after a
batch was written. -/

namespace Tabletop

/-- What becomes of an object when all that is queued is flushed: the writes to it are carried out
in their order, and it gets a new stamp. -/
def WriteQueue.Lands (q : WriteQueue) (id : String) (o o' : SceneObject) : Prop :=
  if id ∈ idsOf q.queue then o' = { editOf q.queue o with lastModified := o'.lastModified }
  else o' = o

namespace Scene

theorem object?_touch (id : String) (edit : Edit) (s : Scene) (j : String) :
    (s.touch id edit).object? j = if j = id then
      (s.object? id).map fun o => { edit o with lastModified := s.clock + 1 } else s.object? j := by
  simp only [object?, touch, Keyed.lookup_modify]

/-- Touching objects, none of them twice, does an edit once to each. -/
theorem touchAll_cases {ids : List String} (hids : ids.Nodup) (edit : Edit) (s : Scene)
    (j : String) : ∃ stamp, (ids.foldl (fun s id => s.touch id edit) s).object? j =
      if j ∈ ids then (s.object? j).map fun o => { edit o with lastModified := stamp }
      else s.object? j := by
  induction ids generalizing s with
  | nil => exact ⟨0, rfl⟩
  | cons id rest ih =>
    obtain ⟨hid, hrest⟩ := List.nodup_cons.mp hids
    obtain ⟨stamp, h⟩ := ih hrest (s.touch id edit)
    rw [List.foldl_cons, h, object?_touch]
    by_cases hj : j = id
    · subst hj
      exact ⟨s.clock + 1, by simp [hid]⟩
    · exact ⟨stamp, by simp [hj]⟩

theorem object?_delete (id : String) (s : Scene) (j : String) :
    (s.delete [id]).object? j = if j = id then none else s.object? j := by
  have herase : (s.delete [id]).objects = Keyed.erase id s.objects :=
    List.filter_congr fun e _ => by simp [bne, Bool.beq_eq_decide_eq]
  rw [object?, herase]
  exact Keyed.lookup_erase ..

theorem write_cases {b : Batch} (hids : b.ids.Nodup) {s : Scene} (h : (s.write b).1 = .ok ())
    (id : String) : ∃ stamp, (s.write b).2.object? id =
      if id ∈ b.ids then (s.object? id).map fun o => { b.edit o with lastModified := stamp }
      else s.object? id := by
  simp only [write] at h ⊢
  split at h
  · nomatch h
  · next hfailure =>
    simp only [hfailure]
    exact touchAll_cases hids b.edit { s with writes := b.ids :: s.writes, failure := none } id

/-- A flush that does not fail carries out what is queued. -/
theorem lands_write {q : WriteQueue} {s : Scene} (h : (s.write q.batch).1 = .ok ()) (id : String) :
    Option.Rel (q.Lands id) (s.object? id) ((s.write q.batch).2.object? id) := by
  obtain ⟨stamp, hobject⟩ := write_cases (WriteQueue.nodup_idsOf q.queue) h id
  rw [hobject]
  cases s.object? id with
  | none => simp
  | some o =>
    by_cases hid : id ∈ WriteQueue.idsOf q.queue
    · rw [if_pos (show id ∈ q.batch.ids from hid)]
      exact .some (by rw [WriteQueue.Lands, if_pos hid]; rfl)
    · rw [if_neg (show id ∉ q.batch.ids from hid)]
      exact .some (by rw [WriteQueue.Lands, if_neg hid])

/-! ### Objects under their own ids -/

/-- Every object is kept once, under its own id. -/
structure Labelled (s : Scene) : Prop where
  nodup : (Keyed.keys s.objects).Nodup
  own : ∀ e ∈ s.objects, e.2.id = e.1

/-- Of such objects a read by id gives the one that is kept under the id. -/
theorem Labelled.getLast?_read {s : Scene} (h : s.Labelled) (id : String) :
    (s.read (some (.ids [id]))).getLast? = s.object? id := by
  have hread : s.read (some (.ids [id])) = (s.objects.filter (·.1 == id)).map (·.2) := by
    rw [read, snapshot, List.filter_map]
    refine congrArg (List.map _) (List.filter_congr fun e he => ?_)
    simp [ObjectFilter.accepts, h.own e he, Bool.beq_eq_decide_eq]
  rw [hread, object?]
  cases ho : s.objects.lookup id with
  | none =>
    rw [List.filter_eq_nil_iff.mpr, List.map_nil, List.getLast?_nil]
    intro e he hid
    exact Keyed.lookup_eq_none.mp ho (eq_of_beq hid ▸ List.mem_map_of_mem he)
  | some o =>
    have hperm := (Keyed.perm_cons_erase h.nodup (Keyed.mem_of_lookup ho)).filter (·.1 == id)
    have hone : ((id, o) :: Keyed.erase id s.objects).filter (·.1 == id) = [(id, o)] := by
      simp [Keyed.erase]
    rw [hone] at hperm
    rw [List.perm_singleton.mp hperm]
    rfl

theorem Labelled.touch {s : Scene} (h : s.Labelled) (id : String) {edit : Edit}
    (hedit : ∀ o, (edit o).id = o.id) : (s.touch id edit).Labelled where
  nodup := by rw [Scene.touch, Keyed.keys_modify]; exact h.nodup
  own e he := by
    obtain ⟨j, o⟩ := e
    simp only [Scene.touch, Keyed.mem_modify] at he
    rcases he with ⟨-, he⟩ | ⟨rfl, o', he, rfl⟩
    · exact h.own _ he
    · exact (hedit o').trans (h.own _ he)

theorem Labelled.write {s : Scene} (h : s.Labelled) {b : Batch} (hb : ∀ o, (b.edit o).id = o.id) :
    (s.write b).2.Labelled := by
  have hall (ids : List String) {s : Scene} (h : s.Labelled) :
      (ids.foldl (fun s id => s.touch id b.edit) s).Labelled := by
    induction ids generalizing s with
    | nil => exact h
    | cons id rest ih => exact ih (h.touch id hb)
  have hlogged : ({ s with writes := b.ids :: s.writes } : Scene).Labelled := ⟨h.nodup, h.own⟩
  simp only [Scene.write]
  split
  · exact ⟨h.nodup, h.own⟩
  · have hwritten := hall b.ids hlogged
    exact ⟨hwritten.nodup, hwritten.own⟩

end Scene

end Tabletop
