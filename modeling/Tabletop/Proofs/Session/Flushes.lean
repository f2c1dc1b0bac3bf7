import Tabletop.Proofs.Scene.Stamps
import Tabletop.Proofs.Session.Copies

/-! What a flush makes of the writes it carries. It gathers them by object, so that writes to
different objects change places, and those to objects that are not there get lost; the scene ends up
as if they had been carried out one by one in the order of the calls, but for the stamps. -/

namespace Tabletop

open WriteQueue.Share (applied)

/-- Objects under their ids, but for when they were written. -/
def contents (objects : List (String × SceneObject)) : List (String × SceneObject) :=
  objects.map fun e => (e.1, e.2.unstamped)

/-- An edit that comes to the same whenever an object was written. -/
def Edit.Blind (f : Edit) : Prop :=
  ∀ o o' : SceneObject, o.unstamped = o'.unstamped → (f o).unstamped = (f o').unstamped

/-- Writes carried out one by one, in their order. -/
def inTurn (writes : List (String × Edit)) (objects : List (String × SceneObject)) :
    List (String × SceneObject) :=
  writes.foldl (fun objects w => Keyed.modify w.1 w.2 objects) objects

/-- The edits of one object, in their order. -/
def editsTo (id : String) (writes : List (String × Edit)) : List Edit :=
  (writes.filter (·.1 == id)).map (·.2)

variable {objects objects' : List (String × SceneObject)} {writes : List (String × Edit)}

/-! ### One by one -/

@[simp] theorem keys_contents (objects : List (String × SceneObject)) :
    Keyed.keys (contents objects) = Keyed.keys objects := by
  simp [Keyed.keys, contents]

theorem lookup_contents (objects : List (String × SceneObject)) (id : String) :
    (contents objects).lookup id = (objects.lookup id).map SceneObject.unstamped :=
  Keyed.lookup_mapValues SceneObject.unstamped id objects

theorem keys_inTurn (writes : List (String × Edit)) (objects : List (String × SceneObject)) :
    Keyed.keys (inTurn writes objects) = Keyed.keys objects := by
  induction writes generalizing objects with
  | nil => rfl
  | cons w rest ih => exact (ih _).trans (Keyed.keys_modify w.1 w.2 objects)

/-- Writes to other objects do not matter to an object, wherever they stand in between. -/
theorem lookup_inTurn (writes : List (String × Edit)) (objects : List (String × SceneObject))
    (id : String) :
    (inTurn writes objects).lookup id = (objects.lookup id).map (applied (editsTo id writes)) := by
  induction writes generalizing objects with
  | nil => exact Option.map_id'.symm
  | cons w rest ih =>
    rw [inTurn, List.foldl_cons, ← inTurn, ih, Keyed.lookup_modify, editsTo, editsTo]
    by_cases hw : id = w.1
    · subst hw
      rw [if_pos rfl, Option.map_map, List.filter_cons, if_pos (beq_self_eq_true w.1)]
      rfl
    · rw [if_neg hw, List.filter_cons, if_neg (by simpa using Ne.symm hw)]

theorem editsTo_eq_nil {id : String} (h : id ∉ WriteQueue.idsOf writes) :
    editsTo id writes = [] := by
  rw [editsTo, List.map_eq_nil_iff, List.filter_eq_nil_iff]
  intro w hw hkey
  exact h (WriteQueue.mem_idsOf.mpr ⟨w.2, eq_of_beq hkey ▸ hw⟩)

theorem editOf_eq (writes : List (String × Edit)) (o : SceneObject) :
    WriteQueue.editOf writes o = applied (editsTo o.id writes) o := by
  rw [applied, editsTo, List.foldl_map]
  rfl

/-! ### Stamps in between -/

theorem contents_modify {f : Edit} (hf : f.Blind) (id : String)
    (h : contents objects = contents objects') :
    contents (Keyed.modify id f objects) = contents (Keyed.modify id f objects') := by
  suffices ∀ objects, contents (Keyed.modify id f objects) =
      contents (Keyed.modify id f (contents objects)) by rw [this objects, h, ← this]
  intro objects
  rw [contents, contents, contents, Keyed.modify, Keyed.modify, List.map_map, List.map_map,
    List.map_map]
  refine List.map_congr_left fun e _ => ?_
  simp only [Function.comp_apply]
  split
  · exact congrArg (Prod.mk e.1) (hf _ _ rfl)
  · rfl

/-- Edits that are blind to the stamps come to the same if each write is stamped. -/
theorem contents_edits {s : Scene} (hwrites : ∀ w ∈ writes, w.2.Blind)
    (h : contents s.objects = contents objects) :
    contents (writes.foldl (fun s w => s.edit w.1 w.2) s).objects =
      contents (inTurn writes objects) := by
  induction writes generalizing s objects with
  | nil => exact h
  | cons w rest ih =>
    obtain ⟨hw, hrest⟩ := List.forall_mem_cons.mp hwrites
    have hedit : contents (s.edit w.1 w.2).objects = contents (Keyed.modify w.1 w.2 s.objects) := by
      simp only [contents, Scene.edit, Scene.publish, Scene.touch, Keyed.modify, List.map_map]
      refine List.map_congr_left fun e _ => ?_
      simp only [Function.comp_apply]
      split <;> rfl
    exact ih hrest (hedit.trans (contents_modify hw w.1 h))

/-! ### Scenes -/

namespace Scene

/-- No edit of an operation changes the id of an object. -/
def Operation.KeepsIds : Operation → Prop
  | edit _ f => ∀ o, (f o).id = o.id
  | write b => ∀ o, (b.edit o).id = o.id
  | _ => True

/-- The scenes that operations lead to from one without objects, none of which changes the id of an
object. In between anything may happen that leaves the objects alone. -/
inductive Arises : Scene → Prop where
  | empty {s : Scene} : s.objects = [] → Arises s
  | perform {s : Scene} (op : Operation) : op.KeepsIds → Arises s → Arises (op.perform s)
  | aside {s s' : Scene} : s'.objects = s.objects → Arises s → Arises s'

variable {s : Scene}

theorem Labelled.put (h : s.Labelled) (o : SceneObject) : (s.put o).Labelled where
  nodup := Keyed.nodup_keys_put o.id _ h.nodup
  own e he := by
    rcases Keyed.mem_of_mem_put he with he | rfl
    · exact h.own e he
    · rfl

theorem Labelled.add (h : s.Labelled) (objects : List SceneObject) : (s.add objects).Labelled := by
  suffices (objects.foldl Scene.put s).Labelled from ⟨this.nodup, this.own⟩
  induction objects generalizing s with
  | nil => exact h
  | cons o rest ih => exact ih (h.put o)

theorem Labelled.delete (h : s.Labelled) (ids : List String) : (s.delete ids).Labelled where
  nodup := h.nodup.sublist (List.filter_sublist.map _)
  own e he := h.own e (List.mem_filter.mp he).1

theorem Arises.labelled (h : Arises s) : s.Labelled := by
  induction h with
  | empty h => exact ⟨by rw [h]; exact .nil, by rw [h]; exact nofun⟩
  | perform op hop _ ih =>
    cases op with
    | add objects => exact ih.add objects
    | edit id f => exact ⟨(ih.touch id hop).nodup, (ih.touch id hop).own⟩
    | write b => exact ih.write hop
    | delete ids => exact ih.delete ids
  | aside h _ ih => exact ⟨h ▸ ih.nodup, h ▸ ih.own⟩

theorem keys_touchAll (ids : List String) (edit : Edit) (s : Scene) :
    Keyed.keys (ids.foldl (fun s id => s.touch id edit) s).objects = Keyed.keys s.objects := by
  induction ids generalizing s with
  | nil => rfl
  | cons id rest ih => rw [List.foldl_cons, ih, touch, Keyed.keys_modify]

theorem keys_write (b : Batch) (s : Scene) :
    Keyed.keys (s.write b).2.objects = Keyed.keys s.objects := by
  cases h : s.failure with
  | none =>
    rw [write_of_ok h]
    exact keys_touchAll b.ids b.edit { s with writes := b.ids :: s.writes }
  | some e => rw [(write_of_failure h b).1]

/-- A batch that is accepted leaves the objects as its writes do one by one. -/
theorem contents_write (hs : s.Labelled) {q : WriteQueue} (h : (s.write q.batch).1 = .ok ()) :
    contents (s.write q.batch).2.objects = contents (inTurn q.queue s.objects) := by
  have hkeys : Keyed.keys (s.write q.batch).2.objects = Keyed.keys (inTurn q.queue s.objects) :=
    (keys_write q.batch s).trans (keys_inTurn q.queue s.objects).symm
  refine Keyed.ext ?_ (by rw [keys_contents, keys_contents, hkeys]) fun id => ?_
  · rw [keys_contents, keys_write]
    exact hs.nodup
  · obtain ⟨stamp, hobject⟩ := write_cases (WriteQueue.nodup_idsOf q.queue) h id
    rw [lookup_contents, lookup_contents, lookup_inTurn]
    refine (congrArg (Option.map SceneObject.unstamped) hobject).trans ?_
    rw [object?]
    cases ho : s.objects.lookup id with
    | none => simp
    | some o =>
      obtain rfl : o.id = id := hs.own _ (Keyed.mem_of_lookup ho)
      split
      · -- All edits of the object, and the stamp that is left out
        exact congrArg (fun o => some o.unstamped) (editOf_eq q.queue o)
      · next hid => rw [editsTo_eq_nil hid]; rfl

theorem object?_write_of_notMem {q : WriteQueue} (h : (s.write q.batch).1 = .ok ()) {id : String}
    (hid : id ∉ WriteQueue.idsOf q.queue) :
    (s.write q.batch).2.object? id = s.object? id := by
  obtain ⟨stamp, hobject⟩ := write_cases (WriteQueue.nodup_idsOf q.queue) h id
  exact hobject.trans (if_neg hid)

theorem objects_write_of_error {e : HostError} {b : Batch} (h : (s.write b).1 = .error e) :
    (s.write b).2.objects = s.objects := by
  cases hf : s.failure with
  | none =>
    simp [write, hf] at h
  | some e' => exact (write_of_failure hf b).1

end Scene

/-! ### Flushes -/

namespace Session

variable {s : Session}

/-- What a flush that is accepted leaves of the objects. -/
structure InTurn (writes : List (String × Edit)) (before after : Scene) : Prop where
  /-- But for the stamps all objects are as if the writes had come one by one. -/
  objects : contents after.objects = contents (inTurn writes before.objects)
  /-- So they are if each write had been stamped, where the edits are blind to stamps. -/
  stamped : (∀ w ∈ writes, w.2.Blind) → contents after.objects =
    contents (writes.foldl (fun s w => s.edit w.1 w.2) before).objects
  ids : Keyed.keys after.objects = Keyed.keys before.objects
  others : ∀ id, id ∉ Keyed.keys writes → after.object? id = before.object? id

theorem inTurn_write (hs : s.scene.Labelled) (h : (s.scene.write s.queue.batch).1 = .ok ()) :
    InTurn s.queue.queue s.scene (s.scene.write s.queue.batch).2 where
  objects := Scene.contents_write hs h
  stamped hblind := (Scene.contents_write hs h).trans (contents_edits hblind rfl).symm
  ids := Scene.keys_write s.queue.batch s.scene
  others _ hid := Scene.object?_write_of_notMem h (mt List.mem_eraseDups.mp hid)

/-- Where nothing is queued a flush is over at once. -/
theorem flushWindow_of_empty (hqueue : s.queue.queue = []) (t window : Nat) :
    (s.flushWindow t window).queue.result? window = some (.ok ()) ∧
      (s.flushWindow t window).scene = s.scene := by
  have hbegin : s.queue.begin_ window = (none, { s.queue with
      queue := [], cache := [], pending := none, inFlight := none
      results := (window, .ok ()) :: s.queue.results }) := by
    simp [WriteQueue.begin_, hqueue]
  simp only [flushWindow, hbegin]
  have hrelease := (reschedules_release window { s with queue := { s.queue with
    queue := [], cache := [], pending := none, inFlight := none
    results := (window, .ok ()) :: s.queue.results } }).untouched
  exact ⟨(congrArg (·.result? window) hrelease.queue).trans List.lookup_cons_self, hrelease.scene⟩

/-- A flush either is accepted, and then it leaves the objects as its writes do one by one, or it is
rejected, and then no object changes. Where no edit in it changes an id it leaves a scene that the
next flush may find. -/
theorem flush_in_turn (h : s.scene.Arises) (t window : Nat) :
    (((s.flushWindow t window).queue.result? window = some (.ok ()) ∧
        InTurn s.queue.queue s.scene (s.flushWindow t window).scene) ∨
      ∃ e, (s.flushWindow t window).queue.result? window = some (.error e) ∧
        (s.flushWindow t window).scene.objects = s.scene.objects) ∧
    ((∀ w ∈ s.queue.queue, ∀ o, (w.2 o).id = o.id) → (s.flushWindow t window).scene.Arises) := by
  by_cases hqueue : s.queue.queue = []
  · obtain ⟨hresult, hsame⟩ := flushWindow_of_empty hqueue t window
    rw [hqueue, hsame]
    exact ⟨.inl ⟨hresult, rfl, fun _ => rfl, rfl, fun _ _ => rfl⟩, fun _ => h⟩
  · obtain ⟨ready, waiters, hflush⟩ := flushWindow_eq hqueue t window
    rw [hflush]
    refine ⟨?_, fun hids => .perform (.write s.queue.batch) (fun o => ?_) h⟩
    · cases hresult : (s.scene.write s.queue.batch).1 with
      | ok _ => exact .inl ⟨List.lookup_cons_self, inTurn_write h.labelled hresult⟩
      | error e => exact .inr ⟨e, List.lookup_cons_self, Scene.objects_write_of_error hresult⟩
    · exact id_edits (fun w hw => hids w (List.mem_filter.mp hw).1) o

/-- Two objects, and writes to them in turns: the second is named and shows its name, and between
the one write and the other come writes to the first and to one that is not there. -/
def labels : Session where
  config := {}
  scene := ({} : Scene).add [{ id := "a" }, { id := "b" }]
  queue := {
    queue := [("b", fun o => { o with name := "cup" }), ("a", fun o => { o with name := "die" }),
      ("c", fun o => { o with name := "map" }), ("b", fun o => { o with text := o.name })] }

/-- The same, where the host does not answer. -/
def unlabelled : Session :=
  { labels with scene := { labels.scene with failure := some .unavailable } }

/-- What the objects of a scene are called and show. -/
def labelsOf (s : Scene) : List (String × String × String) :=
  s.objects.map fun e => (e.1, e.2.name, e.2.text)

theorem flush_in_turn_labels :
    labels.scene.Arises ∧ InTurn labels.queue.queue labels.scene (labels.flushWindow 0 0).scene ∧
      labelsOf (labels.flushWindow 0 0).scene = [("a", "die", ""), ("b", "cup", "cup")] ∧
      labelsOf (unlabelled.flushWindow 0 0).scene = [("a", "", ""), ("b", "", "")] := by
  have harises : labels.scene.Arises := .perform (.add _) trivial (.empty rfl)
  have hsilent : unlabelled.scene.Arises := .aside (s := labels.scene) rfl harises
  have hresult : (labels.flushWindow 0 0).queue.result? 0 = some (.ok ()) := rfl
  have hrejected : (unlabelled.flushWindow 0 0).queue.result? 0 = some (.error .unavailable) := rfl
  refine ⟨harises, ?_, by decide +kernel, ?_⟩
  · obtain ⟨⟨-, h⟩ | ⟨e, he, -⟩, -⟩ := flush_in_turn harises 0 0
    · exact h
    · cases hresult.symm.trans he
  · obtain ⟨⟨hok, -⟩ | ⟨e, -, h⟩, -⟩ := flush_in_turn hsilent 0 0
    · cases hrejected.symm.trans hok
    · rw [labelsOf, h]
      decide +kernel

end Session

end Tabletop
