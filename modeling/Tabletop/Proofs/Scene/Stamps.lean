import Tabletop.Proofs.Scene
import Tabletop.Snapshot

/-! The stamps of an object over its time in a scene. As long as the object is abreast of the clock,
its stamp goes up with every write. An object that came with a stamp of its own ahead of the clock
falls back with a write, and can then come to the stamp that it had with another content. -/

namespace Tabletop.Scene

variable {s s' s'' : Scene} {id : String} {o : SceneObject} {states : List SceneObject}

/-! ### Operations -/

/-- What adds, changes or removes objects. A new scene is filled by adding to one without objects.
-/
inductive Operation where
  | add (objects : List SceneObject)
  | edit (id : String) (edit : Edit)
  | write (b : Batch)
  | delete (ids : List String)

namespace Operation

def perform (s : Scene) : Operation → Scene
  | add objects => s.add objects
  | edit id f => s.edit id f
  | write b => (s.write b).2
  | delete ids => s.delete ids

/-- An object of the id is edited or put in its place. A batch that fails writes nothing. -/
def Writes (id : String) (s : Scene) : Operation → Prop
  | add objects => ∃ o ∈ objects, o.id = id
  | edit j _ => j = id
  | write b => s.failure = none ∧ id ∈ b.ids
  | delete _ => False

end Operation

/-- The stamp of an object is not ahead of the clock. -/
def Abreast (id : String) (s : Scene) : Prop :=
  ∀ o, s.object? id = some o → o.lastModified ≤ s.clock

/-- Every write to an object leaves it with a greater stamp. -/
def Rises (id : String) (s : Scene) : Prop :=
  ∀ (op : Operation) (o : SceneObject), op.Writes id s → s.object? id = some o →
    ∃ o', (op.perform s).object? id = some o' ∧ o.lastModified < o'.lastModified

/-- The states of an object in reverse order, where those `earlier` came before. They start anew
when it is gone. -/
def seen (id : String) (earlier : List SceneObject) (s : Scene) : List SceneObject :=
  match s.object? id with
  | none => []
  | some o => o :: earlier

/-- The states of an object, the last one first, since it was there, and abreast of the clock: no
object is added that would be ahead of it. In between anything may happen that leaves the objects
and the clock alone. -/
inductive Timeline (id : String) : List SceneObject → Scene → Prop where
  | start {s : Scene} : Abreast id s → Timeline id (seen id [] s) s
  | perform {states : List SceneObject} {s : Scene} (op : Operation) : Timeline id states s →
    (∀ objects, op = .add objects → Abreast id (s.add objects)) →
    Timeline id (seen id states (op.perform s)) (op.perform s)
  | aside {states : List SceneObject} {s s' : Scene} : Timeline id states s →
    s'.objects = s.objects → s'.clock = s.clock → Timeline id states s'

/-! ### Writes one after another -/

@[simp] theorem object?_publish (s : Scene) (j : String) : s.publish.object? j = s.object? j := rfl

@[simp] theorem clock_publish (s : Scene) : s.publish.clock = s.clock := rfl

theorem object?_put (o : SceneObject) (s : Scene) (j : String) : (s.put o).object? j =
    if j = o.id then some { o with lastModified := max o.lastModified (s.clock + 1) }
    else s.object? j := by
  simp only [object?, put, Keyed.lookup_put]

theorem object?_edit (ho : s.object? id = some o) (f : Edit) :
    (s.edit id f).object? id = some { f o with lastModified := s.clock + 1 } := by
  rw [edit, object?_publish, object?_touch, if_pos rfl, ho, Option.map_some]

/-- An object is there with a stamp from after a time. -/
def StampedAfter (time : Nat) (id : String) (s : Scene) : Prop :=
  ∃ o, s.object? id = some o ∧ time < o.lastModified

/-- The clock went on, and an object is as it was or has a stamp from after that. -/
structure Moved (id : String) (s s' : Scene) : Prop where
  clock : s.clock ≤ s'.clock
  object : s'.object? id = s.object? id ∨ StampedAfter s.clock id s'

theorem Moved.trans (h : Moved id s s') (h' : Moved id s' s'') : Moved id s s'' := by
  refine ⟨Nat.le_trans h.clock h'.clock, ?_⟩
  obtain hsame | ⟨o, ho, hstamp⟩ := h'.object
  · simpa only [StampedAfter, hsame] using h.object
  · exact .inr ⟨o, ho, Nat.lt_of_le_of_lt h.clock hstamp⟩

theorem Moved.present (h : Moved id s s') (hs : (s.object? id).isSome) :
    (s'.object? id).isSome := by
  obtain hsame | ⟨o, ho, -⟩ := h.object
  · rwa [hsame]
  · rw [ho, Option.isSome_some]

theorem Moved.stampedAfter (h : Moved id s s') {time : Nat} (htime : time ≤ s.clock)
    (hs : StampedAfter time id s) : StampedAfter time id s' := by
  obtain hsame | ⟨o, ho, hstamp⟩ := h.object
  · simpa only [StampedAfter, hsame] using hs
  · exact ⟨o, ho, Nat.lt_of_le_of_lt htime hstamp⟩

theorem stampedAfter_put (ho : o.id = id) (s : Scene) : StampedAfter s.clock id (s.put o) := by
  refine ⟨_, by rw [object?_put, if_pos ho.symm], ?_⟩
  simp only
  omega

theorem stampedAfter_touch (f : Edit) (hs : (s.object? id).isSome) :
    StampedAfter s.clock id (s.touch id f) := by
  obtain ⟨o, ho⟩ := Option.isSome_iff_exists.mp hs
  exact ⟨_, by rw [object?_touch, if_pos rfl, ho, Option.map_some], Nat.lt_succ_self _⟩

theorem moved_put (o : SceneObject) (s : Scene) : Moved id s (s.put o) := by
  refine ⟨Nat.le_succ _, ?_⟩
  by_cases h : o.id = id
  · exact .inr (stampedAfter_put h s)
  · exact .inl (by rw [object?_put, if_neg (Ne.symm h)])

theorem moved_touch (j : String) (f : Edit) (s : Scene) : Moved id s (s.touch j f) := by
  refine ⟨Nat.le_succ _, ?_⟩
  by_cases h : id = j
  · subst h
    cases hs : s.object? id with
    | none => exact .inl (by rw [object?_touch, if_pos rfl, hs, Option.map_none])
    | some o => exact .inr (stampedAfter_touch f (by rw [hs, Option.isSome_some]))
  · exact .inl (by rw [object?_touch, if_neg h])

section Foldl

variable {α : Type} {f : Scene → α → Scene} (hf : ∀ s a, Moved id s (f s a))
include hf

theorem moved_foldl (l : List α) (s : Scene) : Moved id s (l.foldl f s) := by
  induction l generalizing s with
  | nil => exact ⟨Nat.le_refl _, .inl rfl⟩
  | cons a rest ih => exact (hf s a).trans (ih (f s a))

/-- Where one of the writes is to an object that is there, the object has a new stamp in the end. -/
theorem stampedAfter_foldl {a : α} {l : List α} (ha : a ∈ l)
    (hwrite : ∀ s : Scene, (s.object? id).isSome → StampedAfter s.clock id (f s a)) (s : Scene)
    (hs : (s.object? id).isSome) : StampedAfter s.clock id (l.foldl f s) := by
  obtain ⟨before, after, rfl⟩ := List.append_of_mem ha
  rw [List.foldl_append, List.foldl_cons]
  have hbefore := moved_foldl hf before s
  obtain ⟨o, ho, hstamp⟩ := hwrite _ (hbefore.present hs)
  refine (moved_foldl hf after _).stampedAfter ?_ ⟨o, ho, ?_⟩
  · exact Nat.le_trans hbefore.clock (hf _ a).clock
  · exact Nat.lt_of_le_of_lt hbefore.clock hstamp

end Foldl

/-! ### Operations on an object -/

theorem Moved.publish (h : Moved id s s') : Moved id s s'.publish := ⟨h.clock, h.object⟩

theorem write_of_failure {e : HostError} (h : s.failure = some e) (b : Batch) :
    (s.write b).2.objects = s.objects ∧ (s.write b).2.clock = s.clock := by
  simp only [write, h, and_self]

/-- Where no failure waits, a batch is written object by object. -/
theorem write_of_ok (h : s.failure = none) (b : Batch) : (s.write b).2 =
    (b.ids.foldl (fun (s : Scene) j => s.touch j b.edit)
      { s with writes := b.ids :: s.writes }).publish := by
  simp only [write, h]

theorem moved_write (b : Batch) (s : Scene) : Moved id s (s.write b).2 := by
  cases h : s.failure with
  | none =>
    have hstart : Moved id s { s with writes := b.ids :: s.writes } := ⟨Nat.le_refl _, .inl rfl⟩
    rw [write_of_ok h]
    exact (hstart.trans (moved_foldl (fun s j => moved_touch j b.edit s) b.ids _)).publish
  | some e =>
    obtain ⟨hobjects, hclock⟩ := write_of_failure h b
    exact ⟨Nat.le_of_eq hclock.symm, .inl (by rw [object?, object?, hobjects])⟩

theorem delete_cases (ids : List String) (s : Scene) (id : String) :
    (s.delete ids).object? id = none ∨ (s.delete ids).object? id = s.object? id := by
  simp only [object?, delete, publish, Keyed.lookup_filter fun j => !ids.contains j]
  split
  · exact .inr rfl
  · exact .inl rfl

theorem perform_cases (op : Operation) (s : Scene) (id : String) :
    (op.perform s).object? id = none ∨ Moved id s (op.perform s) := by
  cases op with
  | add objects => exact .inr (moved_foldl (fun s o => moved_put o s) objects s).publish
  | edit j f => exact .inr (moved_touch j f s).publish
  | write b => exact .inr (moved_write b s)
  | delete ids => exact (delete_cases ids s id).imp (·) fun h => ⟨Nat.le_refl _, .inl h⟩

/-- A write to an object that is there gives it a stamp from after that. -/
theorem stampedAfter_perform {op : Operation} (hop : op.Writes id s) (hs : (s.object? id).isSome) :
    StampedAfter s.clock id (op.perform s) := by
  cases op with
  | add objects =>
    obtain ⟨o, ho, hid⟩ := hop
    exact stampedAfter_foldl (fun s o => moved_put o s) ho (fun s _ => stampedAfter_put hid s) s hs
  | edit j f =>
    obtain rfl : j = id := hop
    exact stampedAfter_touch f hs
  | write b =>
    obtain ⟨hfailure, hid⟩ := hop
    rw [Operation.perform, write_of_ok hfailure]
    exact stampedAfter_foldl (fun s j => moved_touch j b.edit s) hid
      (fun s hs => stampedAfter_touch b.edit hs) { s with writes := b.ids :: s.writes } hs
  | delete ids => exact hop.elim

theorem rises_iff : Rises id s ↔ Abreast id s := by
  constructor
  · intro h o ho
    obtain ⟨o', ho', hlt⟩ := h (.edit id fun o => o) o rfl ho
    have hstamp : o'.lastModified = s.clock + 1 := by
      cases (object?_edit ho fun o => o).symm.trans ho'
      rfl
    omega
  · intro h op o hop ho
    obtain ⟨o', ho', hstamp⟩ := stampedAfter_perform hop (by rw [ho, Option.isSome_some])
    exact ⟨o', ho', Nat.lt_of_le_of_lt (h o ho) hstamp⟩

/-! ### Staying abreast -/

theorem Abreast.of_eq (h : Abreast id s) (hobjects : s'.objects = s.objects)
    (hclock : s'.clock = s.clock) : Abreast id s' := by
  simpa only [Abreast, object?, hobjects, hclock] using h

theorem abreast_touch (h : Abreast id s) (j : String) (f : Edit) : Abreast id (s.touch j f) := by
  intro o ho
  rw [object?_touch] at ho
  split at ho
  · obtain ⟨q, -, rfl⟩ := Option.map_eq_some_iff.mp ho
    exact Nat.le_refl _
  · exact Nat.le_succ_of_le (h o ho)

theorem abreast_put (h : Abreast id s) (ho : o.id = id → o.lastModified ≤ s.clock + 1) :
    Abreast id (s.put o) := by
  intro q hq
  rw [object?_put] at hq
  split at hq
  · next hid =>
    cases hq
    exact Nat.max_le.mpr ⟨ho hid.symm, Nat.le_refl _⟩
  · exact Nat.le_succ_of_le (h q hq)

/-- Objects that come with no stamp, or with one that the clock has reached, are abreast of it. -/
theorem abreast_add {objects : List SceneObject} (h : Abreast id s)
    (hold : ∀ o ∈ objects, o.id = id → o.lastModified ≤ s.clock + 1) :
    Abreast id (s.add objects) := by
  suffices Abreast id (objects.foldl put s) from this
  induction objects generalizing s with
  | nil => exact h
  | cons o rest ih =>
    obtain ⟨ho, hrest⟩ := List.forall_mem_cons.mp hold
    exact ih (abreast_put h ho) fun q hq hid => Nat.le_succ_of_le (hrest q hq hid)

theorem abreast_write (h : Abreast id s) (b : Batch) : Abreast id (s.write b).2 := by
  cases hfailure : s.failure with
  | none =>
    rw [write_of_ok hfailure]
    suffices ∀ (ids : List String) (s : Scene), Abreast id s →
      Abreast id (ids.foldl (fun (s : Scene) j => s.touch j b.edit) s) from this b.ids _ h
    intro ids
    induction ids with
    | nil => exact fun s hs => hs
    | cons j rest ih => exact fun s hs => ih _ (abreast_touch hs j b.edit)
  | some e =>
    obtain ⟨hobjects, hclock⟩ := write_of_failure hfailure b
    exact h.of_eq hobjects hclock

theorem abreast_perform {op : Operation} (h : Abreast id s)
    (hadd : ∀ objects, op = .add objects → Abreast id (s.add objects)) :
    Abreast id (op.perform s) := by
  cases op with
  | add objects => exact hadd objects rfl
  | edit j f => exact abreast_touch h j f
  | write b => exact abreast_write h b
  | delete ids =>
    intro o ho
    obtain hnone | hsame := delete_cases ids s id
    · cases hnone.symm.trans ho
    · exact h o (hsame.symm.trans ho)

/-! ### The states of an object -/

/-- The same state, or one with a greater stamp. -/
def Later (now before : SceneObject) : Prop :=
  before.lastModified < now.lastModified ∨ now = before

theorem Later.trans {p q r : SceneObject} (h : Later p q) (h' : Later q r) : Later p r := by
  obtain hlt | rfl := h
  · obtain hlt' | rfl := h'
    · exact .inl (Nat.lt_trans hlt' hlt)
    · exact .inl hlt
  · exact h'

/-- The last state is that of the object now, and all stand in the order of their stamps. -/
structure Timeline.Sound (id : String) (states : List SceneObject) (s : Scene) : Prop where
  abreast : Abreast id s
  last : states.head? = s.object? id
  order : states.Pairwise Later

theorem head?_seen (id : String) (earlier : List SceneObject) (s : Scene) :
    (seen id earlier s).head? = s.object? id := by
  unfold seen
  split <;> simp [*]

/-- What moved stands in the order of its stamps. -/
theorem pairwise_seen (h : Timeline.Sound id states s)
    (hs : s'.object? id = none ∨ Moved id s s') : (seen id states s').Pairwise Later := by
  unfold seen
  split
  · exact .nil
  · next o' ho' =>
    refine List.pairwise_cons.mpr ⟨fun q hq => ?_, h.order⟩
    cases states with
    | nil => nomatch hq
    | cons o rest =>
      have ho : s.object? id = some o := h.last.symm
      have hlast : Later o' o := by
        obtain hnone | ⟨-, hsame | ⟨p, hp, hstamp⟩⟩ := hs
        · cases hnone.symm.trans ho'
        · rw [ho, ho'] at hsame
          exact .inr (Option.some.inj hsame)
        · cases hp.symm.trans ho'
          exact .inl (Nat.lt_of_le_of_lt (h.abreast o ho) hstamp)
      obtain ⟨hfirst, -⟩ := List.pairwise_cons.mp h.order
      rcases List.mem_cons.mp hq with rfl | hq
      · exact hlast
      · exact hlast.trans (hfirst q hq)

theorem Timeline.sound (h : Timeline id states s) : Timeline.Sound id states s := by
  induction h with
  | @start s hs =>
    refine ⟨hs, head?_seen id [] s, ?_⟩
    unfold seen
    split
    · exact .nil
    · exact List.pairwise_singleton _ _
  | @perform states s op _ hadd ih =>
    exact ⟨abreast_perform ih.abreast hadd, head?_seen id states _,
      pairwise_seen ih (perform_cases op s id)⟩
  | @aside states s s' _ hobjects hclock ih =>
    have hobject : s'.object? id = s.object? id := by rw [object?, object?, hobjects]
    exact ⟨ih.abreast.of_eq hobjects hclock, ih.last.trans hobject.symm, ih.order⟩

/-! ### Ahead of the clock -/

/-- Edits that change nothing count up the stamp of an object that has the clock's. -/
theorem object?_edits (n : Nat) (ho : s.object? id = some o) (hstamp : o.lastModified = s.clock) :
    ((List.replicate n fun o => o).foldl (fun s f => s.edit id f) s).object? id =
      some { o with lastModified := o.lastModified + n } := by
  induction n generalizing s o with
  | zero => exact ho
  | succ n ih =>
    rw [List.replicate_succ, List.foldl_cons, ih (object?_edit ho fun o => o) rfl]
    simp only [hstamp, Option.some.injEq, SceneObject.mk.injEq, true_and, and_true]
    omega

/-- By edits alone an object that is ahead of the clock comes to the stamp that it has with any
content. -/
theorem exists_edits (ho : s.object? id = some o) (hahead : s.clock < o.lastModified) (f : Edit) :
    ∃ edits : List Edit, (edits.foldl (fun s f => s.edit id f) s).object? id =
      some { f o with lastModified := o.lastModified } := by
  refine ⟨f :: List.replicate (o.lastModified - (s.clock + 1)) fun o => o, ?_⟩
  rw [List.foldl_cons, object?_edits _ (object?_edit ho f) rfl]
  simp only [Option.some.injEq, SceneObject.mk.injEq, true_and, and_true]
  omega

/-- As long as an object is abreast of the clock, which it is if none is added that would be ahead
of it, every write to it leaves it with a greater stamp, and states of it with one stamp are the
same. Nothing else will do: of an object that is ahead of the clock not every write raises the
stamp, and by edits alone it comes to the stamp that it has with any content. -/
theorem stamps_rise (id : String) :
    (∀ states s, Timeline id states s → Rises id s ∧ states.Pairwise Later) ∧
      (∀ s, Rises id s ↔ Abreast id s) ∧
      ∀ (s : Scene) o, s.object? id = some o → s.clock < o.lastModified → ∀ f : Edit,
        ∃ edits : List Edit, (edits.foldl (fun s f => s.edit id f) s).object? id =
          some { f o with lastModified := o.lastModified } := by
  refine ⟨fun states s h => ?_, fun s => rises_iff, fun s o ho hahead f => ?_⟩
  · exact ⟨rises_iff.mpr h.sound.abreast, h.sound.order⟩
  · exact exists_edits ho hahead f

/-- A scene with one die, which comes with a stamp of its own. -/
def dieOf (stamp : Nat) : Scene := ({} : Scene).add [{ id := "die", lastModified := stamp }]

/-- The die shows a six. -/
def six : Edit := fun o => { o with text := "six" }

/-- The stamp of the die and what it shows. -/
def stampAndText (o : SceneObject) : Nat × String := (o.lastModified, o.text)

theorem stamps_rise_die :
    (∃ states s, Timeline "die" states s ∧ states.map stampAndText = [(2, "six"), (1, "")] ∧
      Rises "die" s ∧ states.Pairwise Later) ∧
    (dieOf 5).clock = 1 ∧ ∃ edits : List Edit,
      ((edits.foldl (fun s f => s.edit "die" f) (dieOf 5)).object? "die").map stampAndText =
        some (5, "six") := by
  obtain ⟨hlived, -, hahead⟩ := stamps_rise "die"
  have hnone : Abreast "die" {} := by
    intro o ho
    cases ho
  have hempty : Timeline "die" [] {} := .start hnone
  have hadded : Timeline "die" _ (dieOf 0) := hempty.perform (.add _) fun _ h =>
    Operation.add.inj h ▸ abreast_add hnone (by simp)
  have hedited := hadded.perform (.edit "die" six) nofun
  obtain ⟨edits, hedits⟩ := hahead (dieOf 5) _ rfl (by decide) six
  exact ⟨⟨_, _, hedited, rfl, hlived _ _ hedited⟩, rfl, edits, by rw [hedits]; rfl⟩

/-- A die that comes with stamp 2 while the clock is at 1 keeps that stamp with the next edit, so
that the snapshots before and after do not differ. -/
theorem stuck_die :
    ((dieOf 2).object? "die").map stampAndText = some (2, "") ∧
      (((dieOf 2).edit "die" six).object? "die").map stampAndText = some (2, "six") ∧
      (((Differ.mk []).update (dieOf 2).snapshot).2.update
        ((dieOf 2).edit "die" six).snapshot).1.isEmpty = true :=
  ⟨rfl, rfl, rfl⟩

end Tabletop.Scene
