import Tabletop.Proofs.Session.Versions
import Tabletop.Proofs.Value

/-! What scripts are told of the properties of an object. As long as the object is there they are
told each value that differs from the one in the snapshot before, once and in order, so that the
last one they were told is the present one. -/

namespace Tabletop

/-! ### The properties that changed -/

/-- A property of an object, with its new value. -/
abbrev News := String × TrackedProperty × Value

/-- The value, if a property of an object is meant. -/
def News.value? (id : String) (p : TrackedProperty) (c : News) : Option Value :=
  if c.1 = id ∧ c.2.1 = p then some c.2.2 else none

/-- The value of a property, if it differs. -/
def Update.value? (u : Update) (p : TrackedProperty) : Option Value :=
  if u.previous.property p == u.current.property p then none else some (u.current.property p)

namespace Differ

variable {d : Differ} {before now : List SceneObject} {id : String} {p : TrackedProperty}
  {q o : SceneObject}

/-- The properties that a snapshot changes. -/
def news (now : List SceneObject) (d : Differ) : List News :=
  (d.update now).1.updated.flatMap fun u => u.changed.map fun c => (u.current.id, c)

end Differ

/-! ### The states of an object -/

variable {p : TrackedProperty} {o : SceneObject} {states : List SceneObject}

/-- The values of a property in those states in which it differs from the state before. -/
def turns (p : TrackedProperty) : List SceneObject → List Value
  | q :: o :: rest => (Update.value? ⟨q, o⟩ p).toList ++ turns p (o :: rest)
  | _ => []

namespace Session

variable {s s' : Session}

/-! ### What a session tells its scripts -/

/-- A snapshot, with what scripts were told of it. -/
structure Notice where
  snapshot : List SceneObject
  news : List News

/-- The last of some snapshots, which has nothing in it if there is none. -/
def lastSnapshot (notices : List Notice) : List SceneObject :=
  notices.getLast?.elim [] (·.snapshot)

/-- What may happen to a session that takes in snapshots, with what scripts were told of them. In
between anything may happen that leaves the last snapshot alone. -/
inductive Notices : List Notice → Session → Prop where
  | start {s : Session} : s.differ = {} → Notices [] s
  | change {notices : List Notice} {s : Session} (now : List SceneObject) : Notices notices s →
    Notices (notices ++ [⟨now, s.differ.news now⟩]) (s.change now).2
  | meanwhile {notices : List Notice} {s s' : Session} : Notices notices s →
    s'.differ = s.differ → Notices notices s'

variable {notices earlier later rest : List Notice} {m n first : Notice} {id : String}

theorem Notices.passage (h : Notices notices s) (hs : Passage s s') : Notices notices s' := by
  induction hs with
  | refl => exact h
  | tail _ hp ih =>
    cases hp with
    | turn hs => exact ih.meanwhile (Leaves.step hs).differ
    | idle => exact ih.meanwhile rfl

/-- Taking in events is such a run, with a notice for each snapshot among them. -/
theorem Notices.of_run (events : List SceneEvent) (h : Notices notices s) :
    ∃ added, Notices (notices ++ added) (s.run events) ∧
      added.map (·.snapshot) = events.filterMap fun e => match e with
        | .objects now => some now
        | _ => none := by
  induction events generalizing notices s with
  | nil =>
    refine ⟨[], ?_, rfl⟩
    rw [List.append_nil]
    exact h.passage (passage_waitUntil ..)
  | cons e rest ih =>
    have hreceived : Notices notices s.receive := h.passage (passage_waitUntil ..)
    cases e with
    | objects now =>
      obtain ⟨added, hadded, hsnapshots⟩ := ih (hreceived.change now)
      refine ⟨⟨now, s.receive.differ.news now⟩ :: added, ?_, ?_⟩
      · rwa [List.append_cons]
      · rw [List.map_cons, hsnapshots]
        rfl
    | _ =>
      refine ih (hreceived.meanwhile (leaves_apply ?_ _).differ)
      exact nofun

/-- The news of a snapshot are what changed since another. -/
def Follows (before : List SceneObject) (n : Notice) : Prop :=
  n.news = Differ.news n.snapshot ⟨Differ.byId before⟩

/-- The last snapshot is remembered, and the news of each are what changed since the one before. -/
structure Notices.Sound (notices : List Notice) (s : Session) : Prop where
  differ : s.differ.previous = Differ.byId (lastSnapshot notices)
  first : ∀ n ∈ notices.head?, Follows [] n
  chain : notices.IsChain fun m n => Follows m.snapshot n

theorem Notices.sound (h : Notices notices s) : Notices.Sound notices s := by
  induction h with
  | start hd => exact ⟨by rw [hd]; rfl, nofun, .nil⟩
  | @change notices s now _ ih =>
    have hnow : Follows (lastSnapshot notices) ⟨now, s.differ.news now⟩ := by
      rw [Follows, ← ih.differ]
    refine ⟨?_, ?_, List.isChain_append.mpr ⟨ih.chain, .singleton _, ?_⟩⟩
    · rw [(change_spares ih.differ now).1, lastSnapshot, List.getLast?_concat, Option.elim_some]
    · cases notices with
      | nil =>
        rintro _ ⟨⟩
        exact hnow
      | cons m rest => exact ih.first
    · rintro m hm _ ⟨⟩
      rwa [lastSnapshot, hm] at hnow
  | meanwhile _ hd ih => exact ⟨hd ▸ ih.differ, ih.first, ih.chain⟩

end Session

end Tabletop
