import Tabletop.Proofs.Registry.Thinned
import Tabletop.Proofs.Session.Deeds
import Tabletop.Session.Change

/-! What turns, and events other than a snapshot, leave of the stores that snapshots are taken up
in: the last snapshot, the stamps of processed records and the cache stay as they are, and of what
is installed some may go. -/

namespace Tabletop

namespace Session

variable {s s' s'' : Session}

/-- A call changes the registry, and none of these stores. -/
theorem dispatch_fields (op : Registry → Dispatched) (s : Session) :
    (s.dispatch op).2.registry = (op s.registry).registry ∧
      (s.dispatch op).2.handled = s.handled ∧ (s.dispatch op).2.differ = s.differ ∧
      (s.dispatch op).2.config = s.config ∧ (s.dispatch op).2.globals = s.globals ∧
      (s.dispatch op).2.cache = s.cache := by
  obtain ⟨launched, ready, cancellations, h, -⟩ := dispatch_eq op s
  rw [h]
  exact ⟨rfl, rfl, rfl, rfl, rfl, rfl⟩

/-- Nothing new is installed, and nothing is recorded of any snapshot. -/
structure Leaves (s s' : Session) : Prop where
  registry : s.registry.Sound → s'.registry.Sound ∧ Registry.Thinned s.registry s'.registry
  handled : s'.handled = s.handled
  differ : s'.differ = s.differ
  config : s'.config = s.config
  globals : s'.globals = s.globals
  cache : ∀ e ∈ s'.cache.entries, e ∈ s.cache.entries

namespace Leaves

theorem refl (s : Session) : Leaves s s :=
  ⟨fun h => ⟨h, .refl _⟩, rfl, rfl, rfl, rfl, fun _ h => h⟩

theorem trans (h : Leaves s s') (h' : Leaves s' s'') : Leaves s s'' where
  registry hs :=
    let ⟨hs', ht⟩ := h.registry hs
    let ⟨hs'', ht'⟩ := h'.registry hs'
    ⟨hs'', ht.trans ht'⟩
  handled := h'.handled.trans h.handled
  differ := h'.differ.trans h.differ
  config := h'.config.trans h.config
  globals := h'.globals.trans h.globals
  cache e he := h.cache e (h'.cache e he)

/-- A change of other things. -/
theorem of_eq (hr : s'.registry = s.registry) (hh : s'.handled = s.handled)
    (hd : s'.differ = s.differ) (hc : s'.config = s.config) (hg : s'.globals = s.globals)
    (he : s'.cache = s.cache) : Leaves s s' := by
  refine ⟨fun h => ?_, hh, hd, hc, hg, fun e h => he ▸ h⟩
  rw [hr]
  exact ⟨h, .refl _⟩

/-! ### Operations -/

theorem spawn (task : Task) (s : Session) : Leaves s (s.spawn task) := of_eq rfl rfl rfl rfl rfl rfl

theorem foldl {σ α : Type} (g : σ → Session) (f : σ → α → σ)
    (hf : ∀ p a, Leaves (g p) (g (f p a))) (xs : List α) (p : σ) :
    Leaves (g p) (g (xs.foldl f p)) := by
  induction xs generalizing p with
  | nil => exact .refl _
  | cons a rest ih => exact (hf p a).trans (ih _)

/-- A call that installs nothing. -/
theorem call {c : Registry.Call} (hc : c.installs = false) (s : Session) :
    Leaves s (s.dispatch c.perform).2 := by
  obtain ⟨hr, hh, hd, hconfig, hg, hcache⟩ := dispatch_fields c.perform s
  refine ⟨fun hs => ?_, hh, hd, hconfig, hg, fun e he => hcache ▸ he⟩
  rw [hr]
  exact ⟨(c.honest hs).sound hs, c.thinned hc hs.toTidy⟩

theorem dispatchAll {α : Type} {op : α → Registry → Dispatched}
    (hop : ∀ a, ∃ c : Registry.Call, c.installs = false ∧ op a = c.perform) (xs : List α)
    (s : Session) : Leaves s (s.dispatchAll op xs).2 := by
  refine foldl Prod.snd _ (fun p a => ?_) xs (0, s)
  obtain ⟨c, hc, h⟩ := hop a
  rw [h]
  exact call hc p.2

theorem write (target : WriteTarget) (edit : Edit) (s : Session) :
    Leaves s (s.write target edit).2 := by
  have hq (queue : WriteQueue) : Leaves s { s with queue } := of_eq rfl rfl rfl rfl rfl rfl
  simp only [Session.write]
  split
  · exact (hq _).trans (spawn _ _)
  · exact hq _

theorem prune (s : Session) : Leaves s s.prune :=
  ⟨fun h => ⟨h, .refl _⟩, rfl, rfl, rfl, rfl, fun _ h => (List.mem_filter.mp h).1⟩

/-! ### Turns -/

theorem answer (x : Execution) (s : Session) (r : Request) : Leaves s (s.answer x r).2 := by
  cases answered x s r with
  | calls c _ hc h => exact h ▸ call hc s
  | writes target edit _ h => exact h ▸ write target edit s
  | detaches sound _ h => exact h ▸ spawn _ s
  | keeps memory scene queue entropy _ _ h => exact h ▸ of_eq rfl rfl rfl rfl rfl rfl

theorem finish (t : Nat) (x : Execution) (result : Except ExecError Unit) (s : Session) :
    Leaves s (s.finish t x result) := by
  have hend : Leaves s { s with
      registry := s.registry.finish x.actor.object x.actor.hat x.run
      cancellations := s.cancellations.forget x.run } :=
    ⟨fun h => ⟨h.finish _ _ _, Registry.thinned_finish _ _ _ _⟩, rfl, rfl, rfl, rfl, fun _ h => h⟩
  simp only [Session.finish]
  split <;> exact hend.trans (of_eq rfl rfl rfl rfl rfl rfl)

theorem reschedules (h : Reschedules s s') : Leaves s s' := by
  cases h
  exact of_eq rfl rfl rfl rfl rfl rfl

theorem modify (t : Nat) (f : Execution → Execution) (s : Session) :
    Leaves s (s.modifyExecution t f) :=
  of_eq rfl rfl rfl rfl rfl rfl

theorem flushWindow (t window : Nat) (s : Session) : Leaves s (s.flushWindow t window) := by
  have hflush (scene : Scene) (queue : WriteQueue) : Leaves s { s with scene, queue } :=
    of_eq rfl rfl rfl rfl rfl rfl
  have hdrop (s : Session) : Leaves s ((s.release window).dropTask t) :=
    (reschedules (reschedules_release window s)).trans (of_eq rfl rfl rfl rfl rfl rfl)
  simp only [Session.flushWindow]
  split <;> exact (hflush _ _).trans (hdrop _)

theorem turned (h : Turned s s') : Leaves s s' := by
  cases h with
  | goes t f h => exact (modify t f s).trans (reschedules h)
  | asks f _ _ => exact (answer _ s _).trans (modify _ f _)
  | finishes result _ => exact finish _ _ result s
  | plays _ => exact of_eq rfl rfl rfl rfl rfl rfl
  | sets due _ => exact of_eq rfl rfl rfl rfl rfl rfl
  | flushes _ => exact flushWindow _ _ s

theorem step (h : s.step? = some s') : Leaves s s' := turned (turned_step h)

/-! ### Events -/

theorem select (ids : List String) (s : Session) : Leaves s (s.select ids).2 := by
  have hop (e : String × Bool) : ∃ d : Registry.Call, d.installs = false ∧
      Registry.selectionChanged e.1 e.2 = d.perform := ⟨.selectionChanged .., rfl, rfl⟩
  have hall (xs : List (String × Bool)) (selection : List String) :
      Leaves s { (s.dispatchAll (fun e => Registry.selectionChanged e.1 e.2) xs).2 with
        selection } :=
    (dispatchAll hop xs s).trans (of_eq rfl rfl rfl rfl rfl rfl)
  simp only [Session.select]
  exact hall _ _

theorem dispatchProperties (updates : List Update) (s : Session) :
    Leaves s (s.dispatchProperties updates).2 := by
  have hop (c : String × TrackedProperty × Value) : ∃ d : Registry.Call, d.installs = false ∧
      Registry.propertyChanged c.1 c.2.1 c.2.2 = d.perform := ⟨.propertyChanged .., rfl, rfl⟩
  exact dispatchAll hop _ s

theorem dispatchOverlaps (c : Space.OverlapChange) (s : Session) :
    Leaves s (s.dispatchOverlaps c).2 := by
  have hop (e : Space.Pair × CollisionPhase) : ∃ d : Registry.Call, d.installs = false ∧
      Registry.collision e.1.a e.1.b e.2 = d.perform := ⟨.collision .., rfl, rfl⟩
  exact dispatchAll hop _ s

end Leaves

end Session

end Tabletop
