import Tabletop.Proofs.Session.Moves

/-! The deeds of a session are the moves that leave its queue to the writers and to the flushes,
which are tasks. A turn answers a request, flushes a window, or does neither. -/

namespace Tabletop

namespace Session

variable {s s' : Session} {t : Nat} {x : Execution}

/-- One deed of whoever has the turn, or of the host between turns. -/
inductive Deed : Session → Session → Prop where
  | turn {s s' : Session} : s.step? = some s' → Deed s s'
  | call {s : Session} (c : Registry.Call) : s.current = none → Deed s (s.dispatch c.perform).2
  | write {s : Session} (target : WriteTarget) (edit : Edit) : Deed s (s.write target edit).2
  | other {s s' : Session} : Undisturbed s s' →
    s'.queue = s.queue ∨ s'.queue = s.queue.invalidate → Deed s s'

/-- Any number of deeds. -/
abbrev Deeds : Session → Session → Prop := Relation.ReflTransGen Deed

/-- A session that deeds have led to. -/
def Lived (s : Session) : Prop := ∃ s₀, Fresh s₀ ∧ s₀.queue = {} ∧ Deeds s₀ s

theorem Deed.move (h : Deed s s') : Move s s' := by
  cases h with
  | turn h => exact .turn h
  | call c hcur => exact .call c hcur
  | write target edit => exact .write target edit
  | other h _ => exact .other h

theorem Passes.deed (h : Passes s s') : Deed s s' := by
  cases h with
  | turn h => exact .turn h
  | idle => exact .other ⟨rfl, rfl, rfl, rfl, rfl⟩ (.inl rfl)

theorem Deeds.moves (h : Deeds s s') : Moves s s' :=
  Relation.ReflTransGen.mono (fun _ _ => Deed.move) _ _ h

theorem Passage.deeds (h : Passage s s') : Deeds s s' :=
  Relation.ReflTransGen.mono (fun _ _ => Passes.deed) _ _ h

theorem Lived.reached (h : Lived s) : Reached s :=
  let ⟨s₀, h₀, _, hs⟩ := h
  ⟨s₀, h₀, hs.moves⟩

theorem Lived.deeds (h : Lived s) (hs : Deeds s s') : Lived s' :=
  let ⟨s₀, h₀, hq, hs₀⟩ := h
  ⟨s₀, h₀, hq, hs₀.trans hs⟩

/-! ### Flushes among the tasks -/

/-- The windows whose flush is a task. -/
def flushTasks (s : Session) : List Nat :=
  s.tasks.filterMap fun e => match e.2 with
    | .flush window _ => some window
    | _ => none

theorem flushTasks_modify (t : Nat) (f : Execution → Execution) (s : Session) :
    (s.modifyExecution t f).flushTasks = s.flushTasks := by
  simp only [flushTasks, modifyExecution, List.filterMap_map]
  refine List.filterMap_congr fun e _ => ?_
  rcases e with ⟨u, x | _ | _⟩ <;> simp only [Function.comp_apply]
  by_cases hu : u = t <;> simp [hu]

theorem flushTasks_spawn (task : Task) (s : Session) : (s.spawn task).flushTasks =
    s.flushTasks ++ match task with
      | .flush window _ => [window]
      | _ => [] := by
  cases task <;> simp [flushTasks, spawn, List.filterMap_append]

/-- The end of a task that is no flush. -/
theorem flushTasks_filter (hf : ∀ window due, (t, .flush window due) ∉ s.tasks)
    (ht : s'.tasks = s.tasks.filter (·.1 != t)) : s'.flushTasks = s.flushTasks := by
  rw [flushTasks, ht, flushTasks, List.filterMap_filter]
  refine List.filterMap_congr fun e he => ?_
  rcases e with ⟨u, _ | ⟨window, due⟩ | _⟩ <;> simp only [ite_self]
  refine if_pos (bne_iff_ne.mpr ?_)
  rintro rfl
  exact hf window due he

/-- The end of a flush. -/
theorem Orderly.flushTasks_filter (h : s.Orderly) {window : Nat} {due : Option Nat}
    (hm : (t, .flush window due) ∈ s.tasks) (ht : s'.tasks = s.tasks.filter (·.1 != t)) :
    s.flushTasks.Perm (window :: s'.flushTasks) := by
  rw [flushTasks, flushTasks, ht]
  exact (Keyed.perm_cons_filter h.keys hm).filterMap _

/-- A flush that is put in the place of one for the same window. -/
theorem Orderly.flushTasks_setTask (h : s.Orderly) {window : Nat} {due due' : Option Nat}
    (hm : (t, .flush window due) ∈ s.tasks) :
    (s.setTask t (.flush window due')).flushTasks = s.flushTasks := by
  simp only [flushTasks, setTask, List.filterMap_map]
  refine List.filterMap_congr fun entry he => ?_
  obtain ⟨u, task⟩ := entry
  rw [Function.comp_apply]
  by_cases hu : u = t
  · subst hu
    obtain rfl := Option.some.inj ((h.task? he).symm.trans (h.task? hm))
    simp
  · rw [if_neg hu]

/-! ### Turns -/

/-- A change of what is neither queued, nor set up for a flush, nor shown on the scene; scripts may
end by it. -/
structure KeepsQueueAndScene (s s' : Session) : Prop where
  queue : s'.queue = s.queue
  flushTasks : s'.flushTasks = s.flushTasks
  objects : s'.scene.objects = s.scene.objects
  ids : s'.registry.ids = s.registry.ids
  runs : s'.registry.runs = s.registry.runs
  taskCount : s'.taskCount = s.taskCount

namespace KeepsQueueAndScene

theorem trans {s'' : Session} (h : KeepsQueueAndScene s s') (h' : KeepsQueueAndScene s' s'') : KeepsQueueAndScene s s'' where
  queue := h'.queue.trans h.queue
  flushTasks := h'.flushTasks.trans h.flushTasks
  objects := h'.objects.trans h.objects
  ids := h'.ids.trans h.ids
  runs := h'.runs.trans h.runs
  taskCount := h'.taskCount.trans h.taskCount

theorem modify (t : Nat) (f : Execution → Execution) (s : Session) :
    KeepsQueueAndScene s (s.modifyExecution t f) :=
  ⟨rfl, flushTasks_modify t f s, rfl, rfl, rfl, rfl⟩

theorem reschedules (h : Reschedules s s') : KeepsQueueAndScene s s' := by
  cases h
  exact ⟨rfl, rfl, rfl, rfl, rfl, rfl⟩

theorem finish (hf : ∀ window due, (t, .flush window due) ∉ s.tasks) (x : Execution)
    (result : Except ExecError Unit) : KeepsQueueAndScene s (s.finish t x result) := by
  have hids : (s.registry.finish x.actor.object x.actor.hat x.run).ids = s.registry.ids ∧
      (s.registry.finish x.actor.object x.actor.hat x.run).runs = s.registry.runs := by
    simp only [Registry.finish]
    split
    · split
      · exact ⟨by rw [Registry.ids, Keyed.keys_modify]; rfl, rfl⟩
      · exact ⟨rfl, rfl⟩
    · exact ⟨rfl, rfl⟩
  have hscene (scene : Scene) (hs : scene.objects = s.scene.objects) : KeepsQueueAndScene s ({ s with
      registry := s.registry.finish x.actor.object x.actor.hat x.run
      cancellations := s.cancellations.forget x.run
      scene }.dropTask t) :=
    ⟨rfl, flushTasks_filter hf rfl, hs, hids.1, hids.2, rfl⟩
  simp only [Session.finish]
  split <;> exact hscene _ rfl

end KeepsQueueAndScene

/-- A turn is nothing to the queue and the scene, unless it answers a request or flushes a window. -/
theorem Turned.keeps_or (h : Turned s s') (ho : s.Orderly) : KeepsQueueAndScene s s' ∨
    (∃ (t : Nat) (x : Execution) (r : Request) (next : r.Answer → Machine)
      (f : Execution → Execution), (t, x) ∈ s.scripts ∧ x.machine.step x.actor = .ask r next ∧
      s' = (s.answer x r).2.modifyExecution t f) ∨
    ∃ t window due, (t, .flush window due) ∈ s.tasks ∧ s' = s.flushWindow t window := by
  -- A task that is something else is no flush.
  have hnone {t : Nat} {task : Task} (ht : s.task? t = some task)
      (hf : ∀ window due, task ≠ .flush window due) (window : Nat) (due : Option Nat) :
      (t, .flush window due) ∉ s.tasks := fun hm =>
    hf window due (Option.some.inj (ht.symm.trans (ho.task? hm)))
  cases h with
  | goes t f h => exact .inl ((KeepsQueueAndScene.modify t f s).trans (.reschedules h))
  | asks f hx hstep =>
    exact .inr (.inl ⟨_, _, _, _, f, mem_scripts.mpr (mem_of_task? hx), hstep, rfl⟩)
  | finishes result hx => exact .inl (.finish (hnone hx nofun) _ result)
  | plays hx =>
    exact .inl ⟨rfl, flushTasks_filter (hnone hx nofun) rfl, rfl, rfl, rfl, rfl⟩
  | sets due hm => exact .inl ⟨rfl, ho.flushTasks_setTask (mem_of_task? hm), rfl, rfl, rfl, rfl⟩
  | flushes hm => exact .inr (.inr ⟨_, _, _, mem_of_task? hm, rfl⟩)

end Session

end Tabletop
