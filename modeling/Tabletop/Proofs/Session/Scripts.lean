import Tabletop.Proofs.Session.Turns

/-! The scripts among the tasks of a session, and the operations that leave all of them as they
were. -/

namespace Tabletop

namespace Session

variable {s s' s'' : Session} {t : Nat} {x : Execution}

/-! ### Tasks -/

/-- Tasks have numbers of their own. -/
structure Orderly (s : Session) : Prop where
  keys : (s.tasks.map (·.1)).Nodup
  below : ∀ e ∈ s.tasks, e.1 < s.taskCount

theorem mem_of_task? {task : Task} (h : s.task? t = some task) : (t, task) ∈ s.tasks :=
  Keyed.mem_of_lookup h

theorem Orderly.task? (h : s.Orderly) {task : Task} (ht : (t, task) ∈ s.tasks) :
    s.task? t = some task :=
  Keyed.lookup_of_mem h.keys ht

theorem Orderly.eq_of_mem (h : s.Orderly) {x' : Execution} (hx : (t, x) ∈ s.scripts)
    (hx' : (t, x') ∈ s.scripts) : x = x' := by
  have := (h.task? (mem_scripts.mp hx)).symm.trans (h.task? (mem_scripts.mp hx'))
  simpa using this

theorem Orderly.lt (h : s.Orderly) (hx : (t, x) ∈ s.scripts) : t < s.taskCount :=
  h.below _ (mem_scripts.mp hx)

/-! ### What leaves scripts alone -/

/-- The scripts are as before, and so is all that decides over them. -/
structure AsBefore (s s' : Session) : Prop where
  scripts : s'.scripts = s.scripts
  registry : s'.registry = s.registry
  cancellations : s'.cancellations = s.cancellations
  taskCount : s.taskCount ≤ s'.taskCount
  orderly : s.Orderly → s'.Orderly

namespace AsBefore

theorem trans (h : AsBefore s s') (h' : AsBefore s' s'') : AsBefore s s'' where
  scripts := h'.scripts.trans h.scripts
  registry := h'.registry.trans h.registry
  cancellations := h'.cancellations.trans h.cancellations
  taskCount := Nat.le_trans h.taskCount h'.taskCount
  orderly := h'.orderly ∘ h.orderly

theorem refl (s : Session) : AsBefore s s := ⟨rfl, rfl, rfl, Nat.le_refl _, id⟩

theorem sameRuns (h : AsBefore s s') : SameRuns s s' where
  registry := h.registry
  cancellations := h.cancellations
  unfinished := by rw [unfinished_eq, unfinished_eq, h.scripts]
  taskCount := h.taskCount

end AsBefore

/-- A change of other things than tasks. -/
theorem asBefore_of_eq (ht : s'.tasks = s.tasks) (hn : s'.taskCount = s.taskCount)
    (hr : s'.registry = s.registry) (hc : s'.cancellations = s.cancellations) : AsBefore s s' where
  scripts := by rw [Session.scripts, ht, Session.scripts]
  registry := hr
  cancellations := hc
  taskCount := Nat.le_of_eq hn.symm
  orderly h := ⟨ht ▸ h.keys, ht ▸ hn ▸ h.below⟩

theorem orderly_spawn (h : s.Orderly) (task : Task) : (s.spawn task).Orderly where
  keys := by
    simp only [spawn, List.map_append, List.map_cons, List.map_nil]
    refine h.keys.append (by simp) ?_
    simp only [List.disjoint_singleton, List.mem_map, not_exists, not_and]
    exact fun e he => Nat.ne_of_lt (h.below e he)
  below e he := by
    simp only [spawn, List.mem_append, List.mem_singleton] at he ⊢
    rcases he with he | rfl
    · exact Nat.lt_succ_of_lt (h.below e he)
    · exact Nat.lt_succ_self _

theorem asBefore_spawn {task : Task} (h : ∀ x, task ≠ .script x) (s : Session) :
    AsBefore s (s.spawn task) where
  scripts := by
    cases task with
    | script x => exact absurd rfl (h x)
    | _ => simp [Session.scripts, spawn, List.filterMap_append]
  registry := rfl
  cancellations := rfl
  taskCount := Nat.le_succ _
  orderly h := orderly_spawn h task

theorem asBefore_write (target : WriteTarget) (edit : Edit) (s : Session) :
    AsBefore s (s.write target edit).2 := by
  have hq (queue : WriteQueue) : AsBefore s { s with queue } := asBefore_of_eq rfl rfl rfl rfl
  simp only [write]
  split
  · exact (hq _).trans (asBefore_spawn (by simp) _)
  · exact hq _

theorem Reschedules.asBefore (h : Reschedules s s') : AsBefore s s' := by
  cases h
  exact asBefore_of_eq rfl rfl rfl rfl

theorem Orderly.filter (h : s.Orderly) (p : Nat × Task → Bool) (ht : s'.tasks = s.tasks.filter p)
    (hn : s'.taskCount = s.taskCount) : s'.Orderly where
  keys := ht ▸ h.keys.sublist (List.filter_sublist.map _)
  below e he := hn ▸ h.below e (List.mem_filter.mp (ht ▸ he)).1

/-- The end of a task that is no script. -/
theorem asBefore_dropTask (ht : ∀ x, (t, x) ∉ s.scripts) : AsBefore s (s.dropTask t) where
  scripts := by
    rw [scripts_filter rfl, List.filter_eq_self]
    rintro ⟨u, x⟩ hx
    rw [bne_iff_ne]
    rintro rfl
    exact ht x hx
  registry := rfl
  cancellations := rfl
  taskCount := Nat.le_refl _
  orderly h := h.filter _ rfl rfl

/-- A flush that is put in the place of another task, which is no script. -/
theorem asBefore_setFlush (ht : ∀ x, (t, x) ∉ s.scripts) (window : Nat) (due : Option Nat) :
    AsBefore s (s.setTask t (.flush window due)) where
  scripts := by
    simp only [Session.scripts, setTask, List.filterMap_map]
    refine List.filterMap_congr fun e he => ?_
    rw [Function.comp_apply]
    by_cases hu : e.1 = t
    · rw [if_pos hu]
      obtain ⟨u, x | _ | _⟩ := e
      · exact absurd (mem_scripts.mpr (hu ▸ he)) (ht x)
      · rfl
      · rfl
    · rw [if_neg hu]
  registry := rfl
  cancellations := rfl
  taskCount := Nat.le_refl _
  orderly h := by
    have hkeys : (s.setTask t (.flush window due)).tasks.map (·.1) = s.tasks.map (·.1) := by
      simp only [setTask, List.map_map]
      refine List.map_congr_left fun e _ => ?_
      simp only [Function.comp_apply]
      split
      · next hu => exact hu.symm
      · rfl
    refine ⟨hkeys ▸ h.keys, fun e he => ?_⟩
    obtain ⟨e', he', heq⟩ := List.mem_map.mp (hkeys ▸ List.mem_map_of_mem he)
    exact heq ▸ h.below e' he'

/-! ### What changes one script -/

/-- A change of a script that leaves it in its place. -/
theorem scripts_modify (t : Nat) (f : Execution → Execution) (s : Session) :
    (s.modifyExecution t f).scripts =
      s.scripts.map fun e => if e.1 = t then (e.1, f e.2) else e := by
  simp only [scripts, modifyExecution, List.filterMap_map, List.map_filterMap]
  refine List.filterMap_congr fun e _ => ?_
  rcases e with ⟨u, x | _ | _⟩ <;> simp only [Function.comp_apply, Option.map_none]
  by_cases hu : u = t <;> simp [hu]

theorem mem_scripts_modify {f : Execution → Execution} {u : Nat} :
    (u, x) ∈ (s.modifyExecution t f).scripts ↔
      (u ≠ t ∧ (u, x) ∈ s.scripts) ∨ ∃ x', u = t ∧ (t, x') ∈ s.scripts ∧ x = f x' := by
  rw [scripts_modify, List.mem_map]
  constructor
  · rintro ⟨⟨u', x'⟩, hx', heq⟩
    split at heq
    · next hu =>
      simp only at hu
      subst hu
      cases heq
      exact .inr ⟨x', rfl, hx', rfl⟩
    · next hu => cases heq; exact .inl ⟨hu, hx'⟩
  · rintro (⟨hu, hx⟩ | ⟨x', rfl, hx', rfl⟩)
    · exact ⟨_, hx, if_neg hu⟩
    · exact ⟨_, hx', if_pos rfl⟩

theorem orderly_modify (h : s.Orderly) (t : Nat) (f : Execution → Execution) :
    (s.modifyExecution t f).Orderly := by
  have hkeys : (s.modifyExecution t f).tasks.map (·.1) = s.tasks.map (·.1) := by
    simp only [modifyExecution, List.map_map]
    refine List.map_congr_left fun e _ => ?_
    rcases e with ⟨u, x | _ | _⟩ <;> simp only [Function.comp_apply]
    split <;> rfl
  refine ⟨hkeys ▸ h.keys, fun e he => ?_⟩
  obtain ⟨e', he', heq⟩ := List.mem_map.mp (hkeys ▸ List.mem_map_of_mem he)
  exact heq ▸ h.below e' he'

theorem sameRuns_modify (t : Nat) {f : Execution → Execution} (hf : ∀ x, (f x).record = x.record)
    (s : Session) : SameRuns s (s.modifyExecution t f) where
  registry := rfl
  cancellations := rfl
  unfinished := by
    rw [unfinished_eq, unfinished_eq, scripts_modify, List.map_map]
    refine List.map_congr_left fun e _ => ?_
    simp only [Function.comp_apply]
    split
    · simp [hf]
    · rfl
  taskCount := Nat.le_refl _

end Session

end Tabletop
