import Tabletop.Proofs.Session.Deeds
import Tabletop.Proofs.WriteQueue

/-! Over any number of deeds the queue of a session goes through what some traffic takes it through,
with a host that answers at once, and the flushes that are set up are tasks. -/

namespace Tabletop

open WriteQueue (Traffic)

namespace Session

variable {s s' : Session} {t : Nat}

theorem flushWindow_eq (hne : s.queue.queue ≠ []) (t window : Nat) :
    ∃ (ready : List Nat) (waiters : List (Nat × Nat)),
      s.flushWindow t window = { s with
        scene := (s.scene.write s.queue.batch).2
        queue := { s.queue with
          queue := []
          cache := []
          pending := none
          inFlight := none
          flushes := s.queue.flushes + 1
          results := (window, (s.scene.write s.queue.batch).1) :: s.queue.results }
        tasks := s.tasks.filter (·.1 != t)
        current := none
        recalled := false
        ready, waiters } := by
  have hbegin := s.queue.begin_eq hne window
  obtain ⟨ready, waiters, h⟩ := release_eq window { s with
    scene := (s.scene.write s.queue.batch).2
    queue := (s.queue.begin_ window).2.complete window (s.scene.write s.queue.batch).1 }
  rw [hbegin] at h
  exact ⟨ready, waiters, by simp only [flushWindow, hbegin]; rw [h]; rfl⟩

/-- The queue of a session is where some traffic has taken it. Each flush that is set up is a task,
and the host answers at once. -/
structure Mirrors (m : Traffic) (s : Session) : Prop where
  run : m.Run
  queue : m.queue = s.queue
  scheduled : m.scheduled = s.flushTasks
  unanswered : m.unanswered = []
  inFlight : s.queue.inFlight = none

namespace Mirrors

variable {m : Traffic}

theorem same (h : Mirrors m s) (hq : s'.queue = s.queue) (hf : s'.flushTasks = s.flushTasks) :
    Mirrors m s' where
  run := h.run
  queue := h.queue.trans hq.symm
  scheduled := h.scheduled.trans hf.symm
  unanswered := h.unanswered
  inFlight := hq ▸ h.inFlight

theorem invalidate (h : Mirrors m s) (hq : s'.queue = s.queue.invalidate)
    (hf : s'.flushTasks = s.flushTasks) : Mirrors m.invalidate s' where
  run := h.run.invalidate
  queue := (congrArg WriteQueue.invalidate h.queue).trans hq.symm
  scheduled := h.scheduled.trans hf.symm
  unanswered := h.unanswered
  inFlight := hq ▸ h.inFlight

theorem write (h : Mirrors m s) (target : WriteTarget) (edit : Edit) :
    Mirrors (m.write target edit) (s.write target edit).2 := by
  have hspawn : (s.write target edit).2.queue = (s.queue.write target edit).2 ∧
      (s.write target edit).2.flushTasks = s.flushTasks ++
        if s.queue.pending.isNone then [s.queue.next] else [] := by
    simp only [Session.write, WriteQueue.write_window]
    split
    · exact ⟨rfl, flushTasks_spawn _ _⟩
    · exact ⟨rfl, (List.append_nil _).symm⟩
  refine ⟨h.run.write target edit, ?_, ?_, h.unanswered, ?_⟩
  · rw [hspawn.1, ← h.queue]
    rfl
  · rw [hspawn.2, ← h.scheduled, ← h.queue]
    simp only [Traffic.write, WriteQueue.write_window]
    split <;> simp
  · rw [hspawn.1, WriteQueue.write_inFlight]
    exact h.inFlight

/-- The window of a flush task is the one that is open, and something is queued for it. -/
theorem pending (h : Mirrors m s) {window : Nat} {due : Option Nat}
    (hm : (t, .flush window due) ∈ s.tasks) :
    s.queue.pending = some window ∧ s.queue.queue ≠ [] := by
  have hw : window ∈ s.flushTasks := List.mem_filterMap.mpr ⟨_, hm, rfl⟩
  have hs := h.run.sound
  have hp : s.queue.pending = some window := by
    rw [← h.queue, ← Option.mem_toList, ← hs.scheduled, h.scheduled]
    exact hw
  obtain ⟨-, hne, -⟩ := hs.opened window (h.queue ▸ hp)
  exact ⟨hp, h.queue ▸ hne⟩

theorem flushWindow (h : Mirrors m s) (ho : s.Orderly) {window : Nat} {due : Option Nat}
    (hm : (t, .flush window due) ∈ s.tasks) :
    ∃ m', Mirrors m' (s.flushWindow t window) := by
  obtain ⟨hp, hne⟩ := h.pending hm
  have hflushes : s.flushTasks = [window] := by
    rw [← h.scheduled, h.run.sound.scheduled, h.queue, hp]
    rfl
  have hscheduled : window ∈ m.scheduled := by
    rw [h.scheduled, hflushes]
    exact List.mem_singleton_self window
  obtain ⟨ready, waiters, heq⟩ := flushWindow_eq hne t window
  have hnone : (s.flushWindow t window).flushTasks = [] := by
    have htasks : (s.flushWindow t window).tasks = s.tasks.filter (·.1 != t) := by rw [heq]
    have hperm := ho.flushTasks_filter hm htasks
    rw [hflushes] at hperm
    simpa using List.perm_singleton.mp hperm.symm
  set result := (s.scene.write s.queue.batch).1
  refine ⟨(m.fire window).answer window result, ?_⟩
  have hfire : m.fire window = { m with
      queue := { s.queue with queue := [], cache := [], pending := none, inFlight := some window }
      scheduled := []
      started := m.started ++ [window]
      calls := m.calls ++ [(window, s.queue.batch)]
      unanswered := [window] } := by
    rw [h.run.sound.fire_eq hscheduled, h.queue, h.unanswered]
    rfl
  have hrun := h.run.fire hscheduled
  rw [hfire] at hrun ⊢
  refine ⟨hrun.answer result (by simp), ?_, hnone.symm, by simp [Traffic.answer], ?_⟩
  · rw [heq]
    rfl
  · rw [heq]

theorem call (h : Mirrors m s) (op : Registry → Dispatched) : Mirrors m (s.dispatch op).2 := by
  obtain ⟨launched, ready, cancellations, heq, -⟩ := dispatch_eq op s
  refine h.same (by rw [heq]) ?_
  rw [heq, Session.flushTasks, List.filterMap_append, List.filterMap_map]
  simp [Session.flushTasks]

theorem answer (h : Mirrors m s) (x : Execution) (r : Request) :
    ∃ m', Mirrors m' (s.answer x r).2 := by
  cases answered x s r with
  | calls c _ _ heq => exact ⟨m, heq ▸ h.call c.perform⟩
  | writes target edit _ heq => exact ⟨_, heq ▸ h.write target edit⟩
  | detaches sound _ heq =>
    rw [heq]
    exact ⟨m, h.same rfl ((flushTasks_spawn _ s).trans (List.append_nil _))⟩
  | keeps memory scene queue entropy _ hq heq =>
    rw [heq]
    rcases hq with hq | hq
    · exact ⟨m, h.same hq rfl⟩
    · exact ⟨_, h.invalidate hq rfl⟩

theorem turned (h : Mirrors m s) (ho : s.Orderly) (ht : Turned s s') : ∃ m', Mirrors m' s' := by
  obtain ha | ⟨t, x, r, _, f, -, -, rfl⟩ | ⟨t, window, due, hm, rfl⟩ := ht.keeps_or ho
  · exact ⟨m, h.same ha.queue ha.flushTasks⟩
  · obtain ⟨m', h'⟩ := h.answer x r
    exact ⟨m', h'.same rfl (flushTasks_modify ..)⟩
  · exact h.flushWindow ho hm

theorem deed (h : Mirrors m s) (ho : s.Orderly) (hd : Deed s s') : ∃ m', Mirrors m' s' := by
  cases hd with
  | turn hs => exact h.turned ho (turned_step hs)
  | call c _ => exact ⟨m, h.call c.perform⟩
  | write target edit => exact ⟨_, h.write target edit⟩
  | other hu hq =>
    have hflushes : s'.flushTasks = s.flushTasks := by rw [flushTasks, hu.tasks, flushTasks]
    rcases hq with hq | hq
    · exact ⟨m, h.same hq hflushes⟩
    · exact ⟨_, h.invalidate hq hflushes⟩

end Mirrors

/-- Whatever happens to a session, some traffic has done the same to its queue. -/
theorem Lived.mirrored (h : Lived s) : ∃ m, Mirrors m s := by
  obtain ⟨s₀, h₀, hq, hs⟩ := h
  induction hs with
  | refl =>
    refine ⟨{}, .start, hq.symm, ?_, rfl, by rw [hq]⟩
    rw [flushTasks, h₀.tasks]
    rfl
  | tail hs hd ih =>
    obtain ⟨m, hm⟩ := ih
    exact hm.deed (Reached.orderly ⟨s₀, h₀, Deeds.moves hs⟩).1 hd

end Session

end Tabletop
