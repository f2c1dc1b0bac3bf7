import Tabletop.Proofs.Registry.LiveRuns

/-! What a turn of a session comes to. Most of what it does is to say who is to have the next ones. -/

namespace Tabletop

namespace Session

variable {s s' : Session}

/-- A change of nothing but whose turn it is, and of who is to get one. -/
inductive Reschedules (s : Session) : Session → Prop where
  | intro (clock : Nat) (current : Option Nat) (ready yielded : List Nat)
    (waiters : List (Nat × Nat)) (timers : List Timer) (allowance : Nat) (recalled : Bool)
    (taken : List Nat) : Reschedules s { s with
      clock, current, ready, yielded, waiters, timers, allowance, recalled, taken }

theorem reschedules_endTurn (t : Nat) (s : Session) : Reschedules s (s.endTurn t) := .intro ..

theorem reschedules_yield (t : Nat) (s : Session) : Reschedules s (s.yield t) := by
  simp only [yield]
  split <;> exact .intro ..

theorem reschedules_take (window : Nat) (s : Session) : Reschedules s (s.take window) := by
  simp only [take]
  split <;> exact .intro ..

theorem reschedules_leave (t : Nat) (p : Pause) (s : Session) : Reschedules s (s.leave t p) := by
  cases p with
  | flushed window =>
    simp only [leave, take]
    split <;> exact .intro ..
  | _ => exact .intro ..

theorem release_eq (window : Nat) (s : Session) :
    ∃ (ready : List Nat) (waiters : List (Nat × Nat)),
      s.release window = { s with ready, waiters } := by
  obtain ⟨ready, h⟩ := foldl_wake_eq (fun w : Nat × Nat => w.2)
    (s.waiters.filter (·.1 == window)) { s with waiters := s.waiters.filter (·.1 != window) }
  exact ⟨ready, _, h⟩

theorem reschedules_release (window : Nat) (s : Session) : Reschedules s (s.release window) := by
  obtain ⟨ready, waiters, h⟩ := release_eq window s
  rw [h]
  exact .intro ..

theorem reschedules_park (t : Nat) (p : Pause) (s : Session) :
    Reschedules (s.modifyExecution t fun x => { x with parked := true }) (s.park t p) := by
  cases p with
  | turn => exact reschedules_yield t _
  | _ => exact .intro ..

theorem Reschedules.trans {s'' : Session} (h : Reschedules s s') (h' : Reschedules s' s'') :
    Reschedules s s'' := by
  cases h
  cases h'
  exact .intro ..

theorem Reschedules.modify (h : Reschedules s s') (t : Nat) (f : Execution → Execution) :
    Reschedules (s.modifyExecution t f) (s'.modifyExecution t f) := by
  cases h
  exact .intro ..

theorem modifyExecution_id (t : Nat) (s : Session) : s.modifyExecution t id = s := by
  have htasks : (s.modifyExecution t id).tasks = s.tasks := by
    refine List.map_id'' ?_ s.tasks
    rintro ⟨u, x | _ | _⟩
    · simp
    · rfl
    · rfl
  exact congrArg (fun tasks => { s with tasks }) htasks

/-- What a step comes to: an execution goes on, asks something or ends, or another task takes its
turn. -/
inductive Turned (s : Session) : Session → Prop where
  | goes {s' : Session} (t : Nat) (f : Execution → Execution) :
    Reschedules (s.modifyExecution t f) s' → Turned s s'
  | asks {t : Nat} {x : Execution} {r : Request} {next : r.Answer → Machine}
    (f : Execution → Execution) : s.task? t = some (.script x) →
    x.machine.step x.actor = .ask r next → Turned s ((s.answer x r).2.modifyExecution t f)
  | finishes {t : Nat} {x : Execution} (result : Except ExecError Unit) :
    s.task? t = some (.script x) → Turned s (s.finish t x result)
  | plays {t : Nat} {sound : Sound} : s.task? t = some (.sound sound) →
    Turned s ({ s with scene := s.scene.startSound sound.name }.dropTask t)
  | sets {t window : Nat} (due : Nat) : s.task? t = some (.flush window none) →
    Turned s (((s.setTask t (.flush window (some due))).setTimer due t).endTurn t)
  | flushes {t window : Nat} {due : Option Nat} : s.task? t = some (.flush window due) →
    Turned s (s.flushWindow t window)

theorem Reschedules.turned (h : Reschedules s s') : Turned s s' :=
  .goes 0 id ((modifyExecution_id 0 s).symm ▸ h)

theorem turned_stepScript {t : Nat} {x : Execution} (hx : s.task? t = some (.script x)) :
    Turned s (s.stepScript t x) := by
  simp only [stepScript]
  cases hstep : x.machine.step x.actor with
  | silent m => exact .goes t _ (.intro ..)
  | finished result => exact .finishes result hx
  | ask r next => exact .asks _ hx hstep
  | wait p next =>
    simp only
    split
    · exact ((reschedules_yield t s).trans (reschedules_endTurn t _)).turned
    · split
      · exact .goes t _ ((reschedules_leave t p s).modify t _)
      · split
        · exact (reschedules_endTurn t s).turned
        · exact .goes t _ ((reschedules_park t p s).trans (reschedules_endTurn t _))

theorem turned_stepTask (t : Nat) (s : Session) : Turned s (s.stepTask t) := by
  simp only [stepTask]
  split
  · exact (reschedules_endTurn t s).turned
  · next hx => exact turned_stepScript hx
  · next hx => exact .plays hx
  · next hx =>
    split
    · exact .flushes hx
    · exact .sets _ hx
  · next hx =>
    split
    · exact .flushes hx
    · exact (reschedules_endTurn t s).turned

theorem turned_step (h : s.step? = some s') : Turned s s' := by
  simp only [step?] at h
  split at h
  · cases h
    exact turned_stepTask _ s
  · split at h
    · cases h
      exact Reschedules.turned (.intro ..)
    · nomatch h

end Session

end Tabletop
