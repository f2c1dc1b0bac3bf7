import Tabletop.Proofs.Session.Schedule
import Tabletop.Proofs.Session.Scripts
import Tabletop.Proofs.Execution.Stopping

/-! The moves of a session: a step of whoever has the turn, and anything that happens to the session
between turns. Of each execution after a move it is said where it came from. -/

namespace Tabletop

namespace Session

variable {s s' s₁ : Session} {t : Nat} {x x' : Execution} {started : List RunRecord}

/-- A change of other things than tasks and runs, such as the scene, the clock, the windows or what
is ready. -/
structure Undisturbed (s s' : Session) : Prop where
  tasks : s'.tasks = s.tasks
  taskCount : s'.taskCount = s.taskCount
  registry : s'.registry = s.registry
  cancellations : s'.cancellations = s.cancellations
  current : s'.current = s.current

/-- One move. Between turns the registry is called, objects are written to, and whatever else may
happen, so that any task may get the next turn. -/
inductive Move : Session → Session → Prop where
  | turn {s s' : Session} : s.step? = some s' → Move s s'
  | call {s : Session} (c : Registry.Call) : s.current = none → Move s (s.dispatch c.perform).2
  | write {s : Session} (target : WriteTarget) (edit : Edit) : Move s (s.write target edit).2
  | other {s s' : Session} : Undisturbed s s' → Move s s'

/-- Any number of moves. -/
abbrev Moves : Session → Session → Prop := Relation.ReflTransGen Move

/-- A session in which nothing has happened yet. -/
structure Fresh (s : Session) : Prop where
  tasks : s.tasks = []
  registry : s.registry = {}
  cancellations : s.cancellations = {}
  current : s.current = none

def Reached (s : Session) : Prop := ∃ s₀, Fresh s₀ ∧ Moves s₀ s

/-! ### Where executions come from -/

/-- How an execution gets through a move. -/
inductive Continues (s s' : Session) (t : Nat) (x x' : Execution) : Prop where
  /-- It does not have its turn. -/
  | rests : s.current ≠ some t → x'.machine = x.machine → Continues s s' t x x'
  /-- Something else happens meanwhile. -/
  | stays : s'.current = s.current → s'.cancellations = s.cancellations →
    x'.machine = x.machine → Continues s s' t x x'
  | pauses {p : Pause} {next : p.Answer → Machine} : x.machine.step x.actor = .wait p next →
    x'.machine = x.machine → Continues s s' t x x'
  | goes : s'.current = some t → s'.cancellations = s.cancellations →
    x.machine.GoesOn x.actor (s.cancellations.has x.run) x'.machine → Continues s s' t x x'
  /-- It makes a request that may cancel itself. -/
  | calls {r : Request} {next : r.Answer → Machine} (a : r.Answer) :
    x.machine.step x.actor = .ask r next → r.cancels = true → x'.machine = next a →
    Continues s s' t x x'

/-- An execution before a move and after it. -/
structure Descends (s s' : Session) (t : Nat) (x x' : Execution) : Prop where
  mem : (t, x) ∈ s.scripts
  actor : x'.actor = x.actor
  run : x'.run = x.run
  continues : Continues s s' t x x'

/-- What a move does: each execution was there before, or was launched; and one that was cancelled
stays so. -/
structure Kept (s s' : Session) : Prop where
  orderly : s'.Orderly
  taskCount : s.taskCount ≤ s'.taskCount
  history : ∃ started, History s' started
  scripts : ∀ t x', (t, x') ∈ s'.scripts → (∃ x, Descends s s' t x x') ∨
    s.taskCount ≤ t ∧ ∃ body iterations, x'.machine = .start body iterations
  cancelled : ∀ t x, (t, x) ∈ s'.scripts → s.cancellations.has x.run → s'.cancellations.has x.run

theorem AsBefore.kept (h : AsBefore s s') (ho : s.Orderly) (hh : History s started)
    (hcur : ∀ t x, (t, x) ∈ s.scripts → s.current = some t → s'.current = s.current) :
    Kept s s' where
  orderly := h.orderly ho
  taskCount := h.taskCount
  history := ⟨_, .other h.sameRuns hh⟩
  scripts t x hx := by
    rw [h.scripts] at hx
    refine .inl ⟨x, hx, rfl, rfl, ?_⟩
    by_cases ht : s.current = some t
    · exact .stays (hcur t x hx ht) h.cancellations rfl
    · exact .rests ht rfl
  cancelled _ _ _ hc := h.cancellations ▸ hc

/-! ### Orders -/

/-- What orders do to the tasks: some scripts are launched, and some runs cancelled. -/
structure Grown (s s' : Session) : Prop where
  scripts : ∀ t x, (t, x) ∈ s'.scripts → (t, x) ∈ s.scripts ∨
    s.taskCount ≤ t ∧ ∃ body iterations, x.machine = .start body iterations
  cancelled : ∀ run, s.cancellations.has run → s'.cancellations.has run
  current : s'.current = s.current
  taskCount : s.taskCount ≤ s'.taskCount
  orderly : s.Orderly → s'.Orderly

theorem Grown.refl (s : Session) : Grown s s :=
  ⟨fun _ _ h => .inl h, fun _ h => h, rfl, Nat.le_refl _, id⟩

theorem Grown.trans (h : Grown s s₁) (h' : Grown s₁ s') : Grown s s' where
  scripts t x hx := by
    rcases h'.scripts t x hx with hx | ⟨hle, hm⟩
    · exact h.scripts t x hx
    · exact .inr ⟨Nat.le_trans h.taskCount hle, hm⟩
  cancelled run hc := h'.cancelled run (h.cancelled run hc)
  current := h'.current.trans h.current
  taskCount := Nat.le_trans h.taskCount h'.taskCount
  orderly := h'.orderly ∘ h.orderly

/-- Orders cancel some runs, and launch some. -/
theorem obeyAll_eq (orders : List Order) (s : Session) :
    ∃ (launched : List (Nat × Execution)) (ready : List Nat) (cancellations : Cancellations),
      orders.foldl obey s = { s with
        tasks := s.tasks ++ launched.map fun e => (e.1, .script e.2)
        taskCount := s.taskCount + launched.length
        ready, cancellations } ∧
      launched.length = (orders.filterMap Order.launched?).length := by
  induction orders generalizing s with
  | nil => exact ⟨[], s.ready, s.cancellations, by simp, rfl⟩
  | cons o rest ih =>
    cases o with
    | cancel run =>
      obtain ⟨ready, h⟩ := cancel_eq run s
      rw [List.foldl_cons, obey, h]
      exact ih _
    | launch l =>
      obtain ⟨x, hx⟩ : ∃ x, s.launch l = s.spawn (.script x) := ⟨_, rfl⟩
      obtain ⟨launched, ready, cancellations, h, hlength⟩ := ih (s.spawn (.script x))
      refine ⟨(s.taskCount, x) :: launched, ready, cancellations, ?_, ?_⟩
      · rw [List.foldl_cons, obey, hx, h]
        simp [spawn, Nat.add_assoc, Nat.add_comm 1]
      · simp [Order.launched?, hlength]

/-- A call gives the registry that it leads to, and carries out its orders. -/
theorem dispatch_eq (op : Registry → Dispatched) (s : Session) :
    ∃ (launched : List (Nat × Execution)) (ready : List Nat) (cancellations : Cancellations),
      (s.dispatch op).2 = { s with
        registry := (op s.registry).registry
        tasks := s.tasks ++ launched.map fun e => (e.1, .script e.2)
        taskCount := s.taskCount + launched.length
        ready, cancellations } ∧
      launched.length = ((op s.registry).orders.filterMap Order.launched?).length :=
  obeyAll_eq _ { s with registry := (op s.registry).registry }

theorem grown_obey (o : Order) (s : Session) : Grown s (s.obey o) := by
  cases o with
  | cancel run =>
    obtain ⟨ready, h⟩ := cancel_eq run s
    rw [obey, h]
    refine ⟨fun _ _ h => .inl h, fun k hk => ?_, rfl, Nat.le_refl _, fun h => ⟨h.keys, h.below⟩⟩
    rw [Cancellations.has_cancel, hk, Bool.or_true]
  | launch l =>
    refine ⟨fun t x hx => ?_, fun _ h => h, rfl, Nat.le_succ _, fun h => orderly_spawn h _⟩
    rw [mem_scripts] at hx
    simp only [obey, launch, spawn, List.mem_append, List.mem_singleton, Prod.mk.injEq,
      Task.script.injEq] at hx
    rcases hx with hx | ⟨rfl, rfl⟩
    · exact .inl (mem_scripts.mpr hx)
    · exact .inr ⟨Nat.le_refl _, _, _, rfl⟩

theorem grown_dispatch (op : Registry → Dispatched) (s : Session) :
    Grown s (s.dispatch op).2 := by
  have hfold (orders : List Order) (s : Session) : Grown s (orders.foldl obey s) := by
    induction orders generalizing s with
    | nil => exact .refl s
    | cons o rest ih => exact (grown_obey o s).trans (ih _)
  have hreg (registry : Registry) : Grown s { s with registry } :=
    ⟨fun _ _ h => .inl h, fun _ h => h, rfl, Nat.le_refl _, fun h => ⟨h.keys, h.below⟩⟩
  exact (hreg _).trans (hfold _ _)

theorem kept_call (c : Registry.Call) (ho : s.Orderly) (hh : History s started)
    (hcur : s.current = none) : Kept s (s.dispatch c.perform).2 := by
  have hg := grown_dispatch c.perform s
  refine ⟨hg.orderly ho, hg.taskCount, ⟨_, .call c hh⟩, fun t x hx => ?_,
    fun t x _ hc => hg.cancelled _ hc⟩
  exact (hg.scripts t x hx).imp_left fun hx => ⟨x, hx, rfl, rfl, .rests (by simp [hcur]) rfl⟩

/-! ### Turns of an execution -/

section Turn

variable {f : Execution → Execution} (ho : s.Orderly) (hh : History s started)
  (ht : s.current = some t) (hx : (t, x) ∈ s.scripts)
  (hf : ∀ y, (f y).actor = y.actor ∧ (f y).run = y.run)

include hf in
theorem sameRuns_proceed : SameRuns s (s.modifyExecution t f) :=
  sameRuns_modify t (fun y => by simp only [Execution.record, hf]) s

include ht in
theorem current_ne {u : Nat} (hu : u ≠ t) : s.current ≠ some u := by
  rw [ht]
  exact fun h => hu (Option.some.inj h).symm

include ho ht hx hf in
/-- The execution that has its turn changes, the others rest, and some are launched. -/
theorem descends_modify
    (hs : ∀ u y, (u, y) ∈ s₁.scripts → (u, y) ∈ s.scripts ∨
      s.taskCount ≤ u ∧ ∃ body iterations, y.machine = .start body iterations)
    (hs' : s'.scripts = (s₁.modifyExecution t f).scripts) (hc : Continues s s' t x (f x))
    (u : Nat) (y : Execution) (hy : (u, y) ∈ s'.scripts) :
    (∃ y', Descends s s' u y' y) ∨
      s.taskCount ≤ u ∧ ∃ body iterations, y.machine = .start body iterations := by
  rw [hs'] at hy
  rcases mem_scripts_modify.mp hy with ⟨hu, hy⟩ | ⟨y', rfl, hy', rfl⟩
  · exact (hs u y hy).imp_left fun hy => ⟨y, hy, rfl, rfl, .rests (current_ne ht hu) rfl⟩
  · rcases hs u y' hy' with hy' | ⟨hle, -⟩
    · obtain rfl := ho.eq_of_mem hx hy'
      exact .inl ⟨x, hx, (hf x).1, (hf x).2, hc⟩
    · exact absurd (ho.lt hx) (by omega)

include ho hh ht hx hf in
theorem AsBefore.kept_goes (h : AsBefore s s₁) (hcur : s₁.current = s.current)
    (hm : x.machine.GoesOn x.actor (s.cancellations.has x.run) (f x).machine) :
    Kept s (s₁.modifyExecution t f) where
  orderly := orderly_modify (h.orderly ho) t f
  taskCount := h.taskCount
  history := ⟨_, .other (sameRuns_proceed hf) (.other h.sameRuns hh)⟩
  scripts := descends_modify ho ht hx hf (fun _ _ hy => .inl (h.scripts ▸ hy)) rfl
    (.goes (hcur.trans ht) h.cancellations hm)
  cancelled _ _ _ hc := by
    have : (s₁.modifyExecution t f).cancellations = s.cancellations := h.cancellations
    rwa [this]

include ho hh ht hx hf in
theorem kept_calls (c : Registry.Call) {r : Request} {next : r.Answer → Machine} (a : r.Answer)
    (hstep : x.machine.step x.actor = .ask r next) (hr : r.cancels = true)
    (hm : (f x).machine = next a) : Kept s ((s.dispatch c.perform).2.modifyExecution t f) where
  orderly := orderly_modify ((grown_dispatch c.perform s).orderly ho) t f
  taskCount := (grown_dispatch c.perform s).taskCount
  history := ⟨_, .other (sameRuns_proceed hf) (.call c hh)⟩
  scripts := descends_modify ho ht hx hf (grown_dispatch c.perform s).scripts rfl
    (.calls a hstep hr hm)
  cancelled _ _ _ := (grown_dispatch c.perform s).cancelled _

include ho hh ht hx hf in
theorem AsBefore.kept_pauses (h : AsBefore (s.modifyExecution t f) s') {p : Pause}
    {next : p.Answer → Machine} (hstep : x.machine.step x.actor = .wait p next)
    (hm : (f x).machine = x.machine) : Kept s s' where
  orderly := h.orderly (orderly_modify ho t f)
  taskCount := h.taskCount
  history := ⟨_, .other h.sameRuns (.other (sameRuns_proceed hf) hh)⟩
  scripts := descends_modify ho ht hx hf (fun _ _ hy => .inl hy) h.scripts (.pauses hstep hm)
  cancelled _ _ _ hc := by
    have : s'.cancellations = s.cancellations := h.cancellations
    rwa [this]

include ho hh ht hx in
/-- No other execution is of the run that is over. -/
theorem kept_finish (result : Except ExecError Unit) : Kept s (s.finish t x result) := by
  obtain ⟨htasks, -, hcan, hcount⟩ := finish_fields s t x result
  have hscripts := scripts_filter htasks
  refine ⟨ho.filter _ htasks hcount, Nat.le_of_eq hcount.symm,
    ⟨_, .finish result (mem_scripts.mp hx) hh⟩, fun u y hy => ?_, fun u y hy hc => ?_⟩
  · obtain ⟨hy, hu⟩ := List.mem_filter.mp (hscripts ▸ hy)
    exact .inl ⟨y, hy, rfl, rfl, .rests (current_ne ht (bne_iff_ne.mp hu)) rfl⟩
  · obtain ⟨hy, hu⟩ := List.mem_filter.mp (hscripts ▸ hy)
    rw [hcan, Cancellations.has_forget, hc, Bool.true_and, bne_iff_ne]
    intro hrun
    have hmem {u : Nat} {y : Execution} (hy : (u, y) ∈ s.scripts) :
        (u, y.record) ∈ s.unfinished := mem_unfinished.mpr ⟨y, mem_scripts.mp hy, rfl⟩
    have := List.inj_on_of_nodup_map hh.accounted.numbered.runs (hmem hy) (hmem hx) hrun
    exact bne_iff_ne.mp hu (Prod.ext_iff.mp this).1

end Turn

/-! ### Steps -/

theorem write_current (target : WriteTarget) (edit : Edit) (s : Session) :
    (s.write target edit).2.current = s.current := by
  simp only [write]
  split <;> rfl

theorem leave_current (t : Nat) (p : Pause) (s : Session) : (s.leave t p).current = s.current := by
  cases p with
  | flushed window =>
    simp only [leave, take]
    split <;> rfl
  | _ => rfl

/-- What answering a request does to a session: it calls the registry, queues a write, leaves a sound
to play, or changes no tasks. -/
inductive Answered (r : Request) (s s' : Session) : Prop where
  | calls (c : Registry.Call) : r.cancels = true → c.installs = false →
    s' = (s.dispatch c.perform).2 → Answered r s s'
  | writes (target : WriteTarget) (edit : Edit) : r.isEffect = true →
    s' = (s.write target edit).2 → Answered r s s'
  | detaches (sound : Sound) : r.isEffect = true → s' = s.spawn (.sound sound) → Answered r s s'
  | keeps (memory : Variables) (scene : Scene) (queue : WriteQueue) (entropy : Entropy) :
    (r.isEffect = false → scene = s.scene) → queue = s.queue ∨ queue = s.queue.invalidate →
    s' = { s with memory, scene, queue, entropy } → Answered r s s'

theorem answered (x : Execution) (s : Session) (r : Request) : Answered r s (s.answer x r).2 := by
  have hkeeps (memory : Variables) (entropy : Entropy) {s' : Session}
      (h : s' = { s with memory, entropy }) : Answered r s s' :=
    .keeps memory s.scene s.queue entropy (fun _ => rfl) (.inl rfl) h
  cases r with
  | broadcast name targets => exact .calls (.broadcast name targets) rfl rfl rfl
  | stopOthers object hat => exact .calls (.stop object (some hat)) rfl rfl rfl
  | stopAll => exact .calls .stopAll rfl rfl rfl
  | write id edit => exact .writes _ _ rfl rfl
  | detachSound sound => exact .detaches sound rfl rfl
  | invalidate => exact .keeps _ _ _ _ (fun _ => rfl) (.inr rfl) rfl
  | startSound | stopSounds | add | delete => exact .keeps _ _ _ _ nofun (.inl rfl) rfl
  | touching id target => cases target <;> exact hkeeps _ _ rfl
  | draw low high | drawWithin low high | tag =>
    rw [answer]
    exact hkeeps _ _ rfl
  | _ => exact hkeeps _ _ rfl

theorem onceCancelled_answer (x : Execution) (s : Session) (r : Request)
    (hc : s.cancellations.has x.run = true) : r.OnceCancelled (s.answer x r).1 := by
  cases r with
  | cancelled => exact hc
  | _ => trivial

/-- An answer leaves the scripts alone, unless it is that of a request that cancels. -/
theorem answer_cases (x : Execution) (s : Session) (r : Request) :
    (AsBefore s (s.answer x r).2 ∧ (s.answer x r).2.current = s.current) ∨
      r.cancels = true ∧ ∃ c : Registry.Call, (s.answer x r).2 = (s.dispatch c.perform).2 := by
  cases answered x s r with
  | calls c hr _ h => exact .inr ⟨hr, c, h⟩
  | writes target edit _ h =>
    exact .inl (h ▸ ⟨asBefore_write target edit s, write_current target edit s⟩)
  | detaches sound _ h => exact .inl (h ▸ ⟨asBefore_spawn (by simp) s, rfl⟩)
  | keeps memory scene queue entropy _ _ h =>
    exact .inl (h ▸ ⟨asBefore_of_eq rfl rfl rfl rfl, rfl⟩)

theorem kept_stepScript (ho : s.Orderly) (hh : History s started) (ht : s.current = some t)
    (hx : (t, x) ∈ s.scripts) : Kept s (s.stepScript t x) := by
  have hmachine (m : Machine) (y : Execution) :
      { y with machine := m }.actor = y.actor ∧ { y with machine := m }.run = y.run := ⟨rfl, rfl⟩
  have hpauses {s' : Session} (h : AsBefore s s') {p : Pause} {next : p.Answer → Machine}
      (hstep : x.machine.step x.actor = .wait p next) : Kept s s' :=
    AsBefore.kept_pauses (f := id) ho hh ht hx (fun _ => ⟨rfl, rfl⟩)
      ((modifyExecution_id t s).symm ▸ h) hstep rfl
  simp only [stepScript]
  cases hstep : x.machine.step x.actor with
  | silent m => exact (AsBefore.refl s).kept_goes ho hh ht hx (hmachine m) rfl (.silent hstep)
  | finished result => exact kept_finish ho hh ht hx result
  | ask r next =>
    rcases answer_cases x s r with ⟨hb, hcur⟩ | ⟨hr, c, hc⟩
    · exact hb.kept_goes ho hh ht hx (hmachine _) hcur (.ask hstep (onceCancelled_answer x s r))
    · simp only [hc]
      exact kept_calls ho hh ht hx (hmachine _) c _ hstep hr rfl
  | wait p next =>
    simp only
    split
    · exact hpauses ((reschedules_yield t s).trans (reschedules_endTurn t _)).asBefore hstep
    · split
      · exact (reschedules_leave t p s).asBefore.kept_goes ho hh ht hx (fun _ => ⟨rfl, rfl⟩)
          (leave_current t p s) (.wait hstep)
      · split
        · exact hpauses (reschedules_endTurn t s).asBefore hstep
        · have hpark := (reschedules_park t p s).trans (reschedules_endTurn t _)
          exact hpark.asBefore.kept_pauses (f := fun x => { x with parked := true }) ho hh ht hx
            (fun _ => ⟨rfl, rfl⟩) hstep rfl

theorem asBefore_flushWindow (ht : ∀ x, (t, x) ∉ s.scripts) (window : Nat) :
    AsBefore s (s.flushWindow t window) := by
  have hs (scene : Scene) (queue : WriteQueue) : AsBefore s { s with scene, queue } :=
    asBefore_of_eq rfl rfl rfl rfl
  have hdrop {s' : Session} (h : AsBefore s s') : AsBefore s ((s'.release window).dropTask t) := by
    have hr := h.trans (reschedules_release window s').asBefore
    exact hr.trans (asBefore_dropTask fun x hx => ht x (hr.scripts ▸ hx))
  simp only [flushWindow]
  split <;> exact hdrop (hs _ _)

/-- A turn of what is no script leaves all scripts alone. -/
theorem asBefore_stepTask (h : ∀ x, s.task? t ≠ some (.script x)) (ht : ∀ x, (t, x) ∉ s.scripts) :
    AsBefore s (s.stepTask t) := by
  simp only [stepTask]
  split
  · exact (reschedules_endTurn t s).asBefore
  · next x hx => exact absurd hx (h x)
  · have hs (scene : Scene) : AsBefore s { s with scene } := asBefore_of_eq rfl rfl rfl rfl
    exact (hs _).trans (asBefore_dropTask ht)
  · split
    · exact asBefore_flushWindow ht _
    · exact (asBefore_setFlush ht _ _).trans (asBefore_of_eq rfl rfl rfl rfl)
  · split
    · exact asBefore_flushWindow ht _
    · exact (reschedules_endTurn t s).asBefore

theorem kept_step (ho : s.Orderly) (hh : History s started) (h : s.step? = some s') :
    Kept s s' := by
  simp only [step?] at h
  split at h
  · next t ht =>
    obtain rfl := Option.some.inj h
    by_cases hx : ∃ x, s.task? t = some (.script x)
    · obtain ⟨x, hx⟩ := hx
      rw [stepTask, hx]
      exact kept_stepScript ho hh ht (mem_scripts.mpr (mem_of_task? hx))
    · have hnone (x : Execution) : (t, x) ∉ s.scripts := fun hm =>
        hx ⟨x, ho.task? (mem_scripts.mp hm)⟩
      refine (asBefore_stepTask (fun x h => hx ⟨x, h⟩) hnone).kept ho hh fun u x hm hu => ?_
      rw [ht] at hu
      cases hu
      exact absurd hm (hnone x)
  · next hcur =>
    split at h
    · obtain rfl := Option.some.inj h
      refine AsBefore.kept (asBefore_of_eq rfl rfl rfl rfl) ho hh fun u x _ hu => ?_
      rw [hcur] at hu
      cases hu
    · cases h

theorem Move.kept (h : Move s s') (ho : s.Orderly) (hh : History s started) : Kept s s' := by
  cases h with
  | turn h => exact kept_step ho hh h
  | call c hcur => exact kept_call c ho hh hcur
  | write target edit =>
    exact (asBefore_write target edit s).kept ho hh fun _ _ _ _ => write_current target edit s
  | other h =>
    exact (asBefore_of_eq h.tasks h.taskCount h.registry h.cancellations).kept ho hh
      fun _ _ _ _ => h.current

/-! ### Runs -/

theorem Fresh.orderly (h : Fresh s) : s.Orderly := by
  constructor <;> simp [h.tasks]

theorem Reached.orderly (h : Reached s) : s.Orderly ∧ ∃ started, History s started := by
  obtain ⟨s₀, h₀, hs⟩ := h
  induction hs with
  | refl => exact ⟨h₀.orderly, [], .fresh h₀.registry h₀.tasks h₀.cancellations⟩
  | tail _ hm ih =>
    obtain ⟨started, hh⟩ := ih.2
    exact ⟨(hm.kept ih.1 hh).orderly, (hm.kept ih.1 hh).history⟩

theorem Reached.kept (h : Reached s) (hm : Move s s') : Kept s s' := by
  obtain ⟨ho, started, hh⟩ := h.orderly
  exact hm.kept ho hh

theorem Reached.moves (h : Reached s) (hm : Moves s s') : Reached s' := by
  obtain ⟨s₀, h₀, hs⟩ := h
  exact ⟨s₀, h₀, hs.trans hm⟩

/-! ### The passage of time -/

theorem Passes.move (h : Passes s s') : Move s s' := by
  cases h with
  | turn h => exact .turn h
  | idle => exact .other ⟨rfl, rfl, rfl, rfl, rfl⟩

theorem Passage.moves (h : Passage s s') : Moves s s' :=
  Relation.ReflTransGen.mono (fun _ _ => Passes.move) _ _ h

end Session

end Tabletop
