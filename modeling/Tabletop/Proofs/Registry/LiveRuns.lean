import Tabletop.Proofs.Registry.Honest
import Tabletop.Session.Step
import Tabletop.Session.Change

/-! The executions of a session against the records of its registry. Over any sequence of calls of
the registry and of ends of executions, in any order, the executions that are neither over nor
cancelled are exactly the live runs on record; so there is one at most for each object and hat, the
last one that was started. -/

namespace Tabletop

/-- A call that the registry takes. -/
inductive Registry.Call where
  | reinstall (object : String) (version : Nat) (except : Option String) (freshClone : Bool)
    (compiled : Except CompileError Compiled)
  | stop (object : String) (except : Option String)
  | stopAll
  | broadcast (name : String) (targets : Option (List String))
  | propertyChanged (object : String) (p : TrackedProperty) (v : Value)
  | selectionChanged (object : String) (selected : Bool)
  | collision (a b : String) (phase : CollisionPhase)
  | signal (name : String) (targets : Option (List String)) (payload : List (String × Value))

namespace Registry

def Call.perform : Call → Registry → Dispatched
  | reinstall object version except freshClone compiled =>
    Registry.reinstall object version except freshClone compiled
  | stop object except => Registry.stop object except
  | stopAll => Registry.stopAll
  | broadcast name targets => Registry.broadcast name targets
  | propertyChanged object p v => Registry.propertyChanged object p v
  | selectionChanged object selected => Registry.selectionChanged object selected
  | collision a b phase => Registry.collision a b phase
  | signal name targets payload => Registry.signal name targets payload

/-- A call that puts something in. -/
def Call.installs : Call → Bool
  | reinstall .. => true
  | _ => false

theorem Call.honest {r : Registry} (hr : r.Sound) (c : Call) : Honest r (c.perform r) := by
  cases c with
  | reinstall object version except freshClone compiled =>
    exact reinstall_honest hr object version except freshClone compiled
  | stop object except => exact stop_honest hr object except
  | stopAll => exact stopAll_honest hr
  | broadcast name targets => exact dispatch_honest hr _ _
  | propertyChanged object p v => exact dispatch_honest hr _ _
  | selectionChanged object selected => exact dispatch_honest hr _ _
  | collision a b phase => exact collision_honest hr a b phase
  | signal name targets payload => exact dispatch_honest hr _ _

theorem sound_empty : Sound {} where
  keys := List.nodup_nil
  first := by simp
  distinct := by simp [Order.Distinct, records]
  counted := by simp [records]

end Registry

namespace Cancellations

theorem has_cancel (c : Cancellations) (run k : Nat) :
    (c.cancel run).has k = (k == run || c.has k) := by
  simp only [cancel]
  split
  · next h => cases hk : k == run <;> simp_all
  · rw [Bool.eq_iff_iff]
    simp [has]

theorem has_forget (c : Cancellations) (run k : Nat) :
    (c.forget run).has k = (c.has k && k != run) := by
  rw [Bool.eq_iff_iff]
  simp [forget, has]

end Cancellations

def Execution.record (x : Execution) : RunRecord := ⟨x.actor.object, x.actor.hat, x.run⟩

namespace Session

variable {s s' : Session} {started : List RunRecord}

/-- The scripts that run, each with the task that carries it out. -/
def scripts (s : Session) : List (Nat × Execution) :=
  s.tasks.filterMap fun e => match e.2 with
    | .script x => some (e.1, x)
    | _ => none

/-- The executions that are not over, each with the task that carries it out. -/
def unfinished (s : Session) : List (Nat × RunRecord) :=
  s.tasks.filterMap fun e => match e.2 with
    | .script x => some (e.1, x.record)
    | _ => none

/-- The executions that are neither over nor cancelled. -/
def active (s : Session) : List RunRecord :=
  (s.unfinished.map (·.2)).filter fun a => !s.cancellations.has a.run

/-- A change of other things than the registry and its executions. -/
structure SameRuns (s s' : Session) : Prop where
  registry : s'.registry = s.registry
  cancellations : s'.cancellations = s.cancellations
  unfinished : s'.unfinished = s.unfinished
  taskCount : s.taskCount ≤ s'.taskCount

/-- The sessions that calls of the registry and ends of executions lead to, with all runs that were
started on the way, in order. -/
inductive History : Session → List RunRecord → Prop where
  | fresh {s : Session} :
    s.registry = {} → s.tasks = [] → s.cancellations = {} → History s []
  | call {s : Session} {started : List RunRecord} (c : Registry.Call) : History s started →
    History (s.dispatch c.perform).2
      (started ++ (c.perform s.registry).orders.filterMap Order.launched?)
  | finish {s : Session} {started : List RunRecord} {t : Nat} {x : Execution}
    (result : Except ExecError Unit) : (t, .script x) ∈ s.tasks → History s started →
    History (s.finish t x result) started
  | other {s s' : Session} {started : List RunRecord} :
    SameRuns s s' → History s started → History s' started

/-! ### Scripts -/

theorem mem_scripts {t : Nat} {x : Execution} : (t, x) ∈ s.scripts ↔ (t, .script x) ∈ s.tasks := by
  simp only [scripts, List.mem_filterMap, Prod.exists]
  constructor
  · rintro ⟨u, task, hm, h⟩
    cases task <;> simp at h
    obtain ⟨rfl, rfl⟩ := h
    exact hm
  · exact fun hm => ⟨t, _, hm, rfl⟩

theorem scripts_filter {t : Nat} (ht : s'.tasks = s.tasks.filter (·.1 != t)) :
    s'.scripts = s.scripts.filter (·.1 != t) := by
  rw [scripts, ht, scripts, List.filter_filterMap, List.filterMap_filter]
  refine List.filterMap_congr fun e _ => ?_
  rcases e with ⟨u, _ | _ | _⟩ <;> simp [Option.filter]

theorem unfinished_eq (s : Session) : s.unfinished = s.scripts.map fun e => (e.1, e.2.record) := by
  rw [unfinished, scripts, List.map_filterMap]
  refine List.filterMap_congr fun e _ => ?_
  rcases e with ⟨u, _ | _ | _⟩ <;> rfl

theorem mem_unfinished {t : Nat} {a : RunRecord} :
    (t, a) ∈ s.unfinished ↔ ∃ x, (t, .script x) ∈ s.tasks ∧ x.record = a := by
  simp [unfinished_eq, mem_scripts]

/-! ### Numbers -/

/-- Tasks and runs have numbers of their own, those of runs below `n`. -/
structure Numbered (s : Session) (n : Nat) : Prop where
  tasks : (s.unfinished.map (·.1)).Nodup
  taskCount : ∀ e ∈ s.unfinished, e.1 < s.taskCount
  runs : (s.unfinished.map (·.2.run)).Nodup
  below : ∀ e ∈ s.unfinished, e.2.run < n
  cancelled : ∀ run, s.cancellations.has run → run < n

theorem mem_active {a : RunRecord} :
    a ∈ s.active ↔ (∃ t, (t, a) ∈ s.unfinished) ∧ s.cancellations.has a.run = false := by
  simp [active]

theorem wake_eq (t : Nat) (s : Session) : ∃ ready, s.wake t = { s with ready } := by
  simp only [wake]
  split
  · exact ⟨s.ready, rfl⟩
  · exact ⟨_, rfl⟩

theorem foldl_wake_eq {α : Type} (f : α → Nat) (xs : List α) (s : Session) :
    ∃ ready, xs.foldl (fun s x => s.wake (f x)) s = { s with ready } := by
  induction xs generalizing s with
  | nil => exact ⟨s.ready, rfl⟩
  | cons x rest ih =>
    obtain ⟨ready, hw⟩ := wake_eq (f x) s
    obtain ⟨ready', hr⟩ := ih { s with ready }
    exact ⟨ready', by rw [List.foldl_cons, hw, hr]⟩

theorem cancel_eq (run : Nat) (s : Session) : ∃ ready, s.cancel run =
    { s with cancellations := s.cancellations.cancel run, ready } :=
  foldl_wake_eq _ _ _

/-- What orders come to: the executions that are active, and those that were added. -/
structure Obeyed (s : Session) (orders : List Order) (s' : Session) : Prop where
  registry : s'.registry = s.registry
  active : s'.active = orders.foldl Order.apply s.active
  launched : s'.unfinished.map (·.2) =
    s.unfinished.map (·.2) ++ orders.filterMap Order.launched?

theorem Obeyed.trans {s'' : Session} {orders more : List Order} (h : Obeyed s orders s')
    (h' : Obeyed s' more s'') : Obeyed s (orders ++ more) s'' where
  registry := h'.registry.trans h.registry
  active := by rw [h'.active, h.active, List.foldl_append]
  launched := by rw [h'.launched, h.launched, List.filterMap_append, List.append_assoc]

theorem unfinished_launch (l : Launch) (s : Session) :
    (s.launch l).unfinished = s.unfinished ++ [(s.taskCount, l.record)] := by
  simp [launch, spawn, unfinished, List.filterMap_append, Execution.record, Launch.record]

namespace Numbered

variable {n m : Nat}

theorem mono (h : Numbered s n) (hnm : n ≤ m) : Numbered s m where
  tasks := h.tasks
  taskCount := h.taskCount
  runs := h.runs
  below e he := Nat.lt_of_lt_of_le (h.below e he) hnm
  cancelled run hr := Nat.lt_of_lt_of_le (h.cancelled run hr) hnm

theorem cancel (h : Numbered s n) {run : Nat} (hr : run < n) :
    Numbered (s.cancel run) n ∧ Obeyed s [.cancel run] (s.cancel run) := by
  obtain ⟨ready, hc⟩ := cancel_eq run s
  rw [hc]
  refine ⟨⟨h.tasks, h.taskCount, h.runs, h.below, fun k hk => ?_⟩, rfl, ?_, ?_⟩
  · rw [Cancellations.has_cancel, Bool.or_eq_true, beq_iff_eq] at hk
    rcases hk with rfl | hk
    · exact hr
    · exact h.cancelled k hk
  · simp only [active, List.foldl_cons, List.foldl_nil, Order.apply, List.filter_filter]
    refine List.filter_congr fun a _ => ?_
    rw [Cancellations.has_cancel, Bool.not_or]
    rfl
  · simp [unfinished, Order.launched?]

theorem launch (h : Numbered s n) {l : Launch} (hl : n ≤ l.run) :
    Numbered (s.launch l) (l.run + 1) ∧ Obeyed s [.launch l] (s.launch l) := by
  have hfresh : s.cancellations.has l.run = false := by
    cases hc : s.cancellations.has l.run with
    | false => rfl
    | true => have := h.cancelled _ hc; omega
  have hun := unfinished_launch l s
  refine ⟨⟨?_, ?_, ?_, ?_, fun k hk => ?_⟩, rfl, ?_, ?_⟩
  · rw [hun, List.map_append]
    refine h.tasks.append (by simp) ?_
    simp only [List.map_cons, List.map_nil, List.disjoint_singleton, List.mem_map, not_exists,
      not_and]
    exact fun e he => Nat.ne_of_lt (h.taskCount e he)
  · intro e he
    rw [hun] at he
    simp only [Session.launch, spawn]
    rcases List.mem_append.mp he with he | he
    · have := h.taskCount e he; omega
    · rw [List.mem_singleton.mp he]; simp
  · rw [hun, List.map_append]
    refine h.runs.append (by simp) ?_
    simp only [List.map_cons, List.map_nil, List.disjoint_singleton, List.mem_map, not_exists,
      not_and]
    intro e he hrun
    have := h.below e he
    simp only [Launch.record] at hrun
    omega
  · intro e he
    rw [hun] at he
    rcases List.mem_append.mp he with he | he
    · have := h.below e he; omega
    · rw [List.mem_singleton.mp he]; simp [Launch.record]
  · have := h.cancelled k hk; omega
  · have : (s.launch l).cancellations = s.cancellations := rfl
    simp [active, hun, this, List.filter_append, Order.apply, Launch.record, hfresh]
  · simp [hun, Order.launched?]

theorem obey {orders : List Order} (ht : Order.Timely n orders m) :
    ∀ {s : Session}, Numbered s n →
      Numbered (orders.foldl Session.obey s) m ∧ Obeyed s orders (orders.foldl Session.obey s) := by
  induction ht with
  | done => intro s h; exact ⟨h, rfl, rfl, by simp⟩
  | skip hk _ ih => intro s h; exact ih (h.mono hk)
  | cancel hr _ ih =>
    intro s h
    obtain ⟨h, hs⟩ := h.cancel hr
    exact ⟨(ih h).1, hs.trans (ih h).2⟩
  | launch hl _ ih =>
    intro s h
    obtain ⟨h, hs⟩ := h.launch hl
    exact ⟨(ih h).1, hs.trans (ih h).2⟩

end Numbered

/-! ### The accounts -/

/-- The executions of a session agree with its registry, and with the runs that were started. -/
structure Accounted (s : Session) (started : List RunRecord) : Prop where
  sound : s.registry.Sound
  numbered : Numbered s s.registry.runs
  exact : ∀ a, a ∈ s.active ↔ a ∈ s.registry.records
  ordered : started.Pairwise (·.run < ·.run)
  startedBelow : ∀ a ∈ started, a.run < s.registry.runs
  mem_started : ∀ e ∈ s.unfinished, e.2 ∈ started
  latest : ∀ a ∈ s.active, ∀ b ∈ started, b.object = a.object → b.hat = a.hat → b.run ≤ a.run

namespace Accounted

theorem fresh (hr : s.registry = {}) (ht : s.tasks = []) (hc : s.cancellations = {}) :
    Accounted s [] where
  sound := hr ▸ Registry.sound_empty
  numbered := by constructor <;> simp [unfinished, ht, hc, Cancellations.has]
  exact := by simp [active, unfinished, ht, hr, Registry.records]
  ordered := .nil
  startedBelow := by simp
  mem_started := by simp [unfinished, ht]
  latest := by simp

theorem call (h : Accounted s started) (c : Registry.Call) :
    Accounted (s.dispatch c.perform).2
      (started ++ (c.perform s.registry).orders.filterMap Order.launched?) := by
  have hc := c.honest h.sound
  set d := c.perform s.registry with hd
  obtain ⟨hn, ho⟩ := Numbered.obey (s := { s with registry := d.registry }) hc.timely
    ⟨h.numbered.tasks, h.numbered.taskCount, h.numbered.runs, h.numbered.below,
      h.numbered.cancelled⟩
  have hs : (s.dispatch c.perform).2 = d.orders.foldl obey { s with registry := d.registry } := rfl
  have hreg : (s.dispatch c.perform).2.registry = d.registry := ho.registry
  have hact : (s.dispatch c.perform).2.active = d.orders.foldl Order.apply s.active := ho.active
  have hexact (a : RunRecord) : a ∈ (s.dispatch c.perform).2.active ↔ a ∈ d.registry.records := by
    rw [hact, hc.records, Order.mem_foldl_congr h.exact]
  have hgrows := hc.timely.le
  refine ⟨hreg ▸ hc.sound h.sound, hreg ▸ hn, hreg ▸ hexact, ?_, ?_, ?_, ?_⟩
  · refine List.pairwise_append.mpr ⟨h.ordered, hc.timely.increasing, fun a ha b hb => ?_⟩
    have := h.startedBelow a ha
    have := (hc.timely.fresh b hb).1
    omega
  · rw [hreg]
    intro a ha
    rcases List.mem_append.mp ha with ha | ha
    · have := h.startedBelow a ha; omega
    · exact (hc.timely.fresh a ha).2
  · intro e he
    have : e.2 ∈ (s.dispatch c.perform).2.unfinished.map (·.2) := List.mem_map_of_mem he
    rw [hs, ho.launched] at this
    rcases List.mem_append.mp this with he | he
    · obtain ⟨e', he', heq⟩ := List.mem_map.mp he
      exact List.mem_append_left _ (heq ▸ h.mem_started e' he')
    · exact List.mem_append_right _ he
  · intro a ha b hb hbo hbk
    rcases List.mem_append.mp hb with hb | hb
    · -- a run from before is older than one that was launched now
      rcases Order.mem_or_launched (hact ▸ ha) with ha | ha
      · exact h.latest a ha b hb hbo hbk
      · have := h.startedBelow b hb
        have := (hc.timely.fresh a ha).1
        omega
    · exact hc.latest a ((hexact a).mp ha) b hb hbo hbk

end Accounted

/-! ### The end of an execution -/

section Finish

variable (s) (t : Nat) (x : Execution) (result : Except ExecError Unit)

theorem finish_fields : (s.finish t x result).tasks = s.tasks.filter (·.1 != t) ∧
    (s.finish t x result).registry = s.registry.finish x.actor.object x.actor.hat x.run ∧
    (s.finish t x result).cancellations = s.cancellations.forget x.run ∧
    (s.finish t x result).taskCount = s.taskCount := by
  rcases result with (_ | _ | _ | _) | _ <;> exact ⟨rfl, rfl, rfl, rfl⟩

theorem unfinished_finish :
    (s.finish t x result).unfinished = s.unfinished.filter (·.1 != t) := by
  rw [unfinished_eq, scripts_filter (finish_fields s t x result).1, unfinished_eq, List.filter_map]
  rfl

variable {s t x}

/-- Of all active executions only the one that is over is gone. -/
theorem Numbered.mem_active_finish {n : Nat} (h : Numbered s n)
    (hx : (t, x.record) ∈ s.unfinished) {a : RunRecord} :
    a ∈ (s.finish t x result).active ↔ a ∈ s.active ∧ a ≠ x.record := by
  obtain ⟨-, -, hc, -⟩ := finish_fields s t x result
  simp only [mem_active, unfinished_finish, hc, Cancellations.has_forget, List.mem_filter,
    bne_iff_ne]
  constructor
  · rintro ⟨⟨u, hu, hne⟩, hcan⟩
    have hrun : a.run ≠ x.run := fun hrun =>
      hne (congrArg Prod.fst (List.inj_on_of_nodup_map h.runs hu hx hrun))
    exact ⟨⟨⟨u, hu⟩, by simpa [hrun] using hcan⟩, fun e => hrun (congrArg RunRecord.run e)⟩
  · rintro ⟨⟨⟨u, hu⟩, hcan⟩, hne⟩
    have hut : u ≠ t := by
      rintro rfl
      exact hne (congrArg Prod.snd (List.inj_on_of_nodup_map h.tasks hu hx rfl))
    exact ⟨⟨u, hu, hut⟩, by simp [hcan]⟩

theorem Accounted.finish (h : Accounted s started) (hx : (t, .script x) ∈ s.tasks) :
    Accounted (s.finish t x result) started := by
  have hmem : (t, x.record) ∈ s.unfinished := mem_unfinished.mpr ⟨x, hx, rfl⟩
  obtain ⟨-, hreg, hcan, hcount⟩ := finish_fields s t x result
  have hun := unfinished_finish s t x result
  have hsub : (s.finish t x result).unfinished.Sublist s.unfinished := hun ▸ List.filter_sublist
  have hact (a : RunRecord) := h.numbered.mem_active_finish result hmem (a := a)
  have hruns : (s.finish t x result).registry.runs = s.registry.runs := by
    rw [hreg, Registry.finish_runs]
  constructor
  · exact hreg ▸ h.sound.finish ..
  · rw [hruns]
    refine ⟨h.numbered.tasks.sublist (hsub.map _), fun e he => ?_,
      h.numbered.runs.sublist (hsub.map _), fun e he => ?_, fun run hrun => ?_⟩
    · rw [hcount]; exact h.numbered.taskCount e (hsub.subset he)
    · exact h.numbered.below e (hsub.subset he)
    · rw [hcan, Cancellations.has_forget, Bool.and_eq_true] at hrun
      exact h.numbered.cancelled run hrun.1
  · intro a
    rw [hact, h.exact, hreg, Registry.mem_records_finish h.sound.toTidy]
    rfl
  · exact h.ordered
  · rw [hruns]; exact h.startedBelow
  · exact fun e he => h.mem_started e (hsub.subset he)
  · exact fun a ha => h.latest a ((hact a).mp ha).1

end Finish

theorem SameRuns.active (h : SameRuns s s') : s'.active = s.active := by
  rw [Session.active, Session.active, h.unfinished, h.cancellations]

theorem Accounted.other (h : Accounted s started) (hs : SameRuns s s') : Accounted s' started where
  sound := hs.registry ▸ h.sound
  numbered := by
    rw [hs.registry]
    refine ⟨hs.unfinished ▸ h.numbered.tasks, fun e he => ?_, hs.unfinished ▸ h.numbered.runs,
      hs.unfinished ▸ h.numbered.below, hs.cancellations ▸ h.numbered.cancelled⟩
    exact Nat.lt_of_lt_of_le (h.numbered.taskCount e (hs.unfinished ▸ he)) hs.taskCount
  exact := by rw [hs.active, hs.registry]; exact h.exact
  ordered := h.ordered
  startedBelow := hs.registry ▸ h.startedBelow
  mem_started := hs.unfinished ▸ h.mem_started
  latest := hs.active ▸ h.latest

theorem History.accounted (h : History s started) : Accounted s started := by
  induction h with
  | fresh hr ht hc => exact .fresh hr ht hc
  | call c _ ih => exact ih.call c
  | finish result hx _ ih => exact ih.finish result hx
  | other hs _ ih => exact ih.other hs

/-! ### What is live -/

theorem Numbered.nodup_active {n : Nat} (h : Numbered s n) : s.active.Nodup := by
  have : (s.unfinished.map (·.2)).Nodup :=
    List.Nodup.of_map RunRecord.run (by simpa [Function.comp_def] using h.runs)
  exact this.filter _

/-- In a list in which the numbers grow, what has the greatest number comes last. -/
theorem getLast?_of_latest {l : List RunRecord} (hl : l.Pairwise (·.run < ·.run)) {a : RunRecord}
    (ha : a ∈ l) (hmax : ∀ b ∈ l, b.run ≤ a.run) : l.getLast? = some a := by
  obtain rfl | ⟨l, z, rfl⟩ := List.eq_nil_or_concat' l
  · cases ha
  · rw [List.getLast?_concat]
    rcases List.mem_append.mp ha with ha | ha
    · have := (List.pairwise_append.mp hl).2.2 a ha z (by simp)
      have := hmax z (by simp)
      omega
    · rw [List.mem_singleton.mp ha]

/-- The executions that are neither over nor cancelled are the live runs on record. Of each object
and hat there is one at most, the last that was started; and the end of a run takes its own record
off, which for a run that was cancelled means none. -/
theorem History.live_runs (h : History s started) :
    s.active.Perm s.registry.records ∧
      (∀ a ∈ s.active,
        (started.filter fun b => b.object == a.object && b.hat == a.hat).getLast? = some a) ∧
      (∀ object hat, (s.active.filter fun a => a.object == object && a.hat == hat).length ≤ 1) ∧
      ∀ t x, (t, .script x) ∈ s.tasks → ∀ result,
        (∀ a, a ∈ (s.finish t x result).registry.records ↔ a ∈ s.registry.records ∧ a ≠ x.record) ∧
        (s.cancellations.has x.run → (s.finish t x result).registry = s.registry) := by
  have hs := h.accounted
  have hnodup := hs.numbered.nodup_active
  have hlast (a : RunRecord) (ha : a ∈ s.active) :
      (started.filter fun b => b.object == a.object && b.hat == a.hat).getLast? = some a := by
    obtain ⟨⟨t, ht⟩, -⟩ := mem_active.mp ha
    refine getLast?_of_latest (hs.ordered.filter _) ?_ fun b hb => ?_
    · exact List.mem_filter.mpr ⟨hs.mem_started _ ht, by simp⟩
    · obtain ⟨hb, hk⟩ := List.mem_filter.mp hb
      rw [Bool.and_eq_true, beq_iff_eq, beq_iff_eq] at hk
      exact hs.latest a ha b hb hk.1 hk.2
  refine ⟨?_, hlast, fun object hat => ?_, fun t x hx result => ⟨fun a => ?_, fun hc => ?_⟩⟩
  · exact (List.perm_ext_iff_of_nodup hnodup hs.sound.toTidy.nodup_records).mpr hs.exact
  · set same := s.active.filter fun a => a.object == object && a.hat == hat with hsame
    have hone (a : RunRecord) (ha : a ∈ same) :
        (started.filter fun b => b.object == object && b.hat == hat).getLast? = some a := by
      obtain ⟨ha, hk⟩ := List.mem_filter.mp ha
      rw [Bool.and_eq_true, beq_iff_eq, beq_iff_eq] at hk
      rw [← hlast a ha, hk.1, hk.2]
    have hdistinct : same.Nodup := hnodup.filter _
    rcases hl : same with _ | ⟨a, _ | ⟨b, rest⟩⟩
    · simp
    · simp
    · have hab : a = b := Option.some.inj
        ((hone a (by simp [hl])).symm.trans (hone b (by simp [hl])))
      rw [hl, hab] at hdistinct
      simp at hdistinct
  · rw [(finish_fields s t x result).2.1, Registry.mem_records_finish hs.sound.toTidy]
    rfl
  · rw [(finish_fields s t x result).2.1]
    obtain ⟨i, h, hi, hf, hl, -⟩ | ⟨-, hfin⟩ :=
      Registry.finish_cases hs.sound.toTidy x.actor.object x.actor.hat x.run
    · -- a run on record is active, so it was not cancelled
      have hh : s.registry.handler? x.actor.object x.actor.hat = some h := by
        simp [Registry.handler?, hi, hf]
      have hx' := (mem_active.mp ((hs.exact x.record).mpr
        ((hs.sound.toTidy.record_mem hh).mpr hl))).2
      rw [show x.record.run = x.run from rfl, hc] at hx'
      cases hx'
    · exact hfin

/-- Two scripts: one that a message starts, and one that runs at once. -/
def relay : Compiled :=
  ⟨0, ⟨[⟨⟨"hears", .broadcast "go"⟩, []⟩, ⟨⟨"starts", .immediately⟩, []⟩], [], []⟩⟩

/-- A session in which the message was sent twice, and then all but the script it starts was
replaced by a graph that does not compile. -/
def retriggered : Session :=
  [.reinstall "die" 1 none false (.ok relay), .broadcast "go" none, .broadcast "go" none,
    .reinstall "die" 2 (some "hears") false (.error (.unknownKind "b" "?"))].foldl
    (fun s (c : Registry.Call) => (s.dispatch c.perform).2) { config := {}, scene := {} }

/-- Of three runs that are not over, the first run of the script was superseded, the other script
was stopped, and the second run of the script survived. -/
theorem live_runs_retriggered :
    History retriggered [⟨"die", "starts", 0⟩, ⟨"die", "hears", 1⟩, ⟨"die", "hears", 2⟩] ∧
      retriggered.active.Perm retriggered.registry.records ∧
      retriggered.active = [⟨"die", "hears", 2⟩] := by
  have h : History retriggered
      [⟨"die", "starts", 0⟩, ⟨"die", "hears", 1⟩, ⟨"die", "hears", 2⟩] :=
    .call (.reinstall "die" 2 (some "hears") false (.error (.unknownKind "b" "?")))
      (.call (.broadcast "go" none) (.call (.broadcast "go" none)
        (.call (.reinstall "die" 1 none false (.ok relay)) (.fresh rfl rfl rfl))))
  exact ⟨h, h.live_runs.1, by decide⟩

end Session

end Tabletop
