import Tabletop.Proofs.Execution.Writes
import Tabletop.Proofs.Session.Chronicle
import Tabletop.Proofs.WriteQueue

/-! What a script does to the scene, whatever it is made of and whoever else runs. It writes to its
own object, adds copies of it, and deletes it if it saw that this is a copy itself; and as long as
it evaluates an expression, it does nothing at all. -/

namespace Tabletop

/-- The states of its own object that an execution saw since it began the piece at hand. -/
def Story.sights (me : Actor) (h : Story) : List SceneObject := h.events.flatMap (Event.sights me)

/-! ### Expressions -/

namespace Act

variable {α : Type}

/-- There is something left to ask or to wait for. -/
inductive UnderWay : Act α → Prop where
  | ask (r : Request) (next : r.Answer → Act α) : UnderWay (ask r next)
  | wait (p : Pause) (next : p.Answer → Act α) : UnderWay (wait p next)
  | tick (next : Act α) : UnderWay (tick next)

end Act

/-! ### Copies -/

/-- Every copy of an object is kept under its own id. -/
def WriteQueue.Labelled (q : WriteQueue) : Prop := ∀ id o, q.cached? id = some o → o.id = id

theorem WriteQueue.labelled_empty : ({} : WriteQueue).Labelled := by
  intro id o ho
  cases ho

theorem WriteQueue.Labelled.write {q : WriteQueue} {target : WriteTarget} {edit : Edit}
    (hq : q.Labelled) (hedit : ∀ o, (edit o).id = o.id) : (q.write target edit).2.Labelled := by
  intro id o ho
  have hseed : ∀ o, (WriteQueue.seed target q.cache).lookup id = some o → o.id = id := by
    intro o ho
    cases target with
    | id target => exact hq id o ho
    | object o' =>
      rw [WriteQueue.seed] at ho
      split at ho
      · exact hq id o ho
      · rw [Keyed.lookup_put] at ho
        split at ho
        · next heq =>
          cases ho
          exact heq.symm
        · exact hq id o ho
  rw [WriteQueue.cached?, WriteQueue.write_cache, Keyed.lookup_modify] at ho
  split at ho
  · next heq =>
    obtain ⟨o', ho', rfl⟩ := Option.map_eq_some_iff.mp ho
    rw [hedit]
    exact hseed o' (heq ▸ ho')
  · exact hseed o ho

namespace Session

variable {s s' s₀ : Session} {t : Nat} {x x' : Execution} {H news : List Happening}

/-- A change of nothing that lasts: neither of the scene and the writes to it, nor of variables, nor
of what is installed. -/
structure Untouched (s s' : Session) : Prop where
  scene : s'.scene = s.scene
  queue : s'.queue = s.queue
  memory : s'.memory = s.memory
  registry : s'.registry = s.registry

theorem Reschedules.untouched (h : Reschedules s s') : Untouched s s' := by
  cases h
  exact ⟨rfl, rfl, rfl, rfl⟩

theorem write_scene (target : WriteTarget) (edit : Edit) (s : Session) :
    (s.write target edit).2.scene = s.scene := by
  simp only [write]
  split <;> rfl

theorem write_queue (target : WriteTarget) (edit : Edit) (s : Session) :
    (s.write target edit).2.queue = (s.queue.write target edit).2 := by
  simp only [write]
  split <;> rfl

theorem untouched_drawn {α : Type} (result : α × Entropy) (s : Session) :
    Untouched s (s.drawn result).2 := ⟨rfl, rfl, rfl, rfl⟩

theorem untouched_wait {p : Pause} {next : p.Answer → Machine} (t : Nat) (s : Session)
    (hstep : x.machine.step x.actor = .wait p next) : Untouched s (s.stepScript t x) := by
  rcases stepScript_wait t s hstep with ⟨-, f, -, hs⟩ | ⟨a, -, hs⟩
  · have h := hs.untouched
    exact ⟨h.scene, h.queue, h.memory, h.registry⟩
  · have h := (reschedules_leave t p s).untouched
    rw [hs]
    exact ⟨h.scene, h.queue, h.memory, h.registry⟩

theorem untouched_answer (x : Execution) (s : Session) {r : Request} (h : r.isQuery = true) :
    Untouched s (s.answer x r).2 := by
  cases r with
  | touching id target => cases target <;> exact ⟨rfl, rfl, rfl, rfl⟩
  | draw | drawWithin | tag =>
    rw [answer]
    exact untouched_drawn _ s
  | cancelled | read | now | cached | outstanding | objects | sound => exact ⟨rfl, rfl, rfl, rfl⟩
  | _ => cases h

/-- As long as it evaluates, a script touches nothing. -/
theorem untouched_stepScript {e : Expr} {es : List Event} {stage : Act Value}
    {k : Value → Act Turn} (t : Nat) (s : Session) (hes : (e.eval x.actor).Comes es stage)
    (hway : stage.UnderWay) (hact : x.machine.act = stage >>= k) :
    Untouched s (s.stepScript t x) := by
  cases hway with
  | ask r next =>
    cases (e.inquires_eval x.actor).comes hes with
    | ask hquery _ =>
      simp only [stepScript, Machine.step, hact, Act.bind_ask]
      have h := untouched_answer x s hquery.1
      exact ⟨h.scene, h.queue, h.memory, h.registry⟩
  | wait p next => exact untouched_wait t s (by rw [Machine.step, hact, Act.bind_wait])
  | tick next => cases (e.inquires_eval x.actor).comes hes

/-! ### Turns -/

/-- What one step of an execution does to the scene and to the queue of writes, by the states of its
own object that it saw. -/
inductive Footprint (me : Actor) (seen : List SceneObject) (s s' : Session) : Prop where
  /-- Nothing, but for what is heard or told. -/
  | spares (notes sounds : List String) (soundStops : Nat) :
    s'.scene = { s.scene with notes, sounds, soundStops } →
    s'.queue = s.queue ∨ s'.queue = s.queue.invalidate → Footprint me seen s s'
  | updates (edit : Edit) : (∀ o, (edit o).id = o.id) → s'.scene = s.scene →
    s'.queue = (s.queue.write (.id me.object) edit).2 → Footprint me seen s s'
  | copies {source : SceneObject} (tag : Nat) : source ∈ seen →
    s'.scene = s.scene.add [Act.copyOf me source tag] → s'.queue = s.queue →
    Footprint me seen s s'
  | deletes {o : SceneObject} : o ∈ seen → (o.stored? me.config.cloneSourceKey).isSome = true →
    s'.scene = s.scene.delete [o.id] → s'.queue = s.queue → Footprint me seen s s'

namespace Footprint

variable {me : Actor} {seen : List SceneObject}

theorem of_eq (hscene : s'.scene = s.scene) (hqueue : s'.queue = s.queue) :
    Footprint me seen s s' :=
  .spares s.scene.notes s.scene.sounds s.scene.soundStops hscene (.inl hqueue)

theorem finish (t : Nat) (x : Execution) (result : Except ExecError Unit) (s : Session) :
    Footprint me seen s (s.finish t x result) := by
  rcases result with (_ | _ | _ | _) | _ <;> exact .spares _ _ _ rfl (.inl rfl)

theorem dispatch (op : Registry → Dispatched) (s : Session) :
    Footprint me seen s (s.dispatch op).2 := by
  obtain ⟨launched, ready, cancellations, h, -⟩ := dispatch_eq op s
  rw [h]
  exact of_eq rfl rfl

theorem write {edit : Edit} (h : ∀ o, (edit o).id = o.id) (s : Session) :
    Footprint me seen s (s.write (.id me.object) edit).2 :=
  .updates edit h (write_scene _ edit s) (write_queue _ edit s)

/-- Whoever asks for what it may only, leaves that behind. -/
theorem answer {r : Request} {assigns : Variable → Prop} (h : r.Allowed x.actor assigns seen)
    (s : Session) : Footprint x.actor seen s (s.answer x r).2 := by
  cases r with
  | write id edit =>
    obtain ⟨rfl, hedit⟩ := h
    exact write hedit s
  | add o =>
    obtain ⟨source, hsource, tag, rfl⟩ := h
    exact .copies tag hsource rfl rfl
  | delete id =>
    obtain ⟨o, ho, hclone, rfl⟩ := h
    exact .deletes ho hclone rfl rfl
  | invalidate => exact .spares _ _ _ rfl (.inr rfl)
  | broadcast | stopOthers | stopAll => exact dispatch _ s
  | startSound sound => exact .spares _ (sound.name :: s.scene.sounds) _ rfl (.inl rfl)
  | stopSounds => exact .spares _ _ (s.scene.soundStops + 1) rfl (.inl rfl)
  | assign | detachSound => exact of_eq rfl rfl
  | _ => exact of_eq (untouched_answer x s rfl).scene (untouched_answer x s rfl).queue

end Footprint

theorem Told.allowed {r : Request} {next : r.Answer → Machine} (h : Told H s)
    (hx : (t, x) ∈ s.scripts) (hstep : x.machine.step x.actor = .ask r next) :
    ∃ assigns, r.Allowed x.actor assigns ((Happening.tale t H).sights x.actor) := by
  obtain ⟨act, hp, hes⟩ := h.leads t x hx
  obtain ⟨k, hact, -⟩ := Machine.step_ask hstep
  rw [hact] at hes
  exact ⟨_, hp.allowed hes⟩

theorem Told.footprint (h : Told H s) (hx : (t, x) ∈ s.scripts) :
    Footprint x.actor ((Happening.tale t H).sights x.actor) s (s.stepScript t x) := by
  cases hstep : x.machine.step x.actor with
  | silent m =>
    rw [stepScript, hstep]
    exact .of_eq rfl rfl
  | finished result =>
    rw [stepScript, hstep]
    exact .finish t x result s
  | ask r next =>
    rw [stepScript, hstep]
    obtain ⟨assigns, hallowed⟩ := h.allowed hx hstep
    cases Footprint.answer hallowed s with
    | spares notes sounds stops hs hq => exact .spares notes sounds stops hs hq
    | updates edit hedit hs hq => exact .updates edit hedit hs hq
    | copies tag ho hs hq => exact .copies tag ho hs hq
    | deletes ho hc hs hq => exact .deletes ho hc hs hq
  | wait p next =>
    have h := untouched_wait t s hstep
    exact .of_eq h.scene h.queue

/-! ### Sights -/

theorem flushWindow_labelled (t window : Nat) (s : Session) :
    (s.flushWindow t window).queue.Labelled := by
  have hcache : (s.flushWindow t window).queue.cache = [] := by
    obtain ⟨q, hq⟩ : ∃ q, s.queue.begin_ window = q := ⟨_, rfl⟩
    have hempty : q.2.cache = [] := by
      rw [← hq, WriteQueue.begin_]
      split <;> rfl
    simp only [flushWindow, hq]
    split
    · exact (congrArg _ (reschedules_release window _).untouched.queue).trans hempty
    · exact (congrArg _ (reschedules_release window _).untouched.queue).trans hempty
  intro id o ho
  rw [WriteQueue.cached?, hcache] at ho
  cases ho

theorem Footprint.labelled {me : Actor} {seen : List SceneObject} (h : Footprint me seen s s')
    (hs : s.queue.Labelled) : s'.queue.Labelled := by
  cases h with
  | spares _ _ _ _ hq =>
    rcases hq with hq | hq
    · exact hq ▸ hs
    · exact hq ▸ WriteQueue.labelled_empty
  | updates edit hedit _ hq => exact hq ▸ hs.write hedit
  | copies _ _ _ hq | deletes _ _ _ hq => exact hq ▸ hs

theorem Chapter.labelled (h : Chapter s news s') (ht : Told H s) (ho : s.Orderly)
    (hs : s.queue.Labelled)
    (hedit : ∀ target edit, .writes target edit ∈ news → ∀ o, (edit o).id = o.id) :
    s'.queue.Labelled := by
  cases h with
  | turn h =>
    rcases (turned_step h).keeps_or ho with
      ha | ⟨t, x, r, next, f, hx, hstep, rfl⟩ | ⟨t, window, due, -, rfl⟩
    · exact ha.queue ▸ hs
    · obtain ⟨assigns, hallowed⟩ := ht.allowed hx hstep
      exact (Footprint.answer hallowed s).labelled hs
    · exact flushWindow_labelled t window s
  | call c =>
    obtain ⟨launched, ready, cancellations, h, -⟩ := dispatch_eq c.perform s
    rw [h]
    exact hs
  | write target edit =>
    exact write_queue target edit s ▸ hs.write (hedit target edit (List.mem_singleton_self _))
  | declares r => exact hs
  | other _ _ hq =>
    rcases hq with hq | hq
    · exact hq ▸ hs
    · exact hq ▸ WriteQueue.labelled_empty

/-- What an execution sees of its own object is of that object. -/
theorem sights_answer (hs : s.queue.Labelled) (x : Execution) (r : Request) :
    ∀ o ∈ r.sights x.actor (s.answer x r).1, o.id = x.actor.object := by
  intro o ho
  cases r with
  | cached id =>
    rw [answer] at ho
    cases hc : s.queue.cached? id with
    | none =>
      rw [hc] at ho
      cases ho
    | some o' =>
      rw [hc, Request.sights] at ho
      split at ho
      · next hid =>
        obtain rfl := List.mem_singleton.mp ho
        exact (hs id o hc).trans hid
      · cases ho
  | objects filter =>
    cases filter with
    | ids wanted =>
      cases wanted with
      | nil => cases ho
      | cons id others =>
        cases others with
        | nil =>
          rw [Request.sights] at ho
          split at ho
          · next hid =>
            have haccepts : (ObjectFilter.ids [id]).accepts o = true := (List.mem_filter.mp ho).2
            rw [← hid]
            simpa [ObjectFilter.accepts] using haccepts
          · cases ho
        | cons => cases ho
    | attachedTo | layer => cases ho
  | _ => cases ho

theorem Chapter.own (h : Chapter s news s') (ht : Told H s) (ho : s.Orderly)
    (hs : s.queue.Labelled)
    (hown : ∀ t x, (t, x) ∈ s.scripts → ∀ o ∈ (Happening.tale t H).sights x.actor,
      o.id = x.actor.object) (hx' : (t, x') ∈ s'.scripts) :
    ∀ o ∈ (Happening.tale t (news ++ H)).sights x'.actor, o.id = x'.actor.object := by
  cases h.origin ho hx' with
  | rests hx hactor _ _ hnews =>
    rw [Happening.tale_append hnews, hactor]
    exact hown t _ hx
  | @goes x ev hx hactor _ _ hevent hnews =>
    rw [hnews, List.singleton_append, Happening.tale, if_pos rfl, hactor]
    intro o hm
    cases ev with
    | begins s => cases hm
    | asks r a =>
      have hafter : ((Happening.tale t H).after (.asks r a)).sights x.actor =
          (Happening.tale t H).sights x.actor ++ r.sights x.actor a := by
        simp [Story.sights, Story.after, Event.sights]
      rw [hafter, List.mem_append] at hm
      rcases hm with hm | hm
      · exact hown t x hx o hm
      · obtain rfl := (event?_asks hevent).2
        exact sights_answer hs x r o hm
    | _ => exact hown t x hx o (by simpa [Story.sights, Story.after, Event.sights] using hm)
  | starts body iterations hle _ hnews =>
    rw [Happening.tale_append hnews, ht.tale_of_le hle]
    intro o hm
    cases hm

/-- If nobody's writes give an object another id, executions see states of their own objects. -/
theorem Chronicle.own (h₀ : Fresh s₀) (hq : s₀.queue = {}) (h : Chronicle s₀ H s)
    (hedit : ∀ target edit, .writes target edit ∈ H → ∀ o, (edit o).id = o.id) :
    s.queue.Labelled ∧ ∀ t x, (t, x) ∈ s.scripts → ∀ o ∈ (Happening.tale t H).sights x.actor,
      o.id = x.actor.object := by
  induction h with
  | refl =>
    refine ⟨hq ▸ WriteQueue.labelled_empty, fun t x hx => ?_⟩
    rw [scripts, h₀.tasks] at hx
    cases hx
  | next h hc ih =>
    have ho := (h.reached h₀).orderly.1
    obtain ⟨hl, hown⟩ := ih fun target edit hm => hedit target edit (List.mem_append_right _ hm)
    refine ⟨hc.labelled (h.told h₀) ho hl fun target edit hm =>
      hedit target edit (List.mem_append_left _ hm), fun t x hx => ?_⟩
    exact hc.own (h.told h₀) ho hl hown hx

theorem step_script (ho : s.Orderly) (hcur : s.current = some t) (hx : (t, x) ∈ s.scripts)
    (h : s.step? = some s') : s' = s.stepScript t x := by
  simp only [step?, hcur, stepTask, ho.task? (mem_scripts.mp hx), Option.some.injEq] at h
  exact h.symm

/-- What executions write. Whatever the scripts and the order in which they take their turns, a step
of one does to the scene and to the queue what `Footprint` says, by the states that it saw of its
own object; these are of that object, unless somebody else gave it another id. In the course of an
expression it does nothing, to variables and to what is installed neither. -/
theorem Chronicle.isolated (h₀ : Fresh s₀) (hq : s₀.queue = {}) (h : Chronicle s₀ H s)
    (hcur : s.current = some t) (hx : (t, x) ∈ s.scripts) (hstep : s.step? = some s') :
    Footprint x.actor ((Happening.tale t H).sights x.actor) s s' ∧
    ((∀ target edit, .writes target edit ∈ H → ∀ o, (edit o).id = o.id) →
      ∀ o ∈ (Happening.tale t H).sights x.actor, o.id = x.actor.object) ∧
    ∀ (e : Expr) (es : List Event) (stage : Act Value) (k : Value → Act Turn),
      (e.eval x.actor).Comes es stage → stage.UnderWay → x.machine.act = stage >>= k →
      Untouched s s' := by
  obtain rfl := step_script (h.reached h₀).orderly.1 hcur hx hstep
  refine ⟨(h.told h₀).footprint hx, fun hedit => (h.own h₀ hq hedit).2 t x hx, ?_⟩
  exact fun e es stage k hes hway hact => untouched_stepScript t s hes hway hact

/-! ### A copy that leaves -/

/-- A copy, and what it was made from. -/
def grove : Session :=
  { config := {}, scene := { objects := [("p", { id := "p" }),
    ("c", { id := "c", metadata := [("piecescript/cloneOf", .string "p")] })] } }

/-- A script that deletes its object. -/
def departure : Compiled := ⟨0, ⟨[⟨⟨"leaves", .immediately⟩, [.effect .deleteSelf]⟩], [], []⟩⟩

/-- The script has read its object, and is about to delete it. -/
def departing : Session :=
  ((grove.dispatch (Registry.Call.reinstall "c" 1 none false (.ok departure)).perform).2).takeTurns
    9 4

theorem isolated_departing : ∃ H x s', Chronicle grove H departing ∧
    (0, x) ∈ departing.scripts ∧ departing.step? = some s' ∧
    Footprint x.actor ((Happening.tale 0 H).sights x.actor) departing s' ∧
    (∃ next, x.machine.step x.actor = .ask (.delete "c") next) ∧
    (s'.scene.object? "c").isNone ∧ (s'.scene.object? "p").isSome := by
  have hcall : Chronicle grove _ _ :=
    Chronicle.refl.next (.call (.reinstall "c" 1 none false (.ok departure)) (by decide))
  obtain ⟨news, h⟩ := hcall.passage (passage_takeTurns 9 4 _)
  obtain ⟨x, s', hx, hstep, hdelete, hc, hp⟩ : ∃ x s', departing.task? 0 = some (.script x) ∧
      departing.step? = some s' ∧ (∃ next, x.machine.step x.actor = .ask (.delete "c") next) ∧
      (s'.scene.object? "c").isNone ∧ (s'.scene.object? "p").isSome :=
    ⟨_, _, rfl, rfl, ⟨_, rfl⟩, rfl, rfl⟩
  have hx := mem_scripts.mpr (mem_of_task? hx)
  have hfoot := Chronicle.isolated ⟨rfl, rfl, rfl, rfl⟩ rfl h rfl hx hstep
  exact ⟨_, x, s', h, hx, hstep, hfoot.1, hdelete, hc, hp⟩

end Session

end Tabletop
