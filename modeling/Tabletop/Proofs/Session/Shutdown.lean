import Tabletop.Proofs.Scene
import Tabletop.Proofs.Session.Cancelled
import Tabletop.Proofs.Session.Traffic

/-! The shutdown of a session. It stops everything and waits for the flush that is set up. Whatever
happens then but for new events, the writes that were queued are carried out, and no write is queued
and no execution starts any more. -/

namespace Tabletop

open WriteQueue (Traffic)

namespace Session

variable {s s' s₁ : Session} {t : Nat} {x : Execution}

/-! ### What is seen of objects -/

/-- Whether some script is left with the deletion of an object. -/
def Parting (s : Session) : Prop := ∃ t x, (t, x) ∈ s.scripts ∧ x.machine.Deleting

/-- Each object is as it was, but for what `R` says; it can be gone only if some script was left
with a deletion. -/
def Shows (s : Session) (R : String → SceneObject → SceneObject → Prop) (s' : Session) : Prop :=
  ∀ id, Option.Rel (R id) (s.scene.object? id) (s'.scene.object? id) ∨
    s'.scene.object? id = none ∧ s.Parting

theorem rel_of_eq {o o' : Option SceneObject} (h : o' = o) : Option.Rel Eq o o' := by
  subst h
  cases o' with
  | none => exact .none
  | some o => exact .some rfl

theorem Shows.of_eq (h : s'.scene.objects = s.scene.objects) : Shows s (fun _ => Eq) s' :=
  fun id => .inl (rel_of_eq (by rw [Scene.object?, h, Scene.object?]))

theorem Shows.comp {Q R S : String → SceneObject → SceneObject → Prop} (h : Shows s Q s₁)
    (h' : Shows s₁ R s') (hS : ∀ id o o₁ o', Q id o o₁ → R id o₁ o' → S id o o')
    (hp : s₁.Parting → s.Parting) : Shows s S s' := by
  intro id
  rcases h' id with h' | ⟨hnone, hparting⟩
  · rcases h id with h | ⟨hnone, hparting⟩
    · left
      revert h h'
      generalize s.scene.object? id = o, s₁.scene.object? id = o₁, s'.scene.object? id = o'
      rintro (hr | _) (hq | _)
      · exact .some (hS id _ _ _ hq hr)
      · exact .none
    · rw [hnone] at h'
      generalize s'.scene.object? id = o' at h'
      cases h'
      exact .inr ⟨rfl, hparting⟩
  · exact .inr ⟨hnone, hp hparting⟩

/-! ### Once everything was stopped -/

/-- A session in which nothing is installed, and every script was cancelled. -/
structure Silenced (s : Session) : Prop where
  lived : Lived s
  ids : s.registry.ids = []
  cancelled : ∀ t x, (t, x) ∈ s.scripts → s.cancellations.has x.run = true

theorem stopAll_eq (s : Session) : ∃ (ready : List Nat) (cancellations : Cancellations),
    (s.dispatch Registry.stopAll).2 = { s with
      registry := { s.registry with installed := [] }
      ready, cancellations } := by
  obtain ⟨launched, ready, cancellations, h, hlength⟩ := dispatch_eq Registry.stopAll s
  have hnone : launched = [] := by
    rw [Registry.stopAll, Registry.launched_cancelAll] at hlength
    simpa using hlength
  subst hnone
  exact ⟨ready, cancellations, by rw [h, List.map_nil, List.append_nil]; rfl⟩

/-- What is on record is active, and nothing is on record any more. -/
theorem Lived.silenced (h : Lived s) (hcur : s.current = none) :
    Silenced (s.dispatch Registry.stopAll).2 := by
  have hlived : Lived (s.dispatch Registry.stopAll).2 := h.deeds (.single (.call .stopAll hcur))
  obtain ⟨ready, cancellations, heq⟩ := stopAll_eq s
  obtain ⟨-, started, hhistory⟩ := hlived.reached.orderly
  refine ⟨hlived, by rw [heq]; rfl, fun t x hx => ?_⟩
  by_contra hc
  have hactive : x.record ∈ (s.dispatch Registry.stopAll).2.active :=
    mem_active.mpr ⟨⟨t, mem_unfinished.mpr ⟨x, mem_scripts.mp hx, rfl⟩⟩, Bool.eq_false_iff.mpr hc⟩
  have hrecord := (hhistory.accounted.exact _).mp hactive
  rw [heq] at hrecord
  nomatch hrecord

/-- A change by which no write is queued, nothing is flushed and no execution starts. -/
structure Calm (s s' : Session) : Prop where
  queue : ∃ cache, s'.queue = { s.queue with cache }
  objects : Shows s (fun _ => Eq) s'
  ids : s'.registry.ids = s.registry.ids
  runs : s'.registry.runs = s.registry.runs
  taskCount : s'.taskCount = s.taskCount

theorem KeepsQueueAndScene.calm (h : KeepsQueueAndScene s s') : Calm s s' :=
  ⟨⟨_, h.queue⟩, .of_eq h.objects, h.ids, h.runs, h.taskCount⟩

theorem calm_of_quiet (x : Execution) (s : Session) {r : Request} (hr : r.isEffect = false) :
    Calm s (s.answer x r).2 := by
  cases answered x s r with
  | calls c hc _ h => exact absurd ((Request.cancels_of_not_isEffect hr).symm.trans hc) nofun
  | writes target edit he h => exact absurd (hr.symm.trans he) nofun
  | detaches sound he h => exact absurd (hr.symm.trans he) nofun
  | keeps memory scene queue entropy hscene hq h =>
    obtain rfl := hscene hr
    rw [h]
    refine ⟨?_, .of_eq rfl, rfl, rfl, rfl⟩
    rcases hq with rfl | rfl
    · exact ⟨_, rfl⟩
    · exact ⟨[], rfl⟩

theorem calm_delete (x : Execution) (id : String) (hp : s.Parting) :
    Calm s (s.answer x (.delete id)).2 := by
  refine ⟨⟨_, rfl⟩, fun j => ?_, rfl, rfl, rfl⟩
  by_cases hj : j = id
  · exact .inr ⟨(Scene.object?_delete id s.scene j).trans (if_pos hj), hp⟩
  · exact .inl (rel_of_eq ((Scene.object?_delete id s.scene j).trans (if_neg hj)))

/-- Any turn is calm, unless it flushes a window. -/
theorem Silenced.turned (h : Silenced s) (ht : Turned s s') : Calm s s' ∨
    ∃ t window due, (t, .flush window due) ∈ s.tasks ∧ s' = s.flushWindow t window := by
  obtain ha | ⟨t, x, r, next, f, hx, hstep, rfl⟩ | hflush := ht.keeps_or h.lived.reached.orderly.1
  · exact .inl ha.calm
  · left
    have hanswer : Calm s (s.answer x r).2 := by
      rcases h.lived.reached.guarded.stopped t x hx (.inr (h.cancelled t x hx)) with hq | hd
      · exact calm_of_quiet x s (hq.ask hstep).1
      · obtain ⟨⟨id, rfl⟩, -⟩ := hd.ask hstep
        exact calm_delete x id ⟨t, x, hx, hd⟩
    exact ⟨hanswer.queue, hanswer.objects, hanswer.ids, hanswer.runs, hanswer.taskCount⟩
  · exact .inr hflush

/-- How far the flush has come that was set up in a session. -/
inductive Drained (s s' : Session) : Prop where
  | waits : (∃ cache, s'.queue = { s.queue with cache }) → Shows s (fun _ => Eq) s' → Drained s s'
  | done {window : Nat} {result : FlushResult} : s.queue.pending = some window →
    s'.queue.queue = [] → s'.queue.pending = none → s'.queue.result? window = some result →
    (result = .ok () → Shows s s.queue.Lands s') → Drained s s'

/-- What remains true of a session in which everything was stopped. -/
structure Outlived (s s' : Session) : Prop where
  silenced : Silenced s'
  parting : s'.Parting → s.Parting
  runs : s'.registry.runs = s.registry.runs
  taskCount : s'.taskCount = s.taskCount
  drained : Drained s s'

theorem Silenced.drains (h : Silenced s) (ht : Turned s s') : s'.registry.ids = s.registry.ids ∧
    s'.registry.runs = s.registry.runs ∧ s'.taskCount = s.taskCount ∧ Drained s s' := by
  obtain ⟨m, hm⟩ := h.lived.mirrored
  obtain hc | ⟨t, window, due, hw, rfl⟩ := h.turned ht
  · exact ⟨hc.ids, hc.runs, hc.taskCount, .waits hc.queue hc.objects⟩
  · obtain ⟨hp, hne⟩ := hm.pending hw
    obtain ⟨ready, waiters, heq⟩ := flushWindow_eq hne t window
    rw [heq]
    refine ⟨rfl, rfl, rfl, .done hp rfl rfl List.lookup_cons_self fun hr id => ?_⟩
    exact .inl (Scene.lands_write hr id)

theorem Silenced.passes (h : Silenced s) (hp : Passes s s') : Outlived s s' := by
  have hlived := h.lived.deeds (.single hp.deed)
  have hk := h.lived.reached.kept hp.move
  have hturn : s'.registry.ids = s.registry.ids ∧ s'.registry.runs = s.registry.runs ∧
      s'.taskCount = s.taskCount ∧ Drained s s' := by
    cases hp with
    | turn hs => exact h.drains (turned_step hs)
    | idle => exact ⟨rfl, rfl, rfl, .waits ⟨_, rfl⟩ (.of_eq rfl)⟩
  obtain ⟨hids, hruns, hcount, hdrained⟩ := hturn
  -- A script that was launched would have a number of its own.
  have hdescends (t : Nat) (x' : Execution) (hx' : (t, x') ∈ s'.scripts) :
      ∃ x, Descends s s' t x x' := by
    rcases hk.scripts t x' hx' with hd | ⟨hle, -⟩
    · exact hd
    · have := hlived.reached.orderly.1.lt hx'
      omega
  refine ⟨⟨hlived, hids.trans h.ids, fun t x' hx' => ?_⟩, ?_, hruns, hcount, hdrained⟩
  · obtain ⟨x, hd⟩ := hdescends t x' hx'
    exact hk.cancelled t x' hx' (hd.run ▸ h.cancelled t x hd.mem)
  · rintro ⟨t, x', hx', hdeleting⟩
    obtain ⟨x, hd⟩ := hdescends t x' hx'
    have hc := h.cancelled t x hd.mem
    have hstopped := h.lived.reached.guarded.stopped t x hd.mem (.inr hc)
    rcases Machine.deletes_of_goesOn hstopped (hd.goesOn hc) with hq | ⟨hd', -⟩
    · exact absurd hq hdeleting.not_quiet
    · exact ⟨t, x, hd.mem, hd'⟩

theorem Drained.trans (h : Drained s s₁) (h' : Drained s₁ s') (hp : s₁.Parting → s.Parting) :
    Drained s s' := by
  have heq {R : String → SceneObject → SceneObject → Prop} (hs : Shows s R s₁)
      (hs' : Shows s₁ (fun _ => Eq) s') : Shows s R s' :=
    hs.comp hs' (fun _ _ _ _ hr heq => heq ▸ hr) hp
  cases h with
  | waits hq hs =>
    obtain ⟨cache, hq⟩ := hq
    cases h' with
    | waits hq' hs' =>
      obtain ⟨cache', hq'⟩ := hq'
      exact .waits ⟨cache', by rw [hq', hq]⟩ (heq hs hs')
    | done hpending hqueue hnone hresult hlands =>
      rw [hq] at hpending
      refine .done hpending hqueue hnone hresult fun hr => hs.comp (hlands hr) ?_ hp
      rintro id o _ o' rfl hlands
      rwa [hq] at hlands
  | done hpending hqueue hnone hresult hlands =>
    cases h' with
    | waits hq' hs' =>
      obtain ⟨cache', hq'⟩ := hq'
      exact .done hpending (by rw [hq', hqueue]) (by rw [hq', hnone]) (by rw [hq']; exact hresult)
        fun hr => heq (hlands hr) hs'
    | done hpending' => nomatch hnone.symm.trans hpending'

theorem Silenced.passage (h : Silenced s) (hp : Passage s s') : Outlived s s' := by
  induction hp with
  | refl => exact ⟨h, id, rfl, rfl, .waits ⟨_, rfl⟩ (.of_eq rfl)⟩
  | tail _ hp ih =>
    have h' := ih.silenced.passes hp
    exact ⟨h'.silenced, ih.parting ∘ h'.parting, h'.runs.trans ih.runs,
      h'.taskCount.trans ih.taskCount, ih.drained.trans h'.drained ih.parting⟩

/-! ### The shutdown -/

/-- A shutdown that comes to a good end, in whatever order tasks have their turns: everything is
stopped, and then each outstanding window is waited for and has a good result. -/
structure ShutsDown (s s' : Session) : Prop where
  passage : Passage (s.dispatch Registry.stopAll).2 s'
  flushed : ∀ window ∈ (s.dispatch Registry.stopAll).2.queue.outstanding,
    s'.queue.result? window = some (.ok ())

/-- A session that was shut down, with what became of all that was queued and set up before. -/
structure Over (s s' : Session) : Prop where
  handlers : s'.registry.installed = []
  queue : s'.queue.queue = []
  pending : s'.queue.hasPending = false
  flushTasks : s'.flushTasks = []
  landed : Shows s s.queue.Lands s'
  /-- No execution was started, nor any other task. -/
  runs : s'.registry.runs = s.registry.runs
  taskCount : s'.taskCount = s.taskCount
  /-- What scripts are left with is the deletion of an object at most. -/
  silent : ∀ t x r next, (t, x) ∈ s'.scripts → x.machine.step x.actor = .ask r next →
    r.isEffect = true → s.Parting ∧ ∃ id, r = .delete id

theorem Mirrors.outstanding {m : Traffic} (h : Mirrors m s) :
    s.queue.outstanding = s.queue.pending.toList := by
  rw [WriteQueue.outstanding, h.inFlight]
  rfl

theorem Mirrors.idle {m : Traffic} (h : Mirrors m s) (hp : s.queue.pending = none) :
    s.queue.queue = [] ∧ s.flushTasks = [] := by
  have hs := h.run.sound
  rw [← h.scheduled, hs.scheduled, h.queue, hp, ← h.queue]
  exact ⟨hs.idle (h.queue ▸ hp), rfl⟩

theorem Mirrors.unanswered_pending {m : Traffic} (h : Mirrors m s) {window : Nat}
    (hp : s.queue.pending = some window) : s.queue.result? window = none := by
  have hs := h.run.sound
  rw [← h.queue] at hp ⊢
  obtain ⟨-, -, hstarted, -⟩ := hs.opened window hp
  exact hs.result_eq_none fun _ hr => hstarted (hs.started_of_answered hr)

/-- A flush that came to a good end has the results of all windows it waited for. -/
theorem Mirrors.flush_ok {m : Traffic} (h : Mirrors m s) (hf : s.flush = (.ok (), s')) :
    ∀ window ∈ s.queue.outstanding, s'.queue.result? window = some (.ok ()) := by
  rw [flush, h.outstanding] at hf
  rw [h.outstanding]
  intro window hw
  rw [Option.mem_toList.mp hw] at hf
  have hwait : s.waitForWindow window = (.ok (), s') := by
    simp only [Option.toList, waitForWindows] at hf
    split at hf
    · next heq => rw [heq, hf]
    · exact hf
  rw [waitForWindow, Prod.mk.injEq] at hwait
  obtain ⟨hresult, rfl⟩ := hwait
  show (Session.take window _).queue.result? window = _
  rw [(KeepsQueueAndScene.reschedules (reschedules_take window _)).queue]
  cases hr : (s.waitUntil _ none patience).queue.result? window with
  | none => rw [hr] at hresult; cases hresult
  | some r => rw [hr] at hresult; exact congrArg some hresult

theorem Shows.lands (h : Shows s (fun _ => Eq) s') (hq : s.queue.queue = []) :
    Shows s s.queue.Lands s' := by
  refine (Shows.of_eq rfl).comp h (fun id o o₁ o' heq heq' => ?_) id
  rw [WriteQueue.Lands, hq, if_neg (by simp [WriteQueue.idsOf, Keyed.keys])]
  exact (heq.trans heq').symm

/-- With good results of what was waited for, all that was queued has landed. -/
theorem Mirrors.landed {m : Traffic} (hm : Mirrors m s) (hd : Drained s s')
    (hflushed : ∀ window ∈ s.queue.outstanding, s'.queue.result? window = some (.ok ())) :
    s'.queue.pending = none ∧ Shows s s.queue.Lands s' := by
  rw [hm.outstanding] at hflushed
  cases hd with
  | waits hq hshows =>
    obtain ⟨cache, hq⟩ := hq
    have hpending : s.queue.pending = none := by
      refine Option.eq_none_iff_forall_ne_some.mpr fun window hw => ?_
      have hresult := hflushed window (Option.mem_toList.mpr hw)
      rw [hq] at hresult
      nomatch (hm.unanswered_pending hw).symm.trans hresult
    exact ⟨by rw [hq]; exact hpending, hshows.lands (hm.idle hpending).1⟩
  | @done window result hpending hqueue hnone hresult hlands =>
    have hok := hflushed window (Option.mem_toList.mpr hpending)
    exact ⟨hnone, hlands (Option.some.inj (hresult.symm.trans hok))⟩

theorem Silenced.pending_none (h : Silenced s) (hp : Passage s s')
    (hnone : s.queue.pending = none) :
    s'.queue.pending = none ∧ Shows s (fun _ => Eq) s' := by
  cases (h.passage hp).drained with
  | waits hq hshows =>
    obtain ⟨cache, hq⟩ := hq
    exact ⟨by rw [hq]; exact hnone, hshows⟩
  | done hpending => nomatch hnone.symm.trans hpending

/-- A shutdown that returns without an error is one that comes to a good end. From then on, whatever
order tasks have their turns in, nothing is installed, queued or set up, all that was queued has
landed, and no write is queued and no execution started any more. -/
theorem Lived.shutdown_over (h : Lived s) (hcur : s.current = none) :
    (∀ s₂, s.shutdown = (.ok (), s₂) → ShutsDown s s₂) ∧
      ∀ s₂ s₃, ShutsDown s s₂ → Passage s₂ s₃ → Over s s₃ := by
  have hs := h.silenced hcur
  obtain ⟨m, hm⟩ := hs.lived.mirrored
  refine ⟨fun s₂ hd => ⟨?_, hm.flush_ok hd⟩, fun s₂ s₃ hd hp => ?_⟩
  · have hflush := passage_flush (s.dispatch Registry.stopAll).2
    rwa [show (s.dispatch Registry.stopAll).2.flush = (.ok (), s₂) from hd] at hflush
  obtain ⟨hnone, hlanded⟩ := hm.landed (hs.passage hd.passage).drained hd.flushed
  obtain ⟨hnone, hsame⟩ := (hs.passage hd.passage).silenced.pending_none hp hnone
  have hall := hs.passage (hd.passage.trans hp)
  obtain ⟨m₃, hm₃⟩ := hall.silenced.lived.mirrored
  obtain ⟨hqueue, hflushes⟩ := hm₃.idle hnone
  have hlanded := hlanded.comp hsame (fun _ _ _ _ hr heq => heq ▸ hr)
    (hs.passage hd.passage).parting
  have hparting := hall.parting
  have hruns := hall.runs
  have hcount := hall.taskCount
  -- Stopping everything changes no scripts, objects or writes.
  obtain ⟨ready, cancellations, heq⟩ := stopAll_eq s
  rw [heq] at hlanded hparting hruns hcount
  refine ⟨List.map_eq_nil_iff.mp hall.silenced.ids, hqueue, ?_, hflushes, hlanded, hruns, hcount,
    fun t x r next hx hstep he => ?_⟩
  · rw [WriteQueue.hasPending, hnone, hm₃.inFlight]
    rfl
  · have hc := hall.silenced.cancelled t x hx
    rcases hall.silenced.lived.reached.guarded.stopped t x hx (.inr hc) with hq | hdeleting
    · rw [(hq.ask hstep).1] at he
      nomatch he
    · exact ⟨hparting ⟨t, x, hx, hdeleting⟩, (hdeleting.ask hstep).1⟩

/-- A script that writes a text, and then never ends. -/
def farewell : Compiled :=
  ⟨0, ⟨[⟨⟨"says", .immediately⟩, [.effect (.setText (.ofText "bye")), .forever []]⟩], [], []⟩⟩

/-- A session in which the script waits for the flush of its write. -/
def speaking : Session :=
  let s : Session := { config := {}, scene := { objects := [("c", { id := "c" })] } }
  (s.dispatch (Registry.Call.reinstall "c" 1 none false (.ok farewell)).perform).2.takeTurns 40 3

theorem lived_speaking : Lived speaking := by
  refine ⟨{ config := {}, scene := { objects := [("c", { id := "c" })] } }, ⟨rfl, rfl, rfl, rfl⟩,
    rfl, .trans (.single ?_) (passage_takeTurns 40 3 _).deeds⟩
  exact .call (.reinstall "c" 1 none false (.ok farewell)) rfl

/-- The text that is queued when the session is shut down is shown afterwards. -/
theorem shutdown_over_speaking : ∃ s', speaking.shutdown = (.ok (), s') ∧
    speaking.scripts.length = 1 ∧ speaking.queue.outstanding = [0] ∧
    (speaking.scene.object? "c").map (·.text) = some "" ∧ Over speaking s' ∧
    (s'.scene.object? "c").map (·.text) = some "bye" := by
  have hreturns : speaking.shutdown = (.ok (), speaking.shutdown.2) := Prod.ext rfl rfl
  obtain ⟨hends, hover⟩ := lived_speaking.shutdown_over (by decide +kernel)
  exact ⟨_, hreturns, by decide +kernel, by decide +kernel, by decide +kernel,
    hover _ _ (hends _ hreturns) .refl, by decide +kernel⟩

end Session

end Tabletop
