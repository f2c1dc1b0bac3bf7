import Mathlib.Data.List.Basic
import Tabletop.Proofs.Session.Moves

/-! The effects of executions that were cancelled. Whatever the moves of a session and their order,
there are none, but for the deletion of an object by a script that was cancelled when it waited for
the flushes before it. -/

namespace Tabletop

open Relation

theorem Request.onceCancelled_of_cancels {r : Request} (h : r.cancels = true) (a : r.Answer) :
    r.OnceCancelled a := by
  cases r <;> trivial

namespace Machine

variable {me : Actor} {m m' : Machine}

/-- The effects of a machine that was quiet or left with a deletion when it was cancelled. -/
theorem deletes_of_goesOn (hm : m.Quiet ∨ m.Deleting) (h : ReflTransGen (GoesOn me true) m m') :
    m'.Quiet ∨ m.Deleting ∧ m'.Deleting := by
  induction h with
  | refl => exact hm.imp_right fun hd => ⟨hd, hd⟩
  | tail _ hstep ih =>
    rcases ih with hq | ⟨hd, hd'⟩
    · exact .inl (hq.goesOn hstep)
    · exact (hd'.goesOn hstep).symm.imp_right fun h => ⟨hd, h⟩

end Machine

namespace Session

variable {s s' : Session} {t : Nat} {x x' : Execution}

/-- What executions are at: one that waits or was cancelled is quiet, or left with a deletion. -/
structure Guarded (s : Session) : Prop where
  proper : ∀ t x, (t, x) ∈ s.scripts → x.machine.Proper
  stopped : ∀ t x, (t, x) ∈ s.scripts → s.current ≠ some t ∨ s.cancellations.has x.run = true →
    x.machine.Quiet ∨ x.machine.Deleting

theorem Fresh.guarded (h : Fresh s) : s.Guarded := by
  constructor <;> simp [scripts, h.tasks]

theorem Kept.proper (h : Kept s s') (hs : s.Guarded) (hx' : (t, x') ∈ s'.scripts) :
    x'.machine.Proper := by
  rcases h.scripts t x' hx' with ⟨x, hd⟩ | ⟨-, body, iterations, hm⟩
  · have hp := hs.proper t x hd.mem
    cases hd.continues with
    | rests _ hm | stays _ _ hm | pauses _ hm => exact hm ▸ hp
    | goes _ _ hm => exact hp.goesOn hm
    | calls a hstep _ hm => exact hm ▸ (hp.ask hstep a).1
  · exact hm ▸ (Machine.start_guarded body iterations).2

theorem Kept.stopped (h : Kept s s') (hs : s.Guarded) (hx' : (t, x') ∈ s'.scripts)
    (hstop : s'.current ≠ some t ∨ s'.cancellations.has x'.run = true) :
    x'.machine.Quiet ∨ x'.machine.Deleting := by
  rcases h.scripts t x' hx' with ⟨x, hd⟩ | ⟨-, body, iterations, hm⟩
  · have hp := hs.proper t x hd.mem
    have hq := hs.stopped t x hd.mem
    rw [hd.run] at hstop
    cases hd.continues with
    | rests ht hm => exact hm ▸ hq (.inl ht)
    | stays hcur hc hm =>
      rw [hcur, hc] at hstop
      exact hm ▸ hq hstop
    | pauses hstep hm => exact hm ▸ (hp.wait hstep).2
    | goes ht hc hm =>
      rcases hstop with hne | hstop
      · exact absurd ht hne
      · rw [hc] at hstop
        rw [hstop] at hm
        rcases hq (.inr hstop) with hq | hd
        · exact .inl (hq.goesOn hm)
        · exact (hd.goesOn hm).symm
    | calls a hstep hr hm => exact hm ▸ .inl ((hp.ask hstep a).2 hr)
  · exact .inl (hm ▸ (Machine.start_guarded body iterations).1)

theorem Reached.guarded (h : Reached s) : s.Guarded := by
  obtain ⟨s₀, h₀, hs⟩ := h
  induction hs with
  | refl => exact h₀.guarded
  | tail hs hm ih =>
    have hk := Reached.kept ⟨s₀, h₀, hs⟩ hm
    exact ⟨fun _ _ => hk.proper ih, fun _ _ => hk.stopped ih⟩

/-! ### A cancelled execution -/

/-- An execution that was cancelled, as it is after some moves. -/
structure Lingers (x : Execution) (s' : Session) (x' : Execution) : Prop where
  actor : x'.actor = x.actor
  run : x'.run = x.run
  cancelled : s'.cancellations.has x.run = true
  goesOn : ReflTransGen (Machine.GoesOn x.actor true) x.machine x'.machine

theorem Descends.goesOn (h : Descends s s' t x x') (hc : s.cancellations.has x.run = true) :
    ReflTransGen (Machine.GoesOn x.actor true) x.machine x'.machine := by
  cases h.continues with
  | rests _ hm | stays _ _ hm | pauses _ hm => rw [hm]
  | goes _ _ hm => exact .single (hc ▸ hm)
  | calls a hstep hr hm =>
    rw [hm]
    exact .single (.ask hstep fun _ => Request.onceCancelled_of_cancels hr a)

theorem Reached.lingers (h : Reached s) (hx : (t, x) ∈ s.scripts)
    (hc : s.cancellations.has x.run = true) (hs : Moves s s') :
    s.taskCount ≤ s'.taskCount ∧ ∀ x', (t, x') ∈ s'.scripts → Lingers x s' x' := by
  induction hs with
  | refl =>
    refine ⟨Nat.le_refl _, fun x' hx' => ?_⟩
    obtain rfl := h.orderly.1.eq_of_mem hx hx'
    exact ⟨rfl, rfl, hc, .refl⟩
  | @tail s₁ s₂ hs hm ih =>
    have hk := (h.moves hs).kept hm
    refine ⟨Nat.le_trans ih.1 hk.taskCount, fun x₂ hx₂ => ?_⟩
    rcases hk.scripts t x₂ hx₂ with ⟨x₁, hd⟩ | ⟨hle, -⟩
    · have hl := ih.2 x₁ hd.mem
      have hc₁ : s₁.cancellations.has x₁.run = true := hl.run ▸ hl.cancelled
      refine ⟨hd.actor.trans hl.actor, hd.run.trans hl.run, ?_, ?_⟩
      · have := hk.cancelled t x₂ hx₂ (hd.run ▸ hc₁)
        rwa [hd.run, hl.run] at this
      · exact hl.goesOn.trans (hl.actor ▸ hd.goesOn hc₁)
    · -- numbers of tasks are not given again
      have := h.orderly.1.lt hx
      omega

/-- With its turn, and with all flushes at a good end, an execution that is left with a deletion
comes to delete. -/
theorem Orderly.comes_to_delete {id : String} {windows : List Nat} (ho : s.Orderly)
    (ht : s.current = some t) (hx : (t, x) ∈ s.scripts)
    (hact : x.machine.act = Act.deletion id .halt windows)
    (hdone : ∀ w ∈ windows, s.queue.result? w = some (.ok ()) ∧ w ∈ s.taken) :
    ∃ s' x' next, Moves s s' ∧ (t, x') ∈ s'.scripts ∧
      x'.machine.step x'.actor = .ask (.delete id) next := by
  induction windows generalizing s x with
  | nil => exact ⟨s, x, _, .refl, hx, by rw [Machine.step, hact]; rfl⟩
  | cons window rest ih =>
    obtain ⟨next, hnext, hok, -⟩ := Act.deletion_cons id Turn.halt window rest
    obtain ⟨hresult, htaken⟩ := hdone window (by simp)
    have hstep : x.machine.step x.actor = .wait (.flushed window) fun answer =>
        { x.machine with act := next answer } := by rw [Machine.step, hact, hnext]
    -- the result was taken before, so that finding it costs nothing and the turn goes on
    have hcost : s.cost (.flushed window) = 0 := by simp [cost, htaken]
    have hleave : s.leave t (.flushed window) = s := by simp [leave, hcost, take, htaken]
    let f : Execution → Execution := fun y =>
      { y with machine := { x.machine with act := next (.ok ()) }, parked := false }
    have hturn : s.step? = some (s.modifyExecution t f) := by
      have htask := ho.task? (mem_scripts.mp hx)
      simp only [step?, ht, stepTask, htask, stepScript, hstep, hcost, Nat.not_lt_zero, if_false,
        result?, hresult, hleave]
      rfl
    obtain ⟨s', x', next', hs, hx', hdelete⟩ := ih (s := s.modifyExecution t f) (x := f x)
      (orderly_modify ho t f) ht (mem_scripts_modify.mpr (.inr ⟨x, rfl, hx, rfl⟩)) hok
      fun w hw => hdone w (by simp [hw])
    exact ⟨s', x', next', .head (.turn hturn) hs, hx', hdelete⟩

theorem Reached.comes_to_delete (h : Reached s) (hcur : s.current = none) (hx : (t, x) ∈ s.scripts)
    (hd : x.machine.Deleting) : ∃ s' x' id next, Moves s s' ∧ (t, x') ∈ s'.scripts ∧
      x'.machine.step x'.actor = .ask (.delete id) next := by
  obtain ⟨id, windows, hact⟩ := hd
  -- the windows are flushed, and then it has its turn
  let flushed : Session := { s with
    ready := [t]
    taken := windows
    queue := { s.queue with results := windows.map fun w => (w, .ok ()) } }
  let begun : Session := { flushed with current := some t, ready := [], allowance := fullAllowance }
  have hflushed : Move s flushed := .other ⟨rfl, rfl, rfl, rfl, rfl⟩
  have hbegun : Move flushed begun := .turn (by simp [step?, flushed, begun, hcur])
  have hdone (w : Nat) (hw : w ∈ windows) :
      begun.queue.result? w = some (.ok ()) ∧ w ∈ begun.taken :=
    ⟨List.lookup_graph _ hw, hw⟩
  have ho := h.orderly.1
  obtain ⟨s', x', next, hs, hx', hdelete⟩ := Orderly.comes_to_delete (s := begun)
    ⟨ho.keys, ho.below⟩ rfl hx hact hdone
  exact ⟨s', x', id, next, .head hflushed (.head hbegun hs), hx', hdelete⟩

/-- The effects of a cancelled execution. Whatever the moves, it begins none any more, unless it was
cancelled when it was left with a deletion: this may still be begun, and that is the end of it. -/
theorem Reached.effects_of_cancelled (h : Reached s) (hx : (t, x) ∈ s.scripts)
    (hc : s.cancellations.has x.run = true) :
    (∀ s' x' r next, Moves s s' → (t, x') ∈ s'.scripts → x'.machine.step x'.actor = .ask r next →
      r.isEffect = true →
        x.machine.Deleting ∧ (∃ id, r = .delete id) ∧ ∀ a, (next a).act = .done .halt) ∧
    (s.current = none → ((∀ s' x' r next, Moves s s' → (t, x') ∈ s'.scripts →
      x'.machine.step x'.actor = .ask r next → r.isEffect = false) ↔ ¬x.machine.Deleting)) := by
  have hm := h.guarded.stopped t x hx (.inr hc)
  have heffect (s' : Session) (x' : Execution) (r : Request) (next : r.Answer → Machine)
      (hs : Moves s s') (hx' : (t, x') ∈ s'.scripts)
      (hstep : x'.machine.step x'.actor = .ask r next) (he : r.isEffect = true) :
      x.machine.Deleting ∧ (∃ id, r = .delete id) ∧ ∀ a, (next a).act = .done .halt := by
    have hl := (h.lingers hx hc hs).2 x' hx'
    rw [hl.actor] at hstep
    rcases Machine.deletes_of_goesOn hm hl.goesOn with hq | ⟨hd, hd'⟩
    · rw [(hq.ask hstep).1] at he
      nomatch he
    · exact ⟨hd, hd'.ask hstep⟩
  refine ⟨heffect, fun hcur => ⟨fun hall hd => ?_, fun hd s' x' r next hs hx' hstep => ?_⟩⟩
  · obtain ⟨s', x', id, next, hs, hx', hdelete⟩ := h.comes_to_delete hcur hx hd
    nomatch hall s' x' _ next hs hx' hdelete
  · by_contra he
    exact hd (heffect s' x' r next hs hx' hstep (by simpa using he)).1

/-! ### A clone that is stopped -/

def clone : SceneObject := { id := "c", metadata := [("piecescript/cloneOf", .string "p")] }

/-- Two scripts: one that deletes the clone, and one that never ends. -/
def parting : Compiled :=
  ⟨0, ⟨[⟨⟨"leaves", .immediately⟩, [.effect .deleteSelf]⟩,
    ⟨⟨"stays", .immediately⟩, [.forever []]⟩], [], []⟩⟩

/-- A session with an unflushed write to the clone, and with both scripts at their waits. -/
def waiting : Session :=
  let s : Session := { config := {}, scene := { objects := [("c", clone)] } }
  ((s.write (.object clone) id).2.dispatch
    (Registry.Call.reinstall "c" 1 none false (.ok parting)).perform).2.takeTurns 40 3

/-- Its scripts are stopped. -/
def stopped : Session := (waiting.dispatch (Registry.Call.stop "c" none).perform).2

/-- The write is flushed, and the first script goes on. -/
def flushed : Session := (stopped.moveTo 16).takeTurns 4 10

theorem reached_stopped : Reached stopped := by
  refine ⟨{ config := {}, scene := { objects := [("c", clone)] } }, ⟨rfl, rfl, rfl, rfl⟩, ?_⟩
  refine .tail (.trans ?_ (passage_takeTurns 40 3 _).moves) (.call (.stop "c" none) (by decide))
  exact .tail (.single (.write (.object clone) id))
    (.call (.reinstall "c" 1 none false _) (by decide))

theorem moves_flushed : Moves stopped flushed :=
  .head (passes_moveTo 16 stopped).move (passage_takeTurns 4 10 _).moves

/-- The first script was left with its deletion when it was stopped, and the second one is silenced.
-/
theorem effects_of_cancelled_stopped : ∃ x y, (1, x) ∈ stopped.scripts ∧
    stopped.cancellations.has x.run = true ∧ x.machine.Deleting ∧
    (2, y) ∈ stopped.scripts ∧ stopped.cancellations.has y.run = true ∧
    ∀ s' y' r next, Moves stopped s' → (2, y') ∈ s'.scripts →
      y'.machine.step y'.actor = .ask r next → r.isEffect = false := by
  obtain ⟨x, hx, hc⟩ : ∃ x, stopped.task? 1 = some (.script x) ∧
      stopped.cancellations.has x.run = true := ⟨_, rfl, by decide⟩
  obtain ⟨x', next, hx', hstep⟩ : ∃ x' next, flushed.task? 1 = some (.script x') ∧
      x'.machine.step x'.actor = .ask (.delete "c") next := ⟨_, _, rfl, rfl⟩
  obtain ⟨y, hy, hcy, hd⟩ : ∃ y, stopped.task? 2 = some (.script y) ∧
      stopped.cancellations.has y.run = true ∧ ¬y.machine.Deleting := by
    refine ⟨_, rfl, by decide, fun hd => ?_⟩
    obtain ⟨id, h⟩ | ⟨window, next, h, -⟩ := hd.cases <;> nomatch h
  have hx := mem_scripts.mpr (mem_of_task? hx)
  have hy := mem_scripts.mpr (mem_of_task? hy)
  refine ⟨x, y, hx, hc, ?_, hy, hcy, ?_⟩
  · exact ((reached_stopped.effects_of_cancelled hx hc).1 flushed x' _ next moves_flushed
      (mem_scripts.mpr (mem_of_task? hx')) hstep rfl).1
  · exact ((reached_stopped.effects_of_cancelled hy hcy).2 (by decide)).mpr hd

/-- A script that was cancelled still deletes an object. -/
theorem deletes_once_cancelled : Reached stopped ∧ Moves stopped flushed ∧
    (∃ x, (1, x) ∈ stopped.scripts ∧ stopped.cancellations.has x.run = true) ∧
    (∃ x' next, (1, x') ∈ flushed.scripts ∧ x'.machine.step x'.actor = .ask (.delete "c") next) ∧
    (flushed.scene.object? "c").isSome = true ∧
    (flushed.step?.map fun s => (s.scene.object? "c").isSome) = some false := by
  refine ⟨reached_stopped, moves_flushed, ⟨_, mem_scripts.mpr (mem_of_task? rfl), by decide⟩,
    ⟨_, _, mem_scripts.mpr (mem_of_task? rfl), rfl⟩, by decide, by decide⟩

end Session

end Tabletop
