import Mathlib.Logic.Relation
import Tabletop.Proofs.WriteQueue

/-! Readers of a host that takes its time. A reader waits for the two windows that have a place in
the queue when he comes. The host may be working on the flush of a third one: this has lost its
place to a later flush, and the reader overlooks it. -/

namespace Tabletop

namespace WriteQueue

namespace Traffic

variable {t t' : Traffic} {w : Nat}

/-! ### Events -/

/-- One event. -/
inductive Happens : Traffic → Traffic → Prop where
  | write (target : WriteTarget) (edit : Edit) (t : Traffic) : Happens t (t.write target edit)
  | fire {t : Traffic} {window : Nat} : window ∈ t.scheduled → Happens t (t.fire window)
  | answer {t : Traffic} {window : Nat} (result : FlushResult) : window ∈ t.unanswered →
    Happens t (t.answer window result)
  | flush (t : Traffic) : Happens t t.flush
  | get (id : String) (t : Traffic) : Happens t (t.get id)
  | invalidate (t : Traffic) : Happens t t.invalidate

theorem Run.happens (h : Run t) (ht : Happens t t') : Run t' := by
  cases ht with
  | write target edit => exact h.write target edit
  | fire hw => exact h.fire hw
  | answer result hw => exact h.answer result hw
  | flush => exact h.flush
  | get id => exact h.get id
  | invalidate => exact h.invalidate

theorem get_eq (id : String) (t : Traffic) : t.get id = t ∨ t.get id = t.flush := by
  rw [get]
  split
  · exact .inl rfl
  · exact .inr rfl

/-- What was answered stays so. -/
theorem Happens.answers (ht : Happens t t') : t.answers ⊆ t'.answers := by
  cases ht with
  | @fire _ window =>
    have : (t.fire window).answers = t.answers := by
      simp only [Traffic.fire]
      split <;> rfl
    rw [this]
    exact List.Subset.refl _
  | answer result => exact List.subset_append_left _ _
  | get id =>
    rcases t.get_eq id with h | h <;> rw [h] <;> exact List.Subset.refl _
  | _ => exact List.Subset.refl _

/-! ### Places in the queue -/

/-- Each flush that the host is working on has its place in the queue. -/
def Placed (t : Traffic) : Prop := ∀ w ∈ t.unanswered, t.queue.inFlight = some w

/-- The flush that has a place in the queue is one that the host is working on. -/
theorem Run.unanswered_of_inFlight (h : Run t) (hw : t.queue.inFlight = some w) :
    w ∈ t.unanswered := by
  induction h with
  | start => cases hw
  | @write t target edit _ ih =>
    exact ih ((write_inFlight target edit t.queue).symm.trans hw)
  | fire hwindow h =>
    rw [h.sound.fire_eq hwindow] at hw ⊢
    cases hw
    exact List.mem_append_right _ (List.mem_singleton.mpr rfl)
  | answer => cases hw
  | flush _ ih => exact ih hw
  | @get t id _ ih =>
    rcases t.get_eq id with hget | hget <;> rw [hget] at hw ⊢ <;> exact ih hw
  | invalidate _ ih => exact ih hw

/-- The windows that a reader waits for are different ones. -/
theorem Run.nodup_outstanding (h : Run t) : t.queue.outstanding.Nodup := by
  rw [outstanding]
  cases hp : t.queue.pending with
  | none => cases t.queue.inFlight <;> simp
  | some p =>
    cases hw : t.queue.inFlight with
    | none => simp
    | some w =>
      have hne : w ≠ p := by
        rintro rfl
        exact (h.sound.opened w hp).2.2.1 (h.sound.inFlight w hw)
      simpa using hne

/-- Where each flush has its place, a write waits in a window that readers wait for, or it has its
answer. -/
theorem Placed.accounted (hp : Placed t) (h : Run t) {x : Written} (hx : x ∈ t.writes) :
    x.window ∈ t.queue.outstanding ∨ ∃ r, (x.window, r) ∈ t.answers := by
  rcases h.sound.written x hx with hpending | hstarted
  · exact .inl (List.mem_append_right _ (Option.mem_toList.mpr hpending))
  · rcases List.mem_append.mp (h.sound.answered.mem_iff.mpr hstarted) with ha | hu
    · obtain ⟨⟨_, r⟩, hr, hw⟩ := List.mem_map.mp ha
      exact .inr ⟨r, hw ▸ hr⟩
    · exact .inl (List.mem_append_left _ (Option.mem_toList.mpr (hp _ hu)))

/-! ### Waiting -/

/-- Somebody waits for some windows one after another, while other things happen. He gives up at a
result that he does not go on with. -/
inductive Waits (goesOn : FlushResult → Prop) : Traffic → List Nat → Traffic → Prop where
  | done (t : Traffic) : Waits goesOn t [] t
  | meanwhile {t t₁ t' : Traffic} {ws : List Nat} : Happens t t₁ → Waits goesOn t₁ ws t' →
    Waits goesOn t ws t'
  | next {t t' : Traffic} {w : Nat} {ws : List Nat} {r : FlushResult} :
    t.queue.result? w = some r → goesOn r → Waits goesOn t ws t' → Waits goesOn t (w :: ws) t'

/-- A reader comes for an object that there is no copy of. Whatever the results, he asks the host
for it in the end. -/
def Reads (id : String) (t t' : Traffic) : Prop :=
  t.queue.cached? id = none ∧ Waits (fun _ => True) (t.get id) t.queue.outstanding t'

/-- A reader comes who waits for all writes, and is told in the end that all went well. -/
def Flushed (t t' : Traffic) : Prop := Waits (· = .ok ()) t.flush t.queue.outstanding t'

namespace Waits

variable {goesOn : FlushResult → Prop} {ws : List Nat}

theorem imp {goesOn' : FlushResult → Prop} (h : Waits goesOn t ws t')
    (himp : ∀ r, goesOn r → goesOn' r) : Waits goesOn' t ws t' := by
  induction h with
  | done t => exact .done t
  | meanwhile ht _ ih => exact .meanwhile ht ih
  | next hr hgo _ ih => exact .next hr (himp _ hgo) ih

theorem run (h : Waits goesOn t ws t') (ht : Run t) : Run t' := by
  induction h with
  | done => exact ht
  | meanwhile hs _ ih => exact ih (ht.happens hs)
  | next _ _ _ ih => exact ih ht

theorem answers (h : Waits goesOn t ws t') : t.answers ⊆ t'.answers := by
  induction h with
  | done => exact List.Subset.refl _
  | meanwhile hs _ ih => exact List.Subset.trans hs.answers ih
  | next _ _ _ ih => exact ih

/-- All that he waited for has an answer, and one that he goes on with. -/
theorem answered (h : Waits goesOn t ws t') (ht : Run t) (hw : w ∈ ws) :
    ∃ r, goesOn r ∧ (w, r) ∈ t'.answers := by
  induction h with
  | done => cases hw
  | meanwhile hs _ ih => exact ih (ht.happens hs) hw
  | @next t t' v _ r hr hgo hrest ih =>
    rcases List.mem_cons.mp hw with rfl | hw
    · exact ⟨r, hgo, hrest.answers ((ht.sound.result w r).mp hr)⟩
    · exact ih ht hw

end Waits

/-- The host may answer some calls, and no others. -/
theorem waits_of_unanswered {ws : List Nat} (hnodup : ws.Nodup) (hws : ws ⊆ t.unanswered) :
    ∃ t', Waits (· = .ok ()) t ws t' ∧ ∀ v ∈ t.unanswered, v ∉ ws → v ∈ t'.unanswered := by
  induction ws generalizing t with
  | nil => exact ⟨t, .done t, fun v hv _ => hv⟩
  | cons w ws ih =>
    obtain ⟨hw, hnodup⟩ := List.nodup_cons.mp hnodup
    have hrest : ws ⊆ (t.answer w (.ok ())).unanswered := fun v hv =>
      (List.mem_erase_of_ne (by rintro rfl; exact hw hv)).mpr (hws (List.mem_cons_of_mem w hv))
    obtain ⟨t', hwaits, hleft⟩ := ih hnodup hrest
    refine ⟨t', .meanwhile (.answer (.ok ()) (hws List.mem_cons_self)) (.next ?_ rfl hwaits), ?_⟩
    · simp [answer, complete, result?]
    · intro v hv hvs
      obtain ⟨hne, hvs⟩ := not_or.mp (mt List.mem_cons.mpr hvs)
      exact hleft v ((List.mem_erase_of_ne hne).mpr hv) hvs

/-- A reader may be told that all went well, with no flush answered but those he waits for. -/
theorem Run.flushed (h : Run t) : ∃ t', Flushed t t' ∧
    ∀ w ∈ t.unanswered, t.queue.inFlight ≠ some w → w ∈ t'.unanswered := by
  have hnodup := h.nodup_outstanding
  have hslot : ∀ w ∈ t.queue.inFlight.toList, w ∈ t.unanswered := fun w hw =>
    h.unanswered_of_inFlight (Option.mem_toList.mp hw)
  have hout {w : Nat} : w ∈ t.queue.outstanding ↔
      w ∈ t.queue.inFlight.toList ∨ w ∈ t.queue.pending.toList := List.mem_append
  cases hp : t.queue.pending with
  | none =>
    obtain ⟨t', hwaits, hleft⟩ := waits_of_unanswered (t := t.flush) hnodup fun w hw => by
      rcases hout.mp hw with hw | hw
      · exact hslot w hw
      · simp [hp] at hw
    refine ⟨t', hwaits, fun w hw hne => hleft w hw ?_⟩
    simpa [hout, hp] using hne
  | some p =>
    -- the window that is open is flushed first
    have hscheduled : p ∈ t.flush.scheduled := h.sound.mem_scheduled.mpr hp
    have hfire : (t.flush.fire p).unanswered = t.unanswered ++ [p] := by
      rw [h.flush.sound.fire_eq hscheduled]
      rfl
    obtain ⟨t', hwaits, hleft⟩ := waits_of_unanswered (t := t.flush.fire p) hnodup fun w hw => by
      rw [hfire, List.mem_append]
      exact (hout.mp hw).imp (hslot w) (by simp [hp])
    refine ⟨t', .meanwhile (.fire hscheduled) hwaits, fun w hw hne => hleft w ?_ ?_⟩
    · exact hfire ▸ List.mem_append_left _ hw
    · have hstarted : w ∈ t.started := h.sound.answered.subset (List.mem_append_right _ hw)
      have hwp : w ≠ p := by
        rintro rfl
        exact (h.sound.opened w hp).2.2.1 hstarted
      simpa [hout, hp] using ⟨hne, hwp⟩

/-! ### What readers can rely on -/

/-- The host has answered all earlier writes. -/
def Answered (t t' : Traffic) : Prop := ∀ x ∈ t.writes, ∃ r, (x.window, r) ∈ t'.answers

/-- The host has carried out all earlier writes. -/
def CarriedOut (t t' : Traffic) : Prop := ∀ x ∈ t.writes, (x.window, .ok ()) ∈ t'.answers

/-- A flush without a place in the queue is overlooked. -/
theorem Run.overlooked (h : Run t) (hp : ¬Placed t) : ∃ t', Flushed t t' ∧ ¬Answered t t' := by
  obtain ⟨t', hflushed, hleft⟩ := h.flushed
  simp only [Placed, not_forall] at hp
  obtain ⟨w, hw, hne⟩ := hp
  refine ⟨t', hflushed, fun hall => ?_⟩
  have hstarted : w ∈ t.started := h.sound.answered.subset (List.mem_append_right _ hw)
  obtain ⟨x, hx, hxw⟩ : ∃ x ∈ t.writes, x.window = w := by
    by_contra hnone
    refine h.sound.nonempty w hstarted ?_
    rw [writesOf, List.map_eq_nil_iff, List.filter_eq_nil_iff]
    exact fun x hx hxw => hnone ⟨x, hx, by simpa using hxw⟩
  obtain ⟨r, hr⟩ := hall x hx
  have hdisjoint := (List.nodup_append.mp (hflushed.run h.flush).sound.nodup_answered).2.2
  exact hdisjoint _ (List.mem_map_of_mem hr) _ (hleft w hw hne) hxw

/-- A reader who is told that all went well has seen the good end of each write, but for those that
had failed before. -/
theorem Placed.outcome (hp : Placed t) (h : Run t) (hf : Flushed t t') {x : Written}
    (hx : x ∈ t.writes) :
    (x.window, .ok ()) ∈ t'.answers ∨ ∃ e, (x.window, .error e) ∈ t.answers := by
  rcases hp.accounted h hx with hw | ⟨r, hr⟩
  · obtain ⟨_, rfl, hr⟩ := hf.answered h.flush hw
    exact .inl hr
  · cases r with
    | ok => exact .inl (hf.answers hr)
    | error e => exact .inr ⟨e, hr⟩

/-- What readers who come now can rely on. -/
structure Reliance (t : Traffic) : Prop where
  /-- Who finds no copy reads after all earlier writes were answered, just when each flush that the
  host is working on has its place. So it is with who waits for all writes. -/
  reads : ∀ id, t.queue.cached? id = none → ((∀ t', Reads id t t' → Answered t t') ↔ Placed t)
  flushed : (∀ t', Flushed t t' → Answered t t') ↔ Placed t
  /-- Each earlier write was then carried out, or it had been refused before the reader came. -/
  outcome : Placed t → ∀ t', Flushed t t' → ∀ x ∈ t.writes,
    (x.window, .ok ()) ∈ t'.answers ∨ ∃ e, (x.window, .error e) ∈ t.answers
  carriedOut : (∀ t', Flushed t t' → CarriedOut t t') ↔
    Placed t ∧ ∀ x ∈ t.writes, ∀ e, (x.window, .error e) ∉ t.answers

/-- Readers are told of all earlier writes just when no flush has lost its place to a later one. -/
theorem Run.readers_exact (h : Run t) : Reliance t := by
  constructor
  case reads =>
    intro id hnone
    constructor
    · intro hall
      by_contra hp
      obtain ⟨t', hflushed, hmissed⟩ := h.overlooked hp
      have hget : t.get id = t.flush := by simp [Traffic.get, hnone]
      exact hmissed (hall t' ⟨hnone, hget ▸ hflushed.imp fun _ _ => trivial⟩)
    · rintro hp t' ⟨-, hwaits⟩ x hx
      rcases hp.accounted h hx with hw | ⟨r, hr⟩
      · obtain ⟨r, -, hr⟩ := hwaits.answered (h.get id) hw
        exact ⟨r, hr⟩
      · exact ⟨r, hwaits.answers ((Happens.get id t).answers hr)⟩
  case flushed =>
    constructor
    · intro hall
      by_contra hp
      obtain ⟨t', hflushed, hmissed⟩ := h.overlooked hp
      exact hmissed (hall t' hflushed)
    · intro hp t' hf x hx
      rcases hp.outcome h hf hx with hr | ⟨e, hr⟩
      · exact ⟨_, hr⟩
      · exact ⟨_, hf.answers hr⟩
  case outcome => exact fun hp t' hf x hx => hp.outcome h hf hx
  case carriedOut =>
    constructor
    · intro hall
      refine ⟨by_contra fun hp => ?_, fun x hx e he => ?_⟩
      · obtain ⟨t', hflushed, hmissed⟩ := h.overlooked hp
        exact hmissed fun x hx => ⟨_, hall t' hflushed x hx⟩
      · -- a window has one answer
        obtain ⟨t', hflushed, -⟩ := h.flushed
        have hsound := (hflushed.run h.flush).sound
        have hok := (hsound.result _ _).mpr (hall t' hflushed x hx)
        have herror := (hsound.result _ _).mpr (hflushed.answers he)
        cases hok.symm.trans herror
    · rintro ⟨hp, hnone⟩ t' hf x hx
      exact (hp.outcome h hf hx).resolve_right (not_exists.mpr (hnone x hx))

/-- A write that the host works on, and another one. -/
def busy : Traffic := ((({} : Traffic).write (.id "a") id).fire 0).write (.id "b") id

/-- The reader waits for both windows, one of which is refused. -/
theorem readers_exact_busy : Run busy ∧ Placed busy ∧
    ∃ t', Reads "a" busy t' ∧ Answered busy t' := by
  have hrun : Run busy := .write _ _ (.fire (by decide) (.write _ _ .start))
  have hplaced : Placed busy := by
    simp [Placed, busy, Traffic.write, fire, WriteQueue.write, begin_]
  let answered : Traffic := (busy.get "a").answer 0 (.error .unavailable)
  have hreads : Reads "a" busy ((answered.fire 1).answer 1 (.ok ())) := by
    have hfirst : 0 ∈ (busy.get "a").unanswered := by decide
    have hscheduled : 1 ∈ answered.scheduled := by decide
    have hsecond : 1 ∈ (answered.fire 1).unanswered := by decide
    refine ⟨rfl, ?_⟩
    rw [show busy.queue.outstanding = [0, 1] from rfl]
    refine .meanwhile (.answer (.error .unavailable) hfirst) (.next rfl trivial ?_)
    exact .meanwhile (.fire hscheduled) (.meanwhile (.answer (.ok ()) hsecond)
      (.next rfl trivial (.done _)))
  exact ⟨hrun, hplaced, _, hreads, (hrun.readers_exact.reads "a" rfl).mpr hplaced _ hreads⟩

/-- Two windows that the host works on at a time. The second one has taken the place of the first.
-/
def overtaken : Traffic :=
  (((({} : Traffic).write (.id "a") id).fire 0).write (.id "a") id).fire 1

/-- A write that was refused. -/
def refused : Traffic := ((({} : Traffic).write (.id "a") id).fire 0).answer 0 (.error .unavailable)

/-- A reader goes on when the second window is answered, though the host still works on the first
one. After a write that was refused he goes on at once. -/
theorem early_overtaken : (∃ t', Run overtaken ∧ Reads "a" overtaken t' ∧ Flushed overtaken t' ∧
      ¬Answered overtaken t') ∧
    ∃ t', Run refused ∧ Flushed refused t' ∧ ¬CarriedOut refused t' := by
  constructor
  · have hrun : Run overtaken :=
      .fire (by decide) (.write _ _ (.fire (by decide) (.write _ _ .start)))
    have hflushed : Flushed overtaken (overtaken.flush.answer 1 (.ok ())) :=
      .meanwhile (.answer (.ok ()) (by decide)) (.next rfl rfl (.done _))
    refine ⟨_, hrun, ⟨rfl, hflushed.imp fun _ _ => trivial⟩, hflushed, fun hall => ?_⟩
    obtain ⟨r, hr⟩ := hall ⟨0, "a", id⟩ List.mem_cons_self
    have hrun' := hflushed.run hrun.flush
    cases ((hrun'.sound.result 0 r).mpr hr)
  · have hrun : Run refused := .answer _ (by decide) (.fire (by decide) (.write _ _ .start))
    refine ⟨refused.flush, hrun, .done _, fun hall => ?_⟩
    cases (hrun.flush.sound.result 0 _).mpr (hall ⟨0, "a", id⟩ List.mem_cons_self)

end Traffic

end WriteQueue

end Tabletop
