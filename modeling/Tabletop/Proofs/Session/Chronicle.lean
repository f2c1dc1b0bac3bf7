import Tabletop.Proofs.Execution.Traces
import Tabletop.Proofs.Session.Deeds
import Tabletop.Session.Change

/-! The history of a session: what its executions went through, each among the others, and what else
was done to its variables and to its queue. An execution is where its own part of the history leads,
and nothing happens between what it reads and what it asks for next. -/

namespace Tabletop

/-- What the history of a session is made of. -/
inductive Happening where
  /-- The script of a task goes through something. -/
  | does (t : Nat) (me : Actor) (table : Nat) (ev : Event)
  /-- The scene gives a variable its first value. -/
  | declares (id : String) (x : Value)
  /-- Someone other than a script writes to an object. -/
  | writes (target : WriteTarget) (edit : Edit)

namespace Happening

/-- What it does to the variables. -/
def remember : Happening → Variables → Variables
  | does _ _ table (.asks (.assign v a) _), m => m.assign table a v
  | declares id x, m => m.declare id x
  | _, m => m

/-- The part that a task has in a history, the latest of which comes first. -/
def tale (t : Nat) : List Happening → Story
  | [] => {}
  | does u _ _ ev :: H => if u = t then (tale t H).after ev else tale t H
  | _ :: H => tale t H

theorem tale_append {t : Nat} {news : List Happening}
    (h : ∀ me table ev, does t me table ev ∉ news) (H : List Happening) :
    tale t (news ++ H) = tale t H := by
  induction news with
  | nil => rfl
  | cons e rest ih =>
    have hrest := ih fun me table ev hm => h me table ev (List.mem_cons_of_mem _ hm)
    cases e with
    | does u me table ev =>
      have hu : u ≠ t := fun hu => h me table ev (hu ▸ List.mem_cons_self ..)
      rw [List.cons_append, tale, if_neg hu, hrest]
    | _ => exact hrest

end Happening

open Happening

namespace Session

variable {s s' s₀ s₁ : Session} {t : Nat} {x x' : Execution} {H news : List Happening}

/-! ### Steps -/

/-- What an execution goes through in a step, if it goes on. -/
def event? (s : Session) (x : Execution) : Option Event :=
  match x.machine.step x.actor with
  | .silent _ => some x.machine.silently
  | .ask r _ => some (.asks r (s.answer x r).1)
  | .wait p _ => if s.allowance < s.cost p then none else (s.result? x p).map (.waits p)
  | .finished _ => none

/-- What happens in the next step, if it is that of an execution which goes on. -/
def happening? (s : Session) : Option Happening :=
  s.current.bind fun t => match s.task? t with
    | some (.script x) => (s.event? x).map (.does t x.actor x.table)
    | _ => none

/-- At a pause an execution goes on with the result, or nothing changes but who has the turn, and
whether the execution was set aside. -/
theorem stepScript_wait (t : Nat) (s : Session) {p : Pause} {next : p.Answer → Machine}
    (hstep : x.machine.step x.actor = .wait p next) :
    (s.event? x = none ∧ ∃ f : Execution → Execution,
      (∀ y, (f y).actor = y.actor ∧ (f y).table = y.table ∧ (f y).machine = y.machine) ∧
      Reschedules (s.modifyExecution t f) (s.stepScript t x)) ∨
    ∃ a, s.event? x = some (.waits p a) ∧ s.stepScript t x =
      (s.leave t p).modifyExecution t fun x => { x with machine := next a, parked := false } := by
  have hrests {s' : Session} (h : Reschedules s s') : ∃ f : Execution → Execution,
      (∀ y, (f y).actor = y.actor ∧ (f y).table = y.table ∧ (f y).machine = y.machine) ∧
      Reschedules (s.modifyExecution t f) s' :=
    ⟨id, fun _ => ⟨rfl, rfl, rfl⟩, (modifyExecution_id t s).symm ▸ h⟩
  simp only [stepScript, event?, hstep]
  split
  · exact .inl ⟨rfl, hrests ((reschedules_yield t s).trans (reschedules_endTurn t _))⟩
  · cases s.result? x p with
    | some a => exact .inr ⟨a, rfl, rfl⟩
    | none =>
      refine .inl ⟨rfl, ?_⟩
      simp only
      split
      · exact hrests (reschedules_endTurn t s)
      · exact ⟨fun x => { x with parked := true }, fun _ => ⟨rfl, rfl, rfl⟩,
          (reschedules_park t p s).trans (reschedules_endTurn t _)⟩

/-- A move of a session, with what it adds to the history. -/
inductive Chapter : Session → List Happening → Session → Prop where
  | turn {s s' : Session} : s.step? = some s' → Chapter s s.happening?.toList s'
  | call {s : Session} (c : Registry.Call) : s.current = none →
    Chapter s [] (s.dispatch c.perform).2
  | write {s : Session} (target : WriteTarget) (edit : Edit) :
    Chapter s [.writes target edit] (s.write target edit).2
  | declares {s : Session} (r : Resources) : s.current = none →
    Chapter s (r.shared.reverse.map fun v => .declares v.id (.ofJson v.initial)) (s.setResources r)
  | other {s s' : Session} : Undisturbed s s' → s'.memory = s.memory →
    s'.queue = s.queue ∨ s'.queue = s.queue.invalidate → Chapter s [] s'

/-- A history, the latest of which comes first, from one session to another. -/
inductive Chronicle (s₀ : Session) : List Happening → Session → Prop where
  | refl : Chronicle s₀ [] s₀
  | next {H news : List Happening} {s s' : Session} : Chronicle s₀ H s → Chapter s news s' →
    Chronicle s₀ (news ++ H) s'

theorem Chronicle.trans {news : List Happening} (h : Chronicle s₀ H s) (h' : Chronicle s news s') :
    Chronicle s₀ (news ++ H) s' := by
  induction h' with
  | refl => exact h
  | next _ hc ih => exact (List.append_assoc ..).symm ▸ ih.next hc

theorem Chapter.deed (h : Chapter s news s') : Deed s s' := by
  cases h with
  | turn h => exact .turn h
  | call c hcur => exact .call c hcur
  | write target edit => exact .write target edit
  | declares r => exact .other ⟨rfl, rfl, rfl, rfl, rfl⟩ (.inl rfl)
  | other h _ hq => exact .other h hq

theorem Chronicle.deeds (h : Chronicle s₀ H s) : Deeds s₀ s := by
  induction h with
  | refl => exact .refl
  | next _ hc ih => exact ih.tail hc.deed

theorem Chronicle.reached (h₀ : Fresh s₀) (h : Chronicle s₀ H s) : Reached s :=
  ⟨s₀, h₀, h.deeds.moves⟩

theorem Chronicle.passage (h : Chronicle s₀ H s) (hp : Passage s s') :
    ∃ news, Chronicle s₀ (news ++ H) s' := by
  induction hp with
  | refl => exact ⟨[], h⟩
  | @tail s₁ s₂ _ hstep ih =>
    obtain ⟨news, h⟩ := ih
    obtain ⟨more, hc⟩ : ∃ more, Chapter s₁ more s₂ := by
      cases hstep with
      | turn hstep => exact ⟨_, .turn hstep⟩
      | idle => exact ⟨[], .other ⟨rfl, rfl, rfl, rfl, rfl⟩ rfl (.inl rfl)⟩
    exact ⟨more ++ news, (List.append_assoc more news H).symm ▸ h.next hc⟩

/-! ### Variables -/

theorem write_memory (target : WriteTarget) (edit : Edit) (s : Session) :
    (s.write target edit).2.memory = s.memory := by
  simp only [write]
  split <;> rfl

theorem dispatch_memory (op : Registry → Dispatched) (s : Session) :
    (s.dispatch op).2.memory = s.memory := by
  obtain ⟨launched, ready, cancellations, h, -⟩ := dispatch_eq op s
  rw [h]

theorem drawn_memory {α : Type} (result : α × Entropy) (s : Session) :
    (s.drawn result).2.memory = s.memory := rfl

theorem answer_memory (x : Execution) (s : Session) (r : Request) (a : r.Answer) :
    (s.answer x r).2.memory = (Happening.does t x.actor x.table (.asks r a)).remember s.memory := by
  cases r with
  | write id edit => exact write_memory _ _ s
  | broadcast | stopOthers | stopAll => exact dispatch_memory _ s
  | touching id target => cases target <;> rfl
  | draw | drawWithin | tag =>
    rw [answer, drawn_memory]
    rfl
  | _ => rfl

theorem Reschedules.memory (h : Reschedules s s') : s'.memory = s.memory := by
  cases h
  rfl

theorem stepScript_memory (t : Nat) (x : Execution) (s : Session) : (s.stepScript t x).memory =
    (((s.event? x).map (Happening.does t x.actor x.table)).toList.foldr remember s.memory) := by
  cases hstep : x.machine.step x.actor with
  | silent m =>
    simp only [stepScript, event?, hstep, Machine.silently]
    split <;> rfl
  | finished result =>
    simp only [stepScript, event?, hstep]
    rcases result with (_ | _ | _ | _) | _ <;> rfl
  | ask r next =>
    simp only [stepScript, event?, hstep]
    exact answer_memory x s r _
  | wait p next =>
    rcases stepScript_wait t s hstep with ⟨hevent, f, -, hs⟩ | ⟨a, hevent, hs⟩
    · rw [hevent]
      exact hs.memory
    · rw [hevent, hs]
      exact (reschedules_leave t p s).memory

theorem flushWindow_memory (t window : Nat) (s : Session) :
    (s.flushWindow t window).memory = s.memory := by
  simp only [flushWindow]
  split
  · exact (reschedules_release window _).memory
  · exact (reschedules_release window _).memory

theorem step_memory (h : s.step? = some s') :
    s'.memory = s.happening?.toList.foldr remember s.memory := by
  simp only [step?] at h
  split at h
  · next t ht =>
    obtain rfl := Option.some.inj h
    simp only [happening?, ht, Option.bind_some, stepTask]
    split
    · next hx => simp only [hx]; rfl
    · next x hx => simp only [hx]; exact stepScript_memory t x s
    · next hx => simp only [hx]; rfl
    · next hx =>
      simp only [hx]
      split
      · exact flushWindow_memory t _ s
      · rfl
    · next hx =>
      simp only [hx]
      split
      · exact flushWindow_memory t _ s
      · rfl
  · next ht =>
    split at h
    · obtain rfl := Option.some.inj h
      simp only [happening?, ht]
      rfl
    · cases h

/-- The variables are what the history made of them. -/
theorem Chapter.memory (h : Chapter s news s') : s'.memory = news.foldr remember s.memory := by
  cases h with
  | turn h => exact step_memory h
  | call c => exact dispatch_memory _ s
  | write target edit => exact write_memory target edit s
  | declares r =>
    rw [setResources, List.foldr_map, List.foldr_reverse]
    rfl
  | other _ hm => exact hm

/-! ### Where executions come from -/

/-- An execution after a move. -/
inductive Origin (s s' : Session) (news : List Happening) (t : Nat) (x' : Execution) : Prop where
  /-- It was there before. If it had its turn and was to ask something, nobody had it meanwhile. -/
  | rests {x : Execution} : (t, x) ∈ s.scripts → x'.actor = x.actor → x'.table = x.table →
    x'.machine = x.machine → (∀ me table ev, .does t me table ev ∉ news) →
    (s.current = some t → ∀ r next, x.machine.act = .ask r next →
      s'.current = some t ∧ s'.memory = s.memory) → Origin s s' news t x'
  | goes {x : Execution} {ev : Event} : (t, x) ∈ s.scripts → x'.actor = x.actor →
    x'.table = x.table → s'.current = some t → s.event? x = some ev →
    news = [.does t x.actor x.table ev] → x.machine.Shows x.actor ev x'.machine →
    Origin s s' news t x'
  | starts (body : List Stmt) (iterations : Nat) : s.taskCount ≤ t →
    x'.machine = .start body iterations → (∀ me table ev, .does t me table ev ∉ news) →
    Origin s s' news t x'

section Turn

variable {f : Execution → Execution} (ho : s.Orderly) (ht : s.current = some t)
  (hx : (t, x) ∈ s.scripts) (hf : ∀ y, (f y).actor = y.actor ∧ (f y).table = y.table)

include ho ht hx in
/-- The execution that has its turn changes, the others rest, and some are launched. -/
theorem origin_modify
    (hs : ∀ u y, (u, y) ∈ s₁.scripts → (u, y) ∈ s.scripts ∨
      s.taskCount ≤ u ∧ ∃ body iterations, y.machine = .start body iterations)
    (hs' : s'.scripts = (s₁.modifyExecution t f).scripts)
    (hnews : ∀ u me table ev, .does u me table ev ∈ news → u = t) (hf : Origin s s' news t (f x))
    (u : Nat) (y : Execution) (hy : (u, y) ∈ s'.scripts) : Origin s s' news u y := by
  have hnone (hu : u ≠ t) (me : Actor) (table : Nat) (ev : Event) : .does u me table ev ∉ news :=
    fun h => hu (hnews u me table ev h)
  rw [hs'] at hy
  rcases mem_scripts_modify.mp hy with ⟨hu, hy⟩ | ⟨y', rfl, hy', rfl⟩
  · rcases hs u y hy with hy | ⟨hle, body, iterations, hm⟩
    · exact .rests hy rfl rfl rfl (hnone hu) fun h => absurd h (current_ne ht hu)
    · exact .starts body iterations hle hm (hnone hu)
  · rcases hs u y' hy' with hy' | ⟨hle, -⟩
    · obtain rfl := ho.eq_of_mem hx hy'
      exact hf
    · exact absurd (ho.lt hx) (by omega)

include ho ht hx hf in
theorem origin_goes {ev : Event}
    (hs : ∀ u y, (u, y) ∈ s₁.scripts → (u, y) ∈ s.scripts ∨
      s.taskCount ≤ u ∧ ∃ body iterations, y.machine = .start body iterations)
    (hcur : s₁.current = some t) (hev : s.event? x = some ev)
    (hshows : x.machine.Shows x.actor ev (f x).machine) (u : Nat) (y : Execution)
    (hy : (u, y) ∈ (s₁.modifyExecution t f).scripts) :
    Origin s (s₁.modifyExecution t f) [.does t x.actor x.table ev] u y := by
  refine origin_modify ho ht hx hs rfl (fun v me table ev' h => ?_) ?_ u y hy
  · cases List.mem_singleton.mp h
    rfl
  · exact .goes hx (hf x).1 (hf x).2 hcur hev rfl hshows

include ho ht hx hf in
theorem origin_pauses {p : Pause} {next : p.Answer → Machine}
    (hstep : x.machine.step x.actor = .wait p next) (hm : (f x).machine = x.machine)
    (hs' : s'.scripts = (s.modifyExecution t f).scripts) (u : Nat) (y : Execution)
    (hy : (u, y) ∈ s'.scripts) : Origin s s' [] u y := by
  refine origin_modify ho ht hx (fun _ _ => .inl) hs'
    (fun _ _ _ _ h => (List.not_mem_nil h).elim) ?_ u y hy
  refine .rests hx (hf x).1 (hf x).2 hm (fun _ _ _ => List.not_mem_nil) fun _ r k hact => ?_
  obtain ⟨k', hk', -⟩ := Machine.step_wait hstep
  rw [hact] at hk'
  nomatch hk'

include ho ht hx in
theorem origin_stepScript (u : Nat) (y : Execution) (hy : (u, y) ∈ (s.stepScript t x).scripts) :
    Origin s (s.stepScript t x) ((s.event? x).map (.does t x.actor x.table)).toList u y := by
  revert hy
  cases hstep : x.machine.step x.actor with
  | silent m =>
    have hevent : s.event? x = some x.machine.silently := by rw [event?, hstep]
    rw [stepScript, hstep, hevent]
    exact origin_goes (f := fun x => { x with machine := m }) ho ht hx (fun _ => ⟨rfl, rfl⟩)
      (fun _ _ => .inl) ht hevent (.silent hstep) u y
  | finished result =>
    rw [stepScript, event?, hstep]
    intro hy
    rw [scripts_filter (finish_fields s t x result).1] at hy
    obtain ⟨hy, hu⟩ := List.mem_filter.mp hy
    exact .rests hy rfl rfl rfl (fun _ _ _ => List.not_mem_nil) fun h =>
      absurd h (current_ne ht (bne_iff_ne.mp hu))
  | ask r next =>
    have hevent : s.event? x = some (.asks r (s.answer x r).1) := by rw [event?, hstep]
    have hgrown : (∀ u y, (u, y) ∈ (s.answer x r).2.scripts → (u, y) ∈ s.scripts ∨
        s.taskCount ≤ u ∧ ∃ body iterations, y.machine = .start body iterations) ∧
        (s.answer x r).2.current = s.current := by
      rcases answer_cases x s r with ⟨hb, hcur⟩ | ⟨-, c, hc⟩
      · exact ⟨fun _ _ hy => .inl (hb.scripts ▸ hy), hcur⟩
      · rw [hc]
        exact ⟨(grown_dispatch c.perform s).scripts, (grown_dispatch c.perform s).current⟩
    rw [stepScript, hstep, hevent]
    exact origin_goes (f := fun y => { y with machine := next (s.answer x r).1 }) ho ht hx
      (fun _ => ⟨rfl, rfl⟩) hgrown.1 (hgrown.2.trans ht) hevent (.ask _ hstep) u y
  | wait p next =>
    rcases stepScript_wait t s hstep with ⟨hevent, f, hf, hs⟩ | ⟨a, hevent, hs⟩
    · rw [hevent]
      exact origin_pauses ho ht hx (fun y => ⟨(hf y).1, (hf y).2.1⟩) hstep (hf x).2.2
        hs.asBefore.scripts u y
    · rw [hevent, hs]
      have hleave := (reschedules_leave t p s).asBefore.scripts
      exact origin_goes (f := fun x => { x with machine := next a, parked := false }) ho ht hx
        (fun _ => ⟨rfl, rfl⟩) (fun u y hy => .inl (hleave ▸ hy))
        ((leave_current t p s).trans ht) hevent (.wait _ hstep) u y

end Turn

theorem origin_step (ho : s.Orderly) (h : s.step? = some s') (hx' : (t, x') ∈ s'.scripts) :
    Origin s s' s.happening?.toList t x' := by
  simp only [step?] at h
  split at h
  · next u hu =>
    obtain rfl := Option.some.inj h
    by_cases hx : ∃ x, s.task? u = some (.script x)
    · obtain ⟨x, hx⟩ := hx
      simp only [happening?, hu, Option.bind_some, hx]
      rw [stepTask, hx] at hx' ⊢
      exact origin_stepScript ho hu (mem_scripts.mpr (mem_of_task? hx)) t x' hx'
    · have hnone (x : Execution) : (u, x) ∉ s.scripts := fun hm =>
        hx ⟨x, ho.task? (mem_scripts.mp hm)⟩
      have hscript (x : Execution) : s.task? u ≠ some (.script x) := fun h => hx ⟨x, h⟩
      rw [(asBefore_stepTask hscript hnone).scripts] at hx'
      have hnews : s.happening? = none := by
        simp only [happening?, hu, Option.bind_some]
      rw [hnews]
      refine .rests hx' rfl rfl rfl (fun _ _ _ => List.not_mem_nil) fun ht => ?_
      obtain rfl := Option.some.inj (hu.symm.trans ht)
      exact absurd hx' (hnone x')
  · next hu =>
    split at h
    · obtain rfl := Option.some.inj h
      have hnews : s.happening? = none := by simp only [happening?, hu, Option.bind_none]
      rw [hnews]
      exact .rests hx' rfl rfl rfl (fun _ _ _ => List.not_mem_nil) fun ht => by simp [hu] at ht
    · cases h

theorem Chapter.origin (h : Chapter s news s') (ho : s.Orderly) (hx' : (t, x') ∈ s'.scripts) :
    Origin s s' news t x' := by
  -- nobody has the turn, or nothing is done to the variables
  have hkept {news : List Happening} (hnews : ∀ me table ev, .does t me table ev ∉ news)
      (hs : s'.scripts = s.scripts)
      (hcur : s.current = none ∨ s'.current = s.current ∧ s'.memory = s.memory) :
      Origin s s' news t x' := by
    refine .rests (hs ▸ hx') rfl rfl rfl hnews fun ht _ _ _ => ?_
    rcases hcur with hcur | ⟨hcur, hm⟩
    · rw [hcur] at ht
      nomatch ht
    · exact ⟨hcur.trans ht, hm⟩
  cases h with
  | turn h => exact origin_step ho h hx'
  | call c hcur =>
    rcases (grown_dispatch c.perform s).scripts t x' hx' with hx | ⟨hle, body, iterations, hm⟩
    · refine .rests hx rfl rfl rfl (fun _ _ _ => List.not_mem_nil) fun ht => ?_
      rw [hcur] at ht
      nomatch ht
    · exact .starts body iterations hle hm fun _ _ _ => List.not_mem_nil
  | write target edit =>
    exact hkept (by simp) (asBefore_write target edit s).scripts
      (.inr ⟨write_current target edit s, write_memory target edit s⟩)
  | declares r hcur => exact hkept (by simp) rfl (.inl hcur)
  | other h hm =>
    exact hkept (fun _ _ _ => List.not_mem_nil) (by rw [scripts, h.tasks, scripts])
      (.inr ⟨h.current, hm⟩)

/-! ### What the history tells -/

/-- Each execution is where its part of the history leads, and what it read last before it asks for
something is still so. -/
structure Told (H : List Happening) (s : Session) : Prop where
  below : ∀ t me table ev, .does t me table ev ∈ H → t < s.taskCount
  leads : ∀ t x, (t, x) ∈ s.scripts → (tale t H).Leads x.actor x.machine
  reads : ∀ t x r next es v y, (t, x) ∈ s.scripts → x.machine.act = .ask r next →
    (tale t H).events = es ++ [.asks (.read v) y] →
    s.current = some t ∧ s.memory.read x.table v = y

theorem Told.tale_of_le (h : Told H s) (hle : s.taskCount ≤ t) : tale t H = {} := by
  have hnone (me : Actor) (table : Nat) (ev : Event) : .does t me table ev ∉ H := fun hm =>
    absurd (h.below t me table ev hm) (by omega)
  have := tale_append hnone []
  rwa [List.append_nil] at this

theorem event?_asks {r : Request} {a : r.Answer} (h : s.event? x = some (.asks r a)) :
    (∃ next, x.machine.step x.actor = .ask r next) ∧ (s.answer x r).1 = a := by
  simp only [event?] at h
  split at h
  · next m _ =>
    simp only [Machine.silently] at h
    split at h <;> cases h
  · next r next hstep =>
    cases h
    exact ⟨⟨next, hstep⟩, rfl⟩
  · next p next hstep =>
    split at h
    · cases h
    · cases hr : s.result? x p with
      | none => rw [hr] at h; cases h
      | some a => rw [hr] at h; cases h
  · cases h

theorem Story.events_after {h : Story} {ev : Event} {es : List Event} {r : Request} {a : r.Answer}
    (he : (h.after ev).events = es ++ [.asks r a]) : ev = .asks r a := by
  cases ev with
  | begins s => simp [Story.after] at he
  | _ => simpa using (List.append_inj' he rfl).2

/-- Of what scripts go through, a chapter holds one thing at most. -/
theorem Chapter.does {me : Actor} {table : Nat} {ev : Event} (h : Chapter s news s')
    (hm : .does t me table ev ∈ news) : news = [.does t me table ev] ∧ s.current = some t ∧
      ∃ x, (t, x) ∈ s.scripts ∧ x.actor = me ∧ x.table = table ∧ s.event? x = some ev := by
  cases h with
  | turn h =>
    replace hm := Option.mem_toList.mp hm
    refine ⟨by rw [hm]; rfl, ?_⟩
    simp only [happening?] at hm
    obtain ⟨u, hu, hm⟩ := Option.bind_eq_some_iff.mp hm
    split at hm
    · next x hx =>
      obtain ⟨ev', hev, hm⟩ := Option.map_eq_some_iff.mp hm
      cases hm
      exact ⟨hu, x, mem_scripts.mpr (mem_of_task? hx), rfl, rfl, hev⟩
    · nomatch hm
  | call c => nomatch hm
  | write target edit => simp at hm
  | declares r => simp at hm
  | other h => nomatch hm

theorem Told.chapter (h : Told H s) (ho : s.Orderly) (hc : Chapter s news s')
    (hle : s.taskCount ≤ s'.taskCount) : Told (news ++ H) s' where
  below t me table ev hm := by
    rcases List.mem_append.mp hm with hm | hm
    · obtain ⟨-, -, x, hx, -⟩ := hc.does hm
      exact Nat.lt_of_lt_of_le (ho.lt hx) hle
    · exact Nat.lt_of_lt_of_le (h.below t me table ev hm) hle
  leads t x' hx' := by
    cases hc.origin ho hx' with
    | rests hx hactor _ hmachine hnews =>
      rw [tale_append hnews, hactor, hmachine]
      exact h.leads t _ hx
    | goes hx hactor _ _ _ hnews hshows =>
      rw [hnews, List.singleton_append, tale, if_pos rfl, hactor]
      exact hshows.leads (h.leads t _ hx)
    | starts body iterations hlt hmachine hnews =>
      rw [tale_append hnews, h.tale_of_le hlt, hmachine]
      exact Machine.start_leads _ body iterations
  reads t x' r next es v y hx' hact hes := by
    cases hc.origin ho hx' with
    | rests hx hactor htable hmachine hnews hturn =>
      rw [tale_append hnews] at hes
      rw [hmachine] at hact
      obtain ⟨hcur, hread⟩ := h.reads t _ r next es v y hx hact hes
      obtain ⟨hcur', hmemory⟩ := hturn hcur r next hact
      rw [hmemory, htable]
      exact ⟨hcur', hread⟩
    | @goes x ev hx hactor htable hcur hevent hnews =>
      rw [hnews, List.singleton_append, tale, if_pos rfl] at hes
      obtain rfl := Story.events_after hes
      refine ⟨hcur, ?_⟩
      rw [hc.memory, hnews, htable]
      exact (event?_asks hevent).2
    | starts body iterations hlt hmachine hnews =>
      rw [tale_append hnews, h.tale_of_le hlt] at hes
      simp at hes

theorem Chronicle.told (h₀ : Fresh s₀) (h : Chronicle s₀ H s) : Told H s := by
  induction h with
  | refl =>
    refine ⟨fun _ _ _ _ hm => (List.not_mem_nil hm).elim, fun t x hx => ?_,
      fun t x _ _ _ _ _ hx => ?_⟩ <;>
    · rw [scripts, h₀.tasks] at hx
      cases hx
  | next h hc ih =>
    have hr := h.reached h₀
    exact ih.chapter hr.orderly.1 hc (hr.kept hc.deed.move).taskCount

end Session

end Tabletop
