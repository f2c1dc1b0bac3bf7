import Tabletop.Proofs.Execution.Requests

/-! The variables of scripts. Those that a body names are all that an execution of it ever reads or
assigns, whatever it is answered and whatever it waits for. -/

namespace Tabletop

variable {S : Variable → Prop} {me : Actor}

/-! ### What frames and statements name -/

/-- A new frame names such variables only. -/
def Turn.Within (S : Variable → Prop) : Turn → Prop
  | .enter f => ∀ v ∈ f.vars, S v
  | _ => True

theorem Stmt.Assigns.mem_vars {s : Stmt} {v : Variable} (h : s.Assigns v) : v ∈ s.vars := by
  cases s with
  | setVariable | changeVariable =>
    obtain rfl : v = _ := h
    exact .head _
  | _ => cases h

/-- What a statement goes on with names no variable that the statement did not name. -/
theorem Stmt.Gives.within {s : Stmt} {t : Turn} (h : s.Gives t) (hs : ∀ v ∈ s.vars, S v) :
    t.Within S := by
  cases h with
  | next | halt => trivial
  | glide => exact nofun
  | yes => exact fun v hv => hs v (List.mem_append_right _ (List.mem_append_left _ hv))
  | no => exact fun v hv => hs v (List.mem_append_right _ (List.mem_append_right _ hv))
  | repeated => exact fun v hv => hs v (List.mem_append_right _ hv)
  | forever | repeatUntil | waitUntil => exact hs

theorem Frame.Repeats.within {f : Frame} {t : Turn} (h : f.Repeats t) (hf : ∀ v ∈ f.vars, S v) :
    t.Within S := by
  cases h with
  | forever | times => exact hf
  | repeatUntil => exact fun v hv => hf v (List.mem_append_right _ hv)
  | waitUntil => trivial

/-! ### Acts -/

namespace Act

variable {α : Type} {P Q : α → Prop} {a : Act α} {g : Rights}

/-- Every variable that an act reads or assigns is as `S` says, and what it gives is as stated. It
may spend loop iterations. -/
inductive Touches (S : Variable → Prop) (gives : α → Prop) : Act α → Prop where
  | done {a : α} : gives a → Touches S gives (done a)
  | fail {e : ExecError} : Touches S gives (fail e)
  | ask {r : Request} {next : r.Answer → Act α} : (∀ v ∈ r.variable?, S v) →
    (∀ a, Touches S gives (next a)) → Touches S gives (ask r next)
  | wait {p : Pause} {next : p.Answer → Act α} : (∀ a, Touches S gives (next a)) →
    Touches S gives (wait p next)
  | tick {next : Act α} : Touches S gives next → Touches S gives (tick next)

theorem Uses.touches (h : Uses (g.Allow me) P a) (hg : ∀ v, g.reads v ∨ g.assigns v → S v)
    (hP : ∀ x, P x → Q x) : Touches S Q a := by
  induction h with
  | done h => exact .done (hP _ h)
  | fail => exact .fail
  | ask h _ ih => exact .ask (fun v hv => hg v (Rights.reads_or_assigns h hv)) ih
  | wait _ ih => exact .wait ih

theorem LeavesOrSpends.touches {f : Frame} {a : Act Turn} (h : LeavesOrSpends (g.Allow me) f a)
    (hg : ∀ v, g.reads v ∨ g.assigns v → S v) (hf : ∀ v ∈ f.vars, S v) :
    Touches S (Turn.Within S) a := by
  induction h with
  | leave => exact .done trivial
  | fail => exact .fail
  | ask h _ ih => exact .ask (fun v hv => hg v (Rights.reads_or_assigns h hv)) ih
  | wait _ ih => exact .wait ih
  | spend h => exact .tick (h.touches hg fun _ ht => ht.within hf)

end Act

open Act

/-- What is left after the next piece of a frame names no variable that the frame did not name. -/
theorem Frame.resume_within {f left : Frame} {act : Act Turn} (hf : f.resume me = some (left, act))
    (h : ∀ v ∈ f.vars, S v) :
    (∀ v ∈ left.vars, S v) ∧ act.Touches S (Turn.Within S) := by
  cases f with
  | block stmts =>
    cases stmts with
    | nil => nomatch hf
    | cons s rest =>
      obtain ⟨hs, hrest⟩ := List.forall_mem_append.mp h
      obtain ⟨rfl, huses⟩ := uses_block hf
      refine ⟨hrest, huses.uses.touches (fun v hv => hs v ?_) fun _ ht => ht.within hs⟩
      exact hv.elim id Stmt.Assigns.mem_vars
  | glide g =>
    obtain ⟨rfl, huses⟩ := uses_glide hf
    refine ⟨h, huses.uses.touches (fun v hv => h v (hv.elim id False.elim)) ?_⟩
    rintro _ (rfl | rfl) <;> trivial
  | _ =>
    obtain ⟨-, hvars, hact⟩ := leavesOrSpends_resume hf rfl
    rw [← hvars] at h
    exact ⟨h, hact.touches (fun v hv => h v (hv.elim id False.elim)) h⟩

/-! ### Executions -/

namespace Machine

/-- All variables that a machine may still come to are as `S` says. -/
structure Within (S : Variable → Prop) (m : Machine) : Prop where
  act : m.act.Touches S (Turn.Within S)
  stack : ∀ f ∈ m.stack, ∀ v ∈ f.vars, S v

/-- The machines that a machine comes to, whatever it is answered. -/
inductive Reaches (me : Actor) (m : Machine) : Machine → Prop where
  | here : Reaches me m m
  | silent {m₁ m₂ : Machine} : Reaches me m m₁ → m₁.step me = .silent m₂ → Reaches me m m₂
  | asked {m₁ : Machine} {r : Request} {next : r.Answer → Machine} (a : r.Answer) :
    Reaches me m m₁ → m₁.step me = .ask r next → Reaches me m (next a)
  | waited {m₁ : Machine} {p : Pause} {next : p.Answer → Machine} (a : p.Answer) :
    Reaches me m m₁ → m₁.step me = .wait p next → Reaches me m (next a)

variable {m : Machine}

/-- What a step of a machine may come to. -/
def StepWithin (S : Variable → Prop) : Step → Prop
  | .silent m => m.Within S
  | .ask r next => (∀ v ∈ r.variable?, S v) ∧ ∀ a, (next a).Within S
  | .wait _ next => ∀ a, (next a).Within S
  | .finished _ => True

theorem unwind_within {guard : LoopGuard} {stack : List Frame}
    (h : ∀ f ∈ stack, ∀ v ∈ f.vars, S v) : StepWithin S (unwind me guard stack) := by
  cases stack with
  | nil => trivial
  | cons f rest =>
    obtain ⟨hf, hrest⟩ := List.forall_mem_cons.mp h
    simp only [unwind]
    split
    · next left act hres =>
      obtain ⟨hleft, hact⟩ := Frame.resume_within hres hf
      exact ⟨hact, List.forall_mem_cons.mpr ⟨hleft, hrest⟩⟩
    · exact ⟨.done trivial, hrest⟩

theorem Within.step (h : m.Within S) : StepWithin S (m.step me) := by
  obtain ⟨guard, act, stack⟩ := m
  obtain ⟨hact, hstack⟩ := h
  cases hact with
  | @done turn ht =>
    cases turn with
    | next => exact unwind_within hstack
    | enter f => exact unwind_within (List.forall_mem_cons.mpr ⟨ht, hstack⟩)
    | leave => exact unwind_within fun f hf => hstack f (List.mem_of_mem_tail hf)
    | halt => trivial
  | fail => trivial
  | ask hr hnext => exact ⟨hr, fun a => ⟨hnext a, hstack⟩⟩
  | wait hnext => exact fun a => ⟨hnext a, hstack⟩
  | tick hnext =>
    simp only [Machine.step]
    split
    · exact ⟨hnext, hstack⟩
    · trivial

theorem Within.reaches {m' : Machine} (h : m.Within S) (hm : Reaches me m m') : m'.Within S := by
  induction hm with
  | here => exact h
  | silent _ hstep ih =>
    have : StepWithin S (Machine.step me _) := ih.step
    rwa [hstep] at this
  | asked a _ hstep ih =>
    have : StepWithin S (Machine.step me _) := ih.step
    rw [hstep] at this
    exact this.2 a
  | waited a _ hstep ih =>
    have : StepWithin S (Machine.step me _) := ih.step
    rw [hstep] at this
    exact this a

/-- An execution reads and assigns no variable that its script does not name. -/
theorem mem_vars_of_asks {body : List Stmt} {iterations : Nat} {r : Request}
    {next : r.Answer → Machine} (hm : Reaches me (start body iterations) m)
    (hstep : m.step me = .ask r next) {v : Variable} (hv : r.variable? = some v) :
    v ∈ Stmt.varsIn body := by
  have hstart : (start body iterations).Within (· ∈ Stmt.varsIn body) :=
    ⟨.ask nofun fun cancelled => by cases cancelled <;> constructor; trivial, by
      simp [start, Frame.vars]⟩
  have : StepWithin (· ∈ Stmt.varsIn body) (m.step me) := (hstart.reaches hm).step
  rw [hstep] at this
  exact this.1 v hv

end Machine

end Tabletop
