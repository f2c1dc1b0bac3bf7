import Tabletop.Proofs.Execution.Requests

/-! How a machine goes on once its execution was cancelled, whatever it gets for answers. A quiet
machine stays quiet; one about to delete an object deletes it, and that is the end of it. -/

namespace Tabletop

open Act

namespace Machine

variable {me : Actor} {m m' : Machine}

abbrev Proper (m : Machine) : Prop := m.act.Proper

abbrev Quiet (m : Machine) : Prop := m.act.Quiet fun _ => True

/-- A machine that is left with a deletion, which it may still wait for. -/
def Deleting (m : Machine) : Prop := ∃ id windows, m.act = deletion id .halt windows

theorem start_guarded (body : List Stmt) (iterations : Nat) :
    (start body iterations).Quiet ∧ (start body iterations).Proper :=
  ⟨quiet_check.stops, careful_check.andThen fun _ => .done⟩

/-! ### Steps -/

/-- What comes after a statement is a frame, or nothing. -/
theorem unwind_cases (guard : LoopGuard) (stack : List Frame) :
    unwind me guard stack = .finished (.ok ()) ∨
      ∃ m', unwind me guard stack = .silent m' ∧ m'.Quiet ∧ m'.Proper := by
  cases stack with
  | nil => exact .inl rfl
  | cons f rest =>
    right
    simp only [unwind]
    cases h : f.resume me with
    | none => exact ⟨_, rfl, .done trivial, .done⟩
    | some p => exact ⟨_, rfl, Frame.resume_guarded h⟩

theorem step_done (me : Actor) {t : Turn} (h : m.act = .done t) :
    (∃ result, m.step me = .finished result) ∨
      ∃ m', m.step me = .silent m' ∧ m'.Quiet ∧ m'.Proper := by
  obtain ⟨guard, act, stack⟩ := m
  cases h
  cases t with
  | halt => exact .inl ⟨_, rfl⟩
  | next => exact (unwind_cases guard stack).imp (⟨_, ·⟩) id
  | enter f => exact (unwind_cases guard (f :: stack)).imp (⟨_, ·⟩) id
  | leave => exact (unwind_cases guard stack.tail).imp (⟨_, ·⟩) id

theorem step_silent (h : m.step me = .silent m') :
    (m'.Quiet ∧ m'.Proper) ∨ m.act = .tick m'.act := by
  cases hact : m.act with
  | done t =>
    obtain ⟨_, h'⟩ | ⟨_, h', hm⟩ := step_done me hact <;> rw [h] at h' <;> cases h'
    exact .inl hm
  | fail e => simp [step, hact] at h
  | ask r next => simp [step, hact] at h
  | wait p next => simp [step, hact] at h
  | tick next =>
    simp only [step, hact] at h
    split at h <;> cases h
    exact .inr rfl

theorem step_ask {r : Request} {next : r.Answer → Machine} (h : m.step me = .ask r next) :
    ∃ k, m.act = .ask r k ∧ ∀ a, (next a).act = k a := by
  cases hact : m.act with
  | done t => obtain ⟨_, h'⟩ | ⟨_, h', -⟩ := step_done me hact <;> rw [h] at h' <;> cases h'
  | fail e => simp [step, hact] at h
  | ask r k =>
    simp only [step, hact] at h
    cases h
    exact ⟨k, rfl, fun _ => rfl⟩
  | wait p k => simp [step, hact] at h
  | tick k => simp only [step, hact] at h; split at h <;> cases h

theorem step_wait {p : Pause} {next : p.Answer → Machine} (h : m.step me = .wait p next) :
    ∃ k, m.act = .wait p k ∧ ∀ a, (next a).act = k a := by
  cases hact : m.act with
  | done t => obtain ⟨_, h'⟩ | ⟨_, h', -⟩ := step_done me hact <;> rw [h] at h' <;> cases h'
  | fail e => simp [step, hact] at h
  | ask r k => simp [step, hact] at h
  | wait p k =>
    simp only [step, hact] at h
    cases h
    exact ⟨k, rfl, fun _ => rfl⟩
  | tick k => simp only [step, hact] at h; split at h <;> cases h

/-! ### What steps keep -/

theorem Proper.silent (hm : m.Proper) (h : m.step me = .silent m') : m'.Proper := by
  obtain ⟨-, hp⟩ | htick := step_silent h
  · exact hp
  · rw [Proper, htick] at hm
    exact hm.of_tick

theorem Quiet.silent (hm : m.Quiet) (h : m.step me = .silent m') : m'.Quiet := by
  obtain ⟨hq, -⟩ | htick := step_silent h
  · exact hq
  · rw [Machine.Quiet, htick] at hm
    cases hm with
    | tick h => exact h

theorem Proper.ask {r : Request} {next : r.Answer → Machine} (hm : m.Proper)
    (h : m.step me = .ask r next) :
    ∀ a, (next a).Proper ∧ (r.cancels = true → (next a).Quiet) := by
  obtain ⟨k, hk, hnext⟩ := step_ask h
  rw [Proper, hk] at hm
  intro a
  rw [Proper, Machine.Quiet, hnext]
  exact ⟨hm.of_ask.1 a, fun hc => hm.of_ask.2 hc a⟩

theorem Quiet.ask {r : Request} {next : r.Answer → Machine} (hm : m.Quiet)
    (h : m.step me = .ask r next) :
    r.isEffect = false ∧ ∀ a, r.OnceCancelled a → (next a).Quiet := by
  obtain ⟨k, hk, hnext⟩ := step_ask h
  rw [Machine.Quiet, hk] at hm
  cases hm with
  | ask he hq => exact ⟨he, fun a ha => by rw [Machine.Quiet, hnext]; exact hq a ha⟩

theorem Proper.wait {p : Pause} {next : p.Answer → Machine} (hm : m.Proper)
    (h : m.step me = .wait p next) : (∀ a, (next a).Proper) ∧ (m.Quiet ∨ m.Deleting) := by
  obtain ⟨k, hk, hnext⟩ := step_wait h
  rw [Proper, hk] at hm
  refine ⟨fun a => by rw [Proper, hnext]; exact hm.of_wait.1 a, ?_⟩
  rcases hm.of_wait.2 with hq | ⟨id, v, windows, rfl, hact⟩
  · left; rw [Machine.Quiet, hk]; exact hq
  · exact .inr ⟨id, windows, hk.trans hact⟩

theorem Quiet.wait {p : Pause} {next : p.Answer → Machine} (hm : m.Quiet)
    (h : m.step me = .wait p next) : ∀ a, (next a).Quiet := by
  obtain ⟨k, hk, hnext⟩ := step_wait h
  rw [Machine.Quiet, hk] at hm
  cases hm with
  | wait hq => exact fun a => by rw [Machine.Quiet, hnext]; exact hq a

/-! ### Once cancelled -/

/-- One step of a machine, with any answer that it may get. -/
inductive GoesOn (me : Actor) (cancelled : Bool) : Machine → Machine → Prop where
  | silent {m m' : Machine} : m.step me = .silent m' → GoesOn me cancelled m m'
  | ask {m : Machine} {r : Request} {next : r.Answer → Machine} {a : r.Answer} :
    m.step me = .ask r next → (cancelled = true → r.OnceCancelled a) →
    GoesOn me cancelled m (next a)
  | wait {m : Machine} {p : Pause} {next : p.Answer → Machine} {a : p.Answer} :
    m.step me = .wait p next → GoesOn me cancelled m (next a)

theorem Proper.goesOn {cancelled : Bool} (hm : m.Proper) (h : GoesOn me cancelled m m') :
    m'.Proper := by
  cases h with
  | silent h => exact hm.silent h
  | ask h _ => exact (hm.ask h _).1
  | wait h => exact (hm.wait h).1 _

theorem Quiet.goesOn (hm : m.Quiet) (h : GoesOn me true m m') : m'.Quiet := by
  cases h with
  | silent h => exact hm.silent h
  | ask h ha => exact (hm.ask h).2 _ (ha rfl)
  | wait h => exact hm.wait h _

/-- A deletion either deletes now, and ends with that, or waits for a flush. -/
theorem Deleting.cases (hm : m.Deleting) :
    (∃ id, m.act = .ask (.delete id) fun _ => .done .halt) ∨
      ∃ window next, m.act = .wait (.flushed window) next ∧
        (∃ id rest, next (.ok ()) = deletion id .halt rest) ∧
        ∀ e, next (.error e) = .fail (.host e) := by
  obtain ⟨id, windows, hact⟩ := hm
  cases windows with
  | nil => exact .inl ⟨id, hact⟩
  | cons window rest =>
    obtain ⟨next, hnext, hok, herror⟩ := deletion_cons id Turn.halt window rest
    exact .inr ⟨window, next, hact.trans hnext, ⟨id, rest, hok⟩, herror⟩

theorem Deleting.ask {r : Request} {next : r.Answer → Machine} (hm : m.Deleting)
    (h : m.step me = .ask r next) :
    (∃ id, r = .delete id) ∧ ∀ a, (next a).act = .done .halt := by
  obtain ⟨k, hk, hnext⟩ := step_ask h
  obtain ⟨id, hact⟩ | ⟨window, k', hact, -⟩ := hm.cases
  · cases hk.symm.trans hact
    exact ⟨⟨id, rfl⟩, hnext⟩
  · nomatch hk.symm.trans hact

theorem Deleting.wait {p : Pause} {next : p.Answer → Machine} (hm : m.Deleting)
    (h : m.step me = .wait p next) : ∀ a, (next a).Deleting ∨ (next a).Quiet := by
  obtain ⟨k, hk, hnext⟩ := step_wait h
  obtain ⟨id, hact⟩ | ⟨window, k', hact, ⟨id, rest, hok⟩, herror⟩ := hm.cases
  · nomatch hk.symm.trans hact
  · cases hk.symm.trans hact
    intro result
    cases result with
    | error e => right; rw [Machine.Quiet, hnext, herror]; exact .fail
    | ok _ => exact .inl ⟨id, rest, (hnext _).trans hok⟩

/-- What is left with a deletion still has an effect. -/
theorem Deleting.not_quiet (hm : m.Deleting) : ¬m.Quiet := by
  obtain ⟨id, windows, hact⟩ := hm
  rw [Machine.Quiet, hact]
  clear hact
  induction windows with
  | nil =>
    intro hq
    cases hq with
    | ask he _ => nomatch he
  | cons window rest ih =>
    obtain ⟨next, hnext, hok, -⟩ := deletion_cons id Turn.halt window rest
    rw [hnext]
    intro hq
    cases hq with
    | wait hq => exact ih (hok ▸ hq (.ok ()))

theorem Deleting.not_silent (hm : m.Deleting) : m.step me ≠ .silent m' := by
  intro h
  obtain ⟨id, hact⟩ | ⟨window, k, hact, -⟩ := hm.cases <;> simp [step, hact] at h

theorem Deleting.goesOn (hm : m.Deleting) (h : GoesOn me true m m') : m'.Deleting ∨ m'.Quiet := by
  cases h with
  | silent h => exact absurd h hm.not_silent
  | ask h _ => right; rw [Machine.Quiet, (hm.ask h).2]; exact .done trivial
  | wait h => exact hm.wait h _

end Machine

end Tabletop
