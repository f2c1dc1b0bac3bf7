import Tabletop.Proofs.Execution.Loops

/-! What executions go through. The answers that an act got, in their order, settle where it is; so
what a machine went through since it began the piece at hand settles what it does next. -/

namespace Tabletop

/-- What an execution goes through. -/
inductive Event where
  /-- It goes on with another piece of its script: a statement, or what there is between two. -/
  | begins (s : Option Stmt)
  | asks (r : Request) (a : r.Answer)
  | waits (p : Pause) (a : p.Answer)
  /-- It spends a loop iteration. -/
  | spends

/-! ### Acts -/

namespace Act

variable {α β : Type} {a b c : Act α} {es fs : List Event} {ev : Event}

/-- An event takes an act on. -/
inductive Takes : Act α → Event → Act α → Prop where
  | ask {r : Request} {next : r.Answer → Act α} (x : r.Answer) :
    Takes (ask r next) (.asks r x) (next x)
  | wait {p : Pause} {next : p.Answer → Act α} (x : p.Answer) :
    Takes (wait p next) (.waits p x) (next x)
  | tick {next : Act α} : Takes (tick next) .spends next

/-- Through some events an act comes to another. -/
inductive Comes : Act α → List Event → Act α → Prop where
  | refl {a : Act α} : Comes a [] a
  | head {a b c : Act α} {ev : Event} {es : List Event} : a.Takes ev b → Comes b es c →
    Comes a (ev :: es) c

theorem Takes.eq (h : a.Takes ev b) (h' : a.Takes ev c) : b = c := by
  cases h <;> cases h' <;> rfl

theorem Takes.ne_done (h : a.Takes ev b) (x : α) : a ≠ done x := by
  cases h <;> nofun

theorem Takes.ne_begins (h : a.Takes ev b) (s : Option Stmt) : ev ≠ .begins s := by
  cases h <;> nofun

theorem Comes.tail (h : a.Comes es b) (h' : b.Takes ev c) : a.Comes (es ++ [ev]) c := by
  induction h with
  | refl => exact .head h' .refl
  | head ht _ ih => exact .head ht (ih h')

/-- What each event keeps of an act holds wherever the act comes to. -/
theorem Comes.keeps {P : Act α → Prop} (hes : a.Comes es b)
    (hstep : ∀ {a b : Act α} {ev : Event}, a.Takes ev b → P a → P b) (h : P a) : P b := by
  induction hes with
  | refl => exact h
  | head ht _ ih => exact ih (hstep ht h)

theorem Takes.uses {may : Request → Prop} {P : α → Prop} (ht : a.Takes ev b) (h : Uses may P a) :
    Uses may P b := by
  cases ht with
  | ask x =>
    cases h with
    | ask _ h => exact h x
  | wait x =>
    cases h with
    | wait h => exact h x
  | tick => nomatch h

theorem Uses.comes {may : Request → Prop} {P : α → Prop} (h : Uses may P a) (hes : a.Comes es b) :
    Uses may P b :=
  hes.keeps Takes.uses h

theorem Uses.gives {may : Request → Prop} {P : α → Prop} {x : α} (h : Uses may P a)
    (hes : a.Comes es (.done x)) : P x := by
  cases h.comes hes with
  | done h => exact h

/-- The same events lead to the same act. -/
theorem Comes.eq (h : a.Comes es b) (h' : a.Comes es c) : b = c := by
  induction h with
  | refl => cases h'; rfl
  | head ht _ ih =>
    cases h' with
    | head ht' h' =>
      obtain rfl := ht.eq ht'
      exact ih h'

theorem comes_append : a.Comes (es ++ fs) c ↔ ∃ b, a.Comes es b ∧ b.Comes fs c := by
  constructor
  · intro h
    induction es generalizing a with
    | nil => exact ⟨a, .refl, h⟩
    | cons ev es ih =>
      cases h with
      | head ht h =>
        obtain ⟨b, hb, hc⟩ := ih h
        exact ⟨b, .head ht hb, hc⟩
  · rintro ⟨b, hb, hc⟩
    induction hb with
    | refl => exact hc
    | head ht _ ih => exact .head ht (ih hc)

theorem comes_done {x : α} : (done x).Comes es b ↔ es = [] ∧ b = done x := by
  constructor
  · intro h
    cases h with
    | refl => exact ⟨rfl, rfl⟩
    | head ht _ => nomatch ht
  · rintro ⟨rfl, rfl⟩
    exact .refl

/-- An act that is done is done for good. -/
theorem Comes.length_le {x : α} (h : a.Comes es (done x)) (h' : a.Comes fs b) (hp : es <+: fs) :
    es = fs ∧ b = done x := by
  obtain ⟨gs, rfl⟩ := hp
  obtain ⟨a', ha', hb⟩ := comes_append.mp h'
  obtain rfl := ha'.eq h
  obtain ⟨rfl, rfl⟩ := comes_done.mp hb
  exact ⟨(List.append_nil es).symm, rfl⟩

theorem Takes.bind {f : α → Act β} {d : Act β} (h : (a >>= f).Takes ev d) :
    (∃ b, a.Takes ev b ∧ d = b >>= f) ∨ ∃ x, a = done x := by
  cases a with
  | done x => exact .inr ⟨x, rfl⟩
  | fail e => cases h
  | ask r next =>
    cases h with
    | ask x => exact .inl ⟨_, .ask x, rfl⟩
  | wait p next =>
    cases h with
    | wait x => exact .inl ⟨_, .wait x, rfl⟩
  | tick next =>
    cases h with
    | tick => exact .inl ⟨_, .tick, rfl⟩

/-- What comes after another act is on the way there, or that act is done before it. -/
theorem comes_bind {f : α → Act β} {d : Act β} (h : (a >>= f).Comes es d) :
    (∃ b, a.Comes es b ∧ d = b >>= f) ∨
    ∃ x es₁ es₂, es = es₁ ++ es₂ ∧ a.Comes es₁ (done x) ∧ (f x).Comes es₂ d := by
  induction es generalizing a with
  | nil =>
    cases h
    exact .inl ⟨a, .refl, rfl⟩
  | cons ev es ih =>
    cases h with
    | head ht h =>
      rcases ht.bind with ⟨b, hb, rfl⟩ | ⟨x, rfl⟩
      · rcases ih h with ⟨c, hc, hd⟩ | ⟨x, es₁, es₂, rfl, hx, hd⟩
        · exact .inl ⟨c, .head hb hc, hd⟩
        · exact .inr ⟨x, ev :: es₁, es₂, rfl, .head hb hx, hd⟩
      · exact .inr ⟨x, [], ev :: es, rfl, .refl, .head ht h⟩

/-- What an act comes to after another one that must be done there. -/
theorem comes_past {f : α → Act β} {d : Act β} (hes : (a >>= f).Comes es d)
    (hd : ∀ b, a.Comes es b → d = b >>= f → ∃ x, b = done x) :
    ∃ x es₁ es₂, es = es₁ ++ es₂ ∧ a.Comes es₁ (done x) ∧ (f x).Comes es₂ d := by
  rcases comes_bind hes with ⟨b, hb, heq⟩ | hover
  · obtain ⟨x, rfl⟩ := hd b hb heq
    exact ⟨x, es, [], (List.append_nil es).symm, hb, heq ▸ .refl⟩
  · exact hover

/-- An act is done before something is asked for that it may not ask for. -/
theorem Uses.past {may : Request → Prop} {P : α → Prop} {f : α → Act β} {r : Request}
    {next : r.Answer → Act β} (h : Uses may P a) (hr : ¬may r)
    (hes : (a >>= f).Comes es (Act.ask r next)) : ∃ x es₁ es₂, es = es₁ ++ es₂ ∧
      a.Comes es₁ (Act.done x) ∧ (f x).Comes es₂ (Act.ask r next) := by
  refine comes_past hes fun b hb heq => ?_
  cases h.comes hb with
  | @done x => exact ⟨x, rfl⟩
  | ask hmay _ =>
    cases heq
    exact absurd hmay hr
  | _ => nomatch heq

theorem Comes.past {f : α → Act β} {y : β} (hes : (a >>= f).Comes es (done y)) :
    ∃ x es₁ es₂, es = es₁ ++ es₂ ∧ a.Comes es₁ (done x) ∧ (f x).Comes es₂ (done y) := by
  refine comes_past hes fun b _ heq => ?_
  cases b with
  | done x => exact ⟨x, rfl⟩
  | _ => nomatch heq

theorem comes_ask_done {r : Request} {next : r.Answer → Act α} {y : α}
    (h : (ask r next).Comes es (done y)) :
    ∃ x es', es = .asks r x :: es' ∧ (next x).Comes es' (done y) := by
  cases h with
  | head ht h =>
    cases ht with
    | ask x => exact ⟨x, _, rfl, h⟩

theorem check_bind (f : Unit → Act β) : (check >>= f) =
    ask .cancelled fun cancelled => if cancelled then fail .cancelled else f () := by
  show ask .cancelled _ = _
  congr 1
  funext cancelled
  cases cancelled <;> rfl

theorem comes_check_done {f : Unit → Act β} {y : β} (h : (check >>= f).Comes es (done y)) :
    ∃ es', es = .asks .cancelled false :: es' ∧ (f ()).Comes es' (done y) := by
  rw [check_bind] at h
  obtain ⟨cancelled, es', rfl, hnext⟩ := comes_ask_done h
  cases cancelled with
  | false => exact ⟨es', rfl, hnext⟩
  | true =>
    cases hnext with
    | head ht _ => nomatch ht

end Act

/-! ### Machines -/

/-- The statement that is next in some frames. -/
def Frame.statement? : List Frame → Option Stmt
  | .block (s :: _) :: _ => some s
  | _ => none

/-- The act that a piece of a script begins with: that of a statement, the check before the first
one, what a loop or a glide goes on with, or nothing where a frame is done. -/
inductive Piece (me : Actor) : Option Stmt → Act Turn → Prop where
  | statement (s : Stmt) : Piece me (some s) (do Act.check; s.perform me)
  | start : Piece me none (do Act.check; return .next)
  | frame {f left : Frame} {act : Act Turn} : (∀ stmts, f ≠ .block stmts) →
    f.resume me = some (left, act) → Piece me none act
  | done : Piece me none (.done .next)

/-- What an execution went through since it began the piece at hand. -/
structure Story where
  statement : Option Stmt := none
  events : List Event := []

namespace Story

def after (h : Story) : Event → Story
  | .begins s => ⟨s, []⟩
  | ev => { h with events := h.events ++ [ev] }

/-- A machine is where a story leads. -/
def Leads (me : Actor) (h : Story) (m : Machine) : Prop :=
  ∃ act, Piece me h.statement act ∧ act.Comes h.events m.act

end Story

namespace Machine

variable {me : Actor} {m m' : Machine} {ev : Event}

/-- What a machine goes through when it takes a step that asks nothing. -/
def silently (m : Machine) : Event :=
  match m.act with
  | .done t => .begins (Frame.statement? (t.framesAfter m.stack))
  | _ => .spends

/-- A step of a machine, as an event. -/
inductive Shows (me : Actor) (m : Machine) : Event → Machine → Prop where
  | silent {m' : Machine} : m.step me = .silent m' → Shows me m m.silently m'
  | ask {r : Request} {next : r.Answer → Machine} (a : r.Answer) : m.step me = .ask r next →
    Shows me m (.asks r a) (next a)
  | wait {p : Pause} {next : p.Answer → Machine} (a : p.Answer) : m.step me = .wait p next →
    Shows me m (.waits p a) (next a)

theorem piece_unwind {guard : LoopGuard} {stack : List Frame}
    (h : unwind me guard stack = .silent m') : Piece me (Frame.statement? stack) m'.act := by
  cases stack with
  | nil => cases h
  | cons f rest =>
    simp only [unwind] at h
    cases hf : f.resume me with
    | none =>
      rw [hf] at h
      cases h
      have hnone : Frame.statement? (f :: rest) = none := by
        cases f with
        | block stmts =>
          cases stmts with
          | nil => rfl
          | cons s stmts => cases hf
        | _ => rfl
      rw [hnone]
      exact .done
    | some p =>
      obtain ⟨left, act⟩ := p
      rw [hf] at h
      cases h
      cases f with
      | block stmts =>
        cases stmts with
        | nil => cases hf
        | cons s stmts =>
          cases hf
          exact .statement s
      | _ =>
        refine .frame ?_ hf
        intro stmts h
        cases h

/-- A step turns to another piece, or takes the act at hand on and leaves the frames as they are. -/
theorem Shows.turns (h : m.Shows me ev m') :
    (∃ t, m.act = .done t ∧ ev = .begins (Frame.statement? (t.framesAfter m.stack)) ∧
      unwind me m.guard (t.framesAfter m.stack) = .silent m') ∨
    m.act.Takes ev m'.act ∧ m'.stack = m.stack := by
  obtain ⟨guard, act, stack⟩ := m
  cases act with
  | done t =>
    cases h with
    | silent h => exact .inl ⟨t, rfl, rfl, (step_turn rfl).symm.trans h⟩
    | ask _ h => obtain ⟨k, hk, -⟩ := step_ask h; nomatch hk
    | wait _ h => obtain ⟨k, hk, -⟩ := step_wait h; nomatch hk
  | fail e =>
    cases h with
    | silent h => nomatch h
    | ask _ h => nomatch h
    | wait _ h => nomatch h
  | ask r k =>
    cases h with
    | silent h => nomatch h
    | ask a h => cases h; exact .inr ⟨.ask a, rfl⟩
    | wait _ h => nomatch h
  | wait p k =>
    cases h with
    | silent h => nomatch h
    | ask _ h => nomatch h
    | wait a h => cases h; exact .inr ⟨.wait a, rfl⟩
  | tick next =>
    obtain ⟨_ | n⟩ := guard
    · cases h with
      | silent h => nomatch h
      | ask _ h => nomatch h
      | wait _ h => nomatch h
    · cases h with
      | silent h => cases h; exact .inr ⟨.tick, rfl⟩
      | ask _ h => nomatch h
      | wait _ h => nomatch h

/-- A step begins a piece, or takes the act at hand on. -/
theorem Shows.cases (h : Shows me m ev m') :
    (∃ s, ev = .begins s ∧ Piece me s m'.act) ∨ m.act.Takes ev m'.act := by
  obtain ⟨t, -, rfl, hunwind⟩ | ⟨ht, -⟩ := h.turns
  · exact .inl ⟨_, rfl, piece_unwind hunwind⟩
  · exact .inr ht

theorem start_leads (me : Actor) (body : List Stmt) (iterations : Nat) :
    Story.Leads me {} (start body iterations) :=
  ⟨_, .start, .refl⟩

/-- The story of a machine goes on with each of its steps. -/
theorem Shows.leads {h : Story} (hs : Shows me m ev m') (hm : h.Leads me m) :
    (h.after ev).Leads me m' := by
  rcases hs.cases with ⟨s, rfl, hp⟩ | ht
  · exact ⟨_, hp, .refl⟩
  · obtain ⟨act, hact, hcomes⟩ := hm
    have hafter : h.after ev = { h with events := h.events ++ [ev] } := by
      cases ev with
      | begins s => exact absurd rfl (ht.ne_begins s)
      | _ => rfl
    rw [hafter]
    exact ⟨act, hact, hcomes.tail ht⟩

theorem Shows.goesOn (hs : m.Shows me ev m') : GoesOn me false m m' := by
  cases hs with
  | silent h => exact .silent h
  | ask a h => exact .ask h nofun
  | wait a h => exact .wait h

/-! ### Runs -/

/-- The steps on the way from a machine to another, whatever it is answered: the machine that takes
each one, and what it goes through. -/
inductive Trace (me : Actor) : Machine → List (Machine × Event) → Machine → Prop where
  | nil {m : Machine} : Trace me m [] m
  | cons {m m₁ m' : Machine} {ev : Event} {steps : List (Machine × Event)} : m.Shows me ev m₁ →
    Trace me m₁ steps m' → Trace me m ((m, ev) :: steps) m'

theorem Trace.append {m₁ : Machine} {steps steps' : List (Machine × Event)}
    (h : Trace me m steps m₁) (h' : Trace me m₁ steps' m') : Trace me m (steps ++ steps') m' := by
  induction h with
  | nil => exact h'
  | cons hs _ ih => exact .cons hs (ih h')

theorem countP_cons (p : Machine → Bool) (m : Machine) (ev : Event)
    (steps : List (Machine × Event)) :
    ((m, ev) :: steps).countP (p ·.1) = steps.countP (p ·.1) + (p m).toNat := by
  rw [List.countP_cons]
  cases p m <;> rfl

/-- A machine stays in the act at hand, or comes to the turn that the act gives. -/
theorem Trace.cases {steps : List (Machine × Event)} (ht : Trace me m steps m') :
    m.act.Comes (steps.map Prod.snd) m'.act ∧ m'.stack = m.stack ∨
    ∃ before x ev after t, steps = before ++ (x, ev) :: after ∧
      m.act.Comes (before.map Prod.snd) (.done t) ∧ x.act = .done t ∧ x.stack = m.stack ∧
      Trace me x ((x, ev) :: after) m' ∧ ∀ s ∈ before, ∀ t, s.1.act ≠ .done t := by
  induction ht with
  | nil => exact .inl ⟨.refl, rfl⟩
  | @cons m m₁ m' ev steps hs hrest ih =>
    obtain ⟨t, hact, -⟩ | ⟨htakes, hstack⟩ := hs.turns
    · exact .inr ⟨[], m, ev, steps, t, rfl, hact ▸ .refl, hact, rfl, .cons hs hrest,
        List.forall_mem_nil _⟩
    · obtain ⟨hcomes, hstack'⟩ | ⟨before, x, ev', after, t, rfl, hcomes, hx, hxstack, hxt, hnone⟩ :=
        ih
      · exact .inl ⟨.head htakes hcomes, hstack'.trans hstack⟩
      · exact .inr ⟨(m, ev) :: before, x, ev', after, t, rfl, .head htakes hcomes, hx,
          hxstack.trans hstack, hxt, List.forall_mem_cons.mpr ⟨htakes.ne_done, hnone⟩⟩

end Machine

end Tabletop
