import Mathlib.Algebra.GroupWithZero.Nat
import Tabletop.Proofs.Execution.Stopping

/-! The pace of a machine: which loop iterations it has paid for, and how much it may do before it
has to pay for another one. What is left to do has a weight, which every turn from one piece of it to
the next makes less; only an iteration gives new weight, at most as much as the script has. -/

namespace Tabletop

open Act

/-! ### Weights -/

namespace Stmt

mutual

/-- The weight of a statement: more than that of any frame that it leaves. -/
def weight : Stmt → Nat
  | ifElse _ yes no => 2 + max (weightIn yes) (weightIn no)
  | forever body => 3 + weightIn body
  | repeated _ body => 3 + weightIn body
  | repeatUntil _ body => 3 + weightIn body
  | effect _ | waitUntil _ => 2
  | setVariable .. | changeVariable .. | wait _ | broadcast .. | stop _ => 1

def weightIn : List Stmt → Nat
  | [] => 0
  | s :: rest => s.weight + weightIn rest

end

end Stmt

namespace Frame

/-- The weight of a frame. A loop is heavier than its body. -/
def weight : Frame → Nat
  | block rest => 1 + Stmt.weightIn rest
  | forever body | times _ body | repeatUntil _ body => 2 + Stmt.weightIn body
  | waitUntil _ | glide _ => 1

/-- Whether other frames may come above a frame. -/
def isBase : Frame → Bool
  | waitUntil _ | glide _ => false
  | _ => true

theorem weight_pos (f : Frame) : 0 < f.weight := by
  cases f <;> simp only [weight] <;> omega

end Frame

/-- Whether a glide is on top. -/
def Frame.glidesOn : List Frame → Bool
  | .glide _ :: _ => true
  | _ => false

/-- The weight of all that is left to do. -/
def Frame.weightOf (stack : List Frame) : Nat := (stack.map Frame.weight).sum

namespace Turn

/-- What a turn adds to the weight of the frames. -/
def weight : Turn → Nat
  | next => 1
  | enter f => 1 + f.weight
  | leave | halt => 0

/-- The frames after a turn. -/
def framesAfter : Turn → List Frame → List Frame
  | next, stack => stack
  | enter f, stack => f :: stack
  | leave, stack => stack.tail
  | halt, _ => []

/-- Whether a turn may be taken with a frame on top: what it enters is no heavier than the bound, and
comes above a frame that may have others above it. -/
def Fits (bound : Nat) (f : Frame) : Turn → Prop
  | enter g => f.isBase = true ∧ g.weight ≤ bound
  | _ => True

end Turn

theorem Stmt.Gives.weight_le {s : Stmt} {t : Turn} (h : s.Gives t) : t.weight ≤ s.weight := by
  cases h with
  | @next s => cases s <;> simp only [Turn.weight, Stmt.weight] <;> omega
  | halt => exact Nat.zero_le _
  | _ =>
    simp only [Turn.weight, Frame.weight, Stmt.weight]
    omega

theorem Stmt.Gives.fits {s : Stmt} {t : Turn} (h : s.Gives t) {bound : Nat}
    (hs : s.weight ≤ bound) (rest : List Stmt) : t.Fits bound (.block rest) := by
  have hw := h.weight_le
  cases t with
  | enter g => exact ⟨rfl, by simp only [Turn.weight] at hw; omega⟩
  | _ => trivial

theorem Frame.Repeats.weight_le {f : Frame} {t : Turn} (h : f.Repeats t) : t.weight ≤ f.weight := by
  cases h <;> simp only [Turn.weight, Frame.weight] <;> omega

theorem Frame.Repeats.fits {f : Frame} {t : Turn} (h : f.Repeats t) {bound : Nat}
    (hf : f.weight ≤ bound) : t.Fits bound f := by
  have hw := h.weight_le
  cases h with
  | waitUntil => trivial
  | _ => exact ⟨rfl, by simp only [Turn.weight] at hw; omega⟩

/-! ### Pace -/

/-- How an act stands to the iterations of the loop on top: whether one is paid for, and what weight
it may still give. -/
inductive Act.Pace (bound : Nat) : Option Frame → Act Turn → Bool → Nat → Prop where
  /-- Nothing is under way. -/
  | back {top : Option Frame} : (∀ f ∈ top, f.isBase = true) →
    Pace bound top (.done .next) false 1
  | runs {may : Request → Prop} {f : Frame} {act : Act Turn} {w : Nat} : f.isLoop = false →
    act.Uses may (fun t => t.Fits bound f ∧ t.weight ≤ w) → Pace bound (some f) act false w
  | due {may : Request → Prop} {f : Frame} {act : Act Turn} : f.isLoop = true →
    act.LeavesOrSpends may f → Pace bound (some f) act false 0
  | paid {may : Request → Prop} {f : Frame} {act : Act Turn} : f.isLoop = true →
    act.Uses may f.Repeats → Pace bound (some f) act true bound

/-- Frames that are no heavier than a bound, of which only the first may be one that has no others
above it. -/
structure Frame.Orderly (bound : Nat) (stack : List Frame) : Prop where
  weight : ∀ f ∈ stack, f.weight ≤ bound
  base : ∀ f ∈ stack.tail, f.isBase = true

namespace Machine

/-- A machine that keeps pace. -/
structure Paced (bound : Nat) (paid : Bool) (w : Nat) (m : Machine) : Prop where
  frames : Frame.Orderly bound m.stack
  act : m.act.Pace bound m.stack.head? paid w

/-! ### What is counted -/

/-- Whether a step spends a loop iteration. -/
def spends (m : Machine) : Bool :=
  match m.act with
  | .tick _ => 0 < m.guard.remaining
  | _ => false

/-- Whether a step begins an iteration: it enters the body of a loop, or waits once more. -/
def iterates (m : Machine) : Bool :=
  match m.act, m.stack with
  | .done (.enter (.block _)), f :: _ => f.isLoop
  | .done .next, .waitUntil _ :: _ => true
  | _, _ => false

/-- Whether a step goes on with a statement. -/
def begins (m : Machine) : Bool :=
  match m.act with
  | .done t => match t.framesAfter m.stack with
    | .block (_ :: _) :: _ => true
    | _ => false
  | _ => false

/-- Whether a step goes on with a glide. -/
def glides (m : Machine) : Bool :=
  match m.act with
  | .done t => Frame.glidesOn (t.framesAfter m.stack)
  | _ => false

/-- Whether a step goes from one piece to the next, other than that of a glide. -/
def turnsOver (m : Machine) : Bool :=
  match m.act with
  | .done _ => !m.glides
  | _ => false

/-- What a machine may still do, if it spends all iterations that it may. -/
def potential (bound w : Nat) (m : Machine) : Nat :=
  m.guard.remaining * bound + Frame.weightOf m.stack + w

variable {me : Actor} {m m' : Machine} {bound w : Nat} {paid : Bool}

theorem step_turn {t : Turn} (h : m.act = .done t) :
    m.step me = unwind me m.guard (t.framesAfter m.stack) := by
  obtain ⟨guard, act, stack⟩ := m
  cases h
  cases t <;> rfl

theorem turnsOver_of_begins (h : m.begins = true) : m.turnsOver = true := by
  unfold begins at h
  unfold turnsOver glides
  split at h
  · split at h
    · next hover => simp [hover, Frame.glidesOn]
    · nomatch h
  · nomatch h

/-! ### Turns -/

end Machine

variable {me : Actor} {m m' : Machine} {bound w : Nat} {paid : Bool} {f : Frame}
  {stack rest : List Frame} {t : Turn}

theorem Frame.weightOf_cons (f : Frame) (rest : List Frame) :
    weightOf (f :: rest) = f.weight + weightOf rest := by
  simp [weightOf]

/-- What is left of a frame weighs no more. -/
theorem Frame.weight_resume {left : Frame} {act : Act Turn} (h : f.resume me = some (left, act)) :
    left.weight ≤ f.weight := by
  cases f with
  | block stmts =>
    cases stmts with
    | nil => nomatch h
    | cons s rest => cases h; simp only [weight, Stmt.weightIn]; omega
  | times n body =>
    cases n with
    | zero => nomatch h
    | succ n => cases h; exact Nat.le_refl _
  | _ => cases h; exact Nat.le_refl _

theorem Frame.Orderly.after (h : Orderly bound (f :: rest)) (ht : t.Fits bound f) :
    Orderly bound (t.framesAfter (f :: rest)) := by
  cases t with
  | next => exact h
  | enter g =>
    refine ⟨List.forall_mem_cons.mpr ⟨ht.2, h.weight⟩, List.forall_mem_cons.mpr ⟨ht.1, h.base⟩⟩
  | leave =>
    exact ⟨fun g hg => h.weight g (List.mem_cons_of_mem f hg),
      fun g hg => h.base g (List.mem_of_mem_tail hg)⟩
  | halt => exact ⟨nofun, nofun⟩

theorem Frame.weightOf_framesAfter (t : Turn) (f : Frame) (rest : List Frame) :
    weightOf (t.framesAfter (f :: rest)) + 1 ≤ weightOf (f :: rest) + t.weight := by
  have hf := f.weight_pos
  cases t <;> simp only [Turn.framesAfter, Turn.weight, weightOf_cons, List.tail_cons]
  case halt => simp only [weightOf, List.map_nil, List.sum_nil]; omega
  all_goals omega

/-- What a turn leads to when a machine keeps pace. -/
theorem Machine.Paced.turn (h : m.Paced bound paid w) (ht : m.act = .done t) :
    Frame.Orderly bound (t.framesAfter m.stack) ∧
      Frame.weightOf (t.framesAfter m.stack) + 1 ≤ Frame.weightOf m.stack + w ∧
      (m.iterates = true → paid = true) := by
  obtain ⟨guard, act, stack⟩ := m
  obtain ⟨hframes, hact⟩ := h
  cases ht
  cases stack with
  | nil =>
    cases hact
    exact ⟨hframes, Nat.le_refl _, nofun⟩
  | cons f rest =>
    cases hact with
    | back hbase =>
      refine ⟨hframes, Nat.le_refl _, ?_⟩
      have hf : f.isBase = true := hbase f rfl
      cases f with
      | waitUntil => nomatch hf
      | _ => exact nofun
    | runs hf huses =>
      cases huses with
      | done hgives =>
        have hw := Frame.weightOf_framesAfter t f rest
        refine ⟨hframes.after hgives.1, by have := hgives.2; simp only; omega, fun hi => ?_⟩
        unfold iterates at hi
        split at hi
        · next heq => simp_all
        · next heq => simp_all [Frame.isLoop]
        · nomatch hi
    | due hf hspends =>
      cases hspends with
      | leave => exact ⟨hframes.after trivial, Frame.weightOf_framesAfter .leave f rest, nofun⟩
    | paid hf huses =>
      cases huses with
      | done hrepeats =>
        have hbound := hframes.weight f (List.mem_cons_self ..)
        have hw := Frame.weightOf_framesAfter t f rest
        have hweight := hrepeats.weight_le
        refine ⟨hframes.after (hrepeats.fits hbound), by simp only; omega, fun _ => rfl⟩

/-- What a machine goes on with keeps pace, and weighs no more unless it is a glide. -/
theorem Machine.paced_unwind {guard : LoopGuard} (h : Frame.Orderly bound stack)
    (hunwind : unwind me guard stack = .silent m') :
    ∃ w', m'.Paced bound false w' ∧ m'.guard = guard ∧
      Frame.weightOf m'.stack + w' ≤ Frame.weightOf stack + (Frame.glidesOn stack).toNat := by
  cases stack with
  | nil => cases hunwind
  | cons f rest =>
    have hf := h.weight f (List.mem_cons_self ..)
    have hrest : Frame.Orderly bound rest :=
      ⟨fun g hg => h.weight g (List.mem_cons_of_mem f hg),
        fun g hg => h.base g (List.mem_of_mem_tail hg)⟩
    -- The next piece of a frame, with the frame after it.
    have hleft {left : Frame} (hw : left.weight ≤ f.weight) : Frame.Orderly bound (left :: rest) :=
      ⟨List.forall_mem_cons.mpr ⟨Nat.le_trans hw hf, hrest.weight⟩, h.base⟩
    simp only [unwind] at hunwind
    cases hres : f.resume me with
    | none =>
      rw [hres] at hunwind
      cases hunwind
      have hpos := f.weight_pos
      refine ⟨1, ⟨hrest, .back fun g hg => h.base g (List.mem_of_mem_head? hg)⟩, rfl, ?_⟩
      simp only [Frame.weightOf_cons]
      omega
    | some p =>
      obtain ⟨left, act⟩ := p
      rw [hres] at hunwind
      cases hunwind
      cases f with
      | block stmts =>
        cases stmts with
        | nil => cases hres
        | cons s rest' =>
          obtain ⟨rfl, huses⟩ := Frame.uses_block hres
          have hs : s.weight ≤ bound := by
            simp only [Frame.weight, Stmt.weightIn] at hf
            omega
          have hgives (t : Turn) (ht : s.Gives t) := And.intro (ht.fits hs rest') ht.weight_le
          refine ⟨s.weight, ⟨hleft (Frame.weight_resume hres), .runs rfl (huses.uses.imp hgives)⟩, rfl, ?_⟩
          simp only [Frame.weightOf_cons, Frame.weight, Stmt.weightIn]
          omega
      | glide g =>
        obtain ⟨rfl, huses⟩ := Frame.uses_glide hres
        refine ⟨1, ⟨hleft (Nat.le_refl _), .runs rfl (huses.uses.imp ?_)⟩, rfl, Nat.le_refl _⟩
        rintro t (rfl | rfl)
        · exact ⟨trivial, Nat.le_refl _⟩
        · exact ⟨trivial, Nat.zero_le _⟩
      | _ =>
        obtain ⟨hloop, -, hspends⟩ := Frame.leavesOrSpends_resume hres rfl
        have hw := Frame.weight_resume hres
        refine ⟨0, ⟨hleft hw, .due hloop hspends⟩, rfl, ?_⟩
        simp only [Frame.weightOf_cons]
        omega

/-! ### Steps -/

namespace Machine

/-- A step ends a piece, spends an iteration, or gets an answer. -/
theorem goesOn_cases {cancelled : Bool} (h : GoesOn me cancelled m m') :
    (∃ t, m.act = .done t ∧ unwind me m.guard (t.framesAfter m.stack) = .silent m') ∨
    (∃ n next, m.guard = ⟨n + 1⟩ ∧ m.act = .tick next ∧ m' = ⟨⟨n⟩, next, m.stack⟩) ∨
    (∃ r k, m.act = .ask r k ∧ ∃ a, m' = { m with act := k a }) ∨
    ∃ p k, m.act = .wait p k ∧ ∃ a, m' = { m with act := k a } := by
  obtain ⟨guard, act, stack⟩ := m
  cases act with
  | done t =>
    cases h with
    | silent h => exact .inl ⟨t, rfl, (step_turn rfl).symm.trans h⟩
    | ask h => obtain ⟨k, hk, -⟩ := step_ask h; nomatch hk
    | wait h => obtain ⟨k, hk, -⟩ := step_wait h; nomatch hk
  | fail e =>
    cases h with
    | silent h => nomatch h
    | ask h => nomatch h
    | wait h => nomatch h
  | ask r k =>
    cases h with
    | silent h => nomatch h
    | ask h => cases h; exact .inr (.inr (.inl ⟨r, k, rfl, _, rfl⟩))
    | wait h => nomatch h
  | wait p k =>
    cases h with
    | silent h => nomatch h
    | ask h => nomatch h
    | wait h => cases h; exact .inr (.inr (.inr ⟨p, k, rfl, _, rfl⟩))
  | tick next =>
    obtain ⟨n⟩ := guard
    cases n with
    | zero =>
      cases h with
      | silent h => nomatch h
      | ask h => nomatch h
      | wait h => nomatch h
    | succ n =>
      cases h with
      | silent h => cases h; exact .inr (.inl ⟨n, next, rfl, rfl, rfl⟩)
      | ask h => nomatch h
      | wait h => nomatch h

end Machine

theorem Act.Pace.ask {top : Option Frame} {r : Request} {k : r.Answer → Act Turn}
    (h : Pace bound top (.ask r k) paid w) (a : r.Answer) : Pace bound top (k a) paid w := by
  cases h with
  | runs hf h => cases h with | ask _ h => exact .runs hf (h a)
  | due hf h => cases h with | ask _ h => exact .due hf (h a)
  | paid hf h => cases h with | ask _ h => exact .paid hf (h a)

theorem Act.Pace.wait {top : Option Frame} {p : Pause} {k : p.Answer → Act Turn}
    (h : Pace bound top (.wait p k) paid w) (a : p.Answer) : Pace bound top (k a) paid w := by
  cases h with
  | runs hf h => cases h with | wait h => exact .runs hf (h a)
  | due hf h => cases h with | wait h => exact .due hf (h a)
  | paid hf h => cases h with | wait h => exact .paid hf (h a)

theorem Act.Pace.ne_exhausted {top : Option Frame} {e : ExecError}
    (h : Pace bound top (.fail e) paid w) : e ≠ .exhausted := by
  cases h with
  | runs _ h => cases h with | fail h => exact h
  | due _ h => cases h with | fail h => exact h
  | paid _ h => cases h with | fail h => exact h

theorem Act.Pace.tick {top : Option Frame} {next : Act Turn}
    (h : Pace bound top (.tick next) paid w) :
    paid = false ∧ w = 0 ∧ Pace bound top next true bound := by
  cases h with
  | runs hf h => nomatch h
  | due hf h => cases h with | spend h => exact ⟨rfl, rfl, .paid hf h⟩
  | paid hf h => nomatch h

namespace Machine

/-- What steps do to the accounts of a machine: what is spent is taken from the guard, an iteration
begins only where one was paid for, and every turn takes from what may still be done. -/
structure Accounts (bound : Nat) (m : Machine) (paid : Bool) (w ticks entries turns : Nat)
    (m' : Machine) (paid' : Bool) (w' : Nat) : Prop where
  paced : m'.Paced bound paid' w'
  spent : m'.guard.remaining + ticks = m.guard.remaining
  begun : entries + paid'.toNat ≤ ticks + paid.toNat
  turned : turns + m'.potential bound w' ≤ m.potential bound w

/-- An answer changes no account. -/
theorem Paced.answered (h : m.Paced bound paid w) {act : Act Turn}
    (hact : act.Pace bound m.stack.head? paid w) (hspends : m.spends = false)
    (hiterates : m.iterates = false) (hturns : m.turnsOver = false) :
    Accounts bound m paid w m.spends.toNat m.iterates.toNat m.turnsOver.toNat { m with act } paid
      w := by
  rw [hspends, hiterates, hturns]
  exact ⟨⟨h.frames, hact⟩, rfl, Nat.le_refl _, Nat.le_of_eq (Nat.zero_add _)⟩

theorem Paced.step (h : m.Paced bound paid w) {cancelled : Bool} (hg : GoesOn me cancelled m m') :
    ∃ paid' w', Accounts bound m paid w m.spends.toNat m.iterates.toNat m.turnsOver.toNat
      m' paid' w' := by
  obtain ⟨t, hact, hunwind⟩ | ⟨n, next, hguard, hact, rfl⟩ | ⟨r, k, hact, a, rfl⟩ |
    ⟨p, k, hact, a, rfl⟩ := goesOn_cases hg
  · obtain ⟨hframes, hweight, hpaid⟩ := h.turn hact
    obtain ⟨w', hpaced, hguard, hw'⟩ := paced_unwind hframes hunwind
    have hspends : m.spends = false := by simp [spends, hact]
    have hturns : m.turnsOver = !Frame.glidesOn (t.framesAfter m.stack) := by
      simp [turnsOver, glides, hact]
    refine ⟨false, w', hpaced, by rw [hguard, hspends]; rfl, ?_, ?_⟩
    · rw [hspends]
      cases hi : m.iterates
      · exact Nat.zero_le _
      · rw [hpaid hi]
        exact Nat.le_refl _
    · rw [hturns, potential, potential, hguard]
      cases hg : Frame.glidesOn (t.framesAfter m.stack) <;> rw [hg] at hw' <;>
        simp only [Bool.toNat_true, Bool.toNat_false, Bool.not_true, Bool.not_false] at hw' ⊢ <;>
        omega
  · obtain ⟨rfl, rfl, hpace⟩ := Pace.tick (hact ▸ h.act)
    have hspends : m.spends = true := by simp [spends, hact, hguard]
    have hiterates : m.iterates = false := by simp [iterates, hact]
    have hturns : m.turnsOver = false := by simp [turnsOver, hact]
    rw [hspends, hiterates, hturns]
    refine ⟨true, bound, ⟨h.frames, hpace⟩, by rw [hguard]; rfl, Nat.le_refl _, ?_⟩
    rw [potential, potential, hguard]
    simp only [Bool.toNat_false, Nat.add_mul, Nat.one_mul]
    omega
  · exact ⟨paid, w, h.answered ((hact ▸ h.act : Pace _ _ _ _ _).ask a) (by simp [spends, hact])
      (by simp [iterates, hact]) (by simp [turnsOver, hact])⟩
  · exact ⟨paid, w, h.answered ((hact ▸ h.act : Pace _ _ _ _ _).wait a) (by simp [spends, hact])
      (by simp [iterates, hact]) (by simp [turnsOver, hact])⟩

/-! ### The start -/

/-- A script starts in pace. -/
theorem paced_start (body : List Stmt) (iterations : Nat) :
    (start body iterations).Paced (Frame.block body).weight false 1 where
  frames := ⟨by simp [start], by simp [start]⟩
  act :=
    have hcheck : Inquires (fun _ => True) check := inquires_check
    .runs rfl (hcheck.andThen fun _ => .done ⟨trivial, Nat.le_refl _⟩)

end Machine

end Tabletop
