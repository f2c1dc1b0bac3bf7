import Mathlib.Tactic.ByContra
import Tabletop.Proofs.Execution.Repeats

/-! The loop guard of an execution. All loops together begin no more iterations than it was given, it
is found exhausted only when all of them are spent, and so every script comes to an end, up to the
steps of its glides. -/

namespace Tabletop

open Act

namespace Machine

variable {me : Actor} {m m' : Machine} {bound w : Nat} {paid : Bool}

/-- The guard is found exhausted where an iteration is to be spent and none is left. -/
theorem Paced.exhausted (h : m.Paced bound paid w)
    (hstep : m.step me = .finished (.error .exhausted)) :
    m.guard.remaining = 0 ∧ ∃ next, m.act = .tick next := by
  obtain ⟨⟨n⟩, act, stack⟩ := m
  cases act with
  | done t =>
    rw [step_turn rfl] at hstep
    cases hover : t.framesAfter stack with
    | nil =>
      rw [hover] at hstep
      cases hstep
    | cons f rest =>
      rw [hover] at hstep
      simp only [unwind] at hstep
      split at hstep <;> cases hstep
  | fail e =>
    have he : e ≠ .exhausted := h.act.ne_exhausted
    cases hstep
    exact absurd rfl he
  | ask r next => cases hstep
  | wait p next => cases hstep
  | tick next =>
    cases n with
    | zero => exact ⟨rfl, next, rfl⟩
    | succ n => cases hstep

/-! ### Termination -/

/-- A step other than that of a glide. -/
def Onward (me : Actor) (m' m : Machine) : Prop := GoesOn me false m m' ∧ m.glides = false

/-- A machine in pace takes no more than finitely many steps, but those of glides: within one piece
its act gets smaller, and from one piece to the next there is less to do. -/
theorem Paced.acc (h : m.Paced bound paid w) : Acc (Onward me) m := by
  suffices ∀ (n : Nat) (act : Act Turn) (m : Machine) (paid : Bool) (w : Nat), m.act = act →
      m.Paced bound paid w → m.potential bound w ≤ n → Acc (Onward me) m from
    this _ m.act m paid w rfl h (Nat.le_refl _)
  intro n
  induction n using Nat.strongRecOn with
  | ind n ihn =>
    intro act
    induction act with
    | done t =>
      intro m paid w hact h hn
      refine .intro _ fun m' ⟨hg, hglides⟩ => ?_
      obtain ⟨paid', w', hpaced, -, -, hless⟩ := h.step hg
      have hturns : m.turnsOver = true := by simp [turnsOver, hact, hglides]
      rw [hturns, Bool.toNat_true] at hless
      exact ihn (m'.potential bound w') (by omega) m'.act m' paid' w' rfl hpaced (Nat.le_refl _)
    | fail e =>
      intro m paid w hact h hn
      refine .intro _ fun m' ⟨hg, _⟩ => ?_
      obtain ⟨_, h, -⟩ | ⟨_, _, -, h, -⟩ | ⟨_, _, h, -⟩ | ⟨_, _, h, -⟩ := goesOn_cases hg <;>
        cases hact.symm.trans h
    | ask r k ih =>
      intro m paid w hact h hn
      refine .intro _ fun m' ⟨hg, _⟩ => ?_
      obtain ⟨paid', w', hpaced, -, -, hless⟩ := h.step hg
      obtain ⟨_, h, -⟩ | ⟨_, _, -, h, -⟩ | ⟨_, _, h, a, rfl⟩ | ⟨_, _, h, -⟩ := goesOn_cases hg <;>
        cases hact.symm.trans h
      exact ih a _ paid' w' rfl hpaced (by omega)
    | wait p k ih =>
      intro m paid w hact h hn
      refine .intro _ fun m' ⟨hg, _⟩ => ?_
      obtain ⟨paid', w', hpaced, -, -, hless⟩ := h.step hg
      obtain ⟨_, h, -⟩ | ⟨_, _, -, h, -⟩ | ⟨_, _, h, -⟩ | ⟨_, _, h, a, rfl⟩ := goesOn_cases hg <;>
        cases hact.symm.trans h
      exact ih a _ paid' w' rfl hpaced (by omega)
    | tick next ih =>
      intro m paid w hact h hn
      refine .intro _ fun m' ⟨hg, _⟩ => ?_
      obtain ⟨paid', w', hpaced, -, -, hless⟩ := h.step hg
      obtain ⟨_, h, -⟩ | ⟨_, _, -, h, rfl⟩ | ⟨_, _, h, -⟩ | ⟨_, _, h, -⟩ := goesOn_cases hg <;>
        cases hact.symm.trans h
      exact ih _ paid' w' rfl hpaced (by omega)

/-- A run without an end takes steps of glides again and again. -/
theorem Paced.glides_again (h : m.Paced bound paid w) {f : Nat → Machine} (hm : f 0 = m)
    (hf : ∀ i, GoesOn me false (f i) (f (i + 1))) (i : Nat) : ∃ j, i ≤ j ∧ (f j).glides = true := by
  have hpaced (i : Nat) : ∃ paid w, (f i).Paced bound paid w := by
    induction i with
    | zero => exact ⟨paid, w, hm ▸ h⟩
    | succ i ih =>
      obtain ⟨paid, w, h⟩ := ih
      obtain ⟨paid', w', hstep⟩ := h.step (hf i)
      exact ⟨paid', w', hstep.paced⟩
  by_contra hno
  have hall (j : Nat) (hj : i ≤ j) : (f j).glides = false :=
    Bool.eq_false_iff.mpr fun hg => hno ⟨j, hj, hg⟩
  obtain ⟨paid, w, hi⟩ := hpaced i
  -- no machine from `f i` on has its turn in a run that goes on for ever
  suffices ∀ m, Acc (Onward me) m → ∀ j, i ≤ j → f j ≠ m from this _ hi.acc i (Nat.le_refl i) rfl
  intro m hacc
  induction hacc with
  | intro m _ ih =>
    rintro j hj rfl
    exact ih _ ⟨hf j, hall j hj⟩ (j + 1) (Nat.le_succ_of_le hj) rfl

/-! ### The guard -/

/-- What the steps of a run do to the accounts of a machine, together. -/
theorem Paced.trace {steps : List (Machine × Event)} (h : m.Paced bound paid w)
    (ht : Trace me m steps m') :
    ∃ paid' w', Accounts bound m paid w (steps.countP (·.1.spends))
      (steps.countP (·.1.iterates)) (steps.countP (·.1.turnsOver)) m' paid' w' := by
  induction ht generalizing paid w with
  | nil => exact ⟨paid, w, h, rfl, Nat.le_of_eq rfl, Nat.le_of_eq (Nat.zero_add _)⟩
  | cons hs _ ih =>
    obtain ⟨paid₁, w₁, hstep⟩ := h.step hs.goesOn
    obtain ⟨paid', w', hrest⟩ := ih hstep.paced
    refine ⟨paid', w', hrest.paced, ?_, ?_, ?_⟩
    · rw [countP_cons, ← Nat.add_assoc, hrest.spent, hstep.spent]
    · have := hstep.begun
      have := hrest.begun
      rw [countP_cons, countP_cons]
      omega
    · have := hstep.turned
      have := hrest.turned
      rw [countP_cons]
      omega

/-- A script under a guard, whatever it is answered and whatever it waits for: what it spent and what
is left are what it was given; its loops began no more iterations than it spent; the statements that
it went on with are bounded; and the guard is exhausted only where all is spent and one more iteration
is due. A repeat that is completed first comes to the value of its count, with the answers that it
got, and enters its body as often as that says. A run without an end has glides without an end. -/
theorem loops_within_guard (me : Actor) (body : List Stmt) (guard : Nat) :
    (∀ steps m, Trace me (start body guard) steps m →
      steps.countP (·.1.spends) + m.guard.remaining = guard ∧
      steps.countP (·.1.iterates) ≤ steps.countP (·.1.spends) ∧
      steps.countP (·.1.begins) ≤ (guard + 1) * (Frame.block body).weight + 1 ∧
      (m.step me = .finished (.error .exhausted) →
        steps.countP (·.1.spends) = guard ∧ ∃ next, m.act = .tick next)) ∧
    (∀ m times repeated rest below steps m', Completes me m times repeated rest below steps m' →
      ∃ es v, .asks .cancelled false :: es <+: steps.map Prod.snd ∧
        (times.eval me).Comes es (.done v) ∧
        steps.countP (·.1.entersAt (below.length + 2)) = repetitions v.toNumber ∧
        ∀ s ∈ steps, s.1.entersAt (below.length + 2) = true →
          s.1.act = .done (.enter (.block repeated))) ∧
    ∀ f : Nat → Machine, f 0 = start body guard → (∀ i, GoesOn me false (f i) (f (i + 1))) →
      ∀ i, ∃ j, i ≤ j ∧ (f j).glides = true := by
  have hstart := paced_start body guard
  refine ⟨fun steps m ht => ?_, fun m times repeated rest below steps m' h => ?_,
    fun f hf => hstart.glides_again hf⟩
  · obtain ⟨paid, w, hpaced, hspent, hbegun, hturned⟩ := hstart.trace ht
    have hspent : steps.countP (·.1.spends) + m.guard.remaining = guard :=
      (Nat.add_comm _ _).trans hspent
    refine ⟨hspent, ?_, ?_, fun hstep => ?_⟩
    · simp only [Bool.toNat_false] at hbegun
      omega
    · have hbegins : steps.countP (·.1.begins) ≤ steps.countP (·.1.turnsOver) :=
        List.countP_mono_left fun s _ => turnsOver_of_begins
      have hpotential : (start body guard).potential (Frame.block body).weight 1 =
          (guard + 1) * (Frame.block body).weight + 1 := by
        simp [potential, start, Frame.weightOf, Nat.add_mul]
      omega
    · obtain ⟨hzero, htick⟩ := hpaced.exhausted hstep
      exact ⟨by omega, htick⟩
  · obtain ⟨es, v, hes, hv, hcount, hbody, -⟩ := h.entered
    exact ⟨es, v, hes, hv, hcount, hbody⟩

def spinner : Actor := ⟨"top", "spins", none, {}⟩

/-- Repeats nothing, as often as a variable says, and then for ever. -/
def spins : List Stmt := [.repeated (.variable (.shared "n")) [], .forever []]

/-- Where the variable says one and a half, the repeat takes two of three iterations, and the loop
without an end exhausts the guard in its second one. -/
theorem loops_within_guard_spins : ∃ before first steps after last m,
    Trace spinner (start spins 3) (before ++ (first :: steps ++ after)) m ∧
    m.step spinner = .finished (.error .exhausted) ∧
    (before ++ (first :: steps ++ after)).countP (·.1.spends) = 3 ∧
    Completes spinner first.1 (.variable (.shared "n")) [] [.forever []] [] steps last ∧
    steps.countP (·.1.entersAt 2) = 2 := by
  let first : Machine := ⟨⟨3⟩, .done .next, [.block spins]⟩
  let last : Machine := ⟨⟨1⟩, .done .next, [.block [.forever []]]⟩
  let check (a : Bool) : Event := .asks .cancelled a
  obtain ⟨before, hbefore⟩ : ∃ before, Trace spinner (start spins 3) before first :=
    ⟨_, .cons (.ask (r := .cancelled) false rfl) .nil⟩
  obtain ⟨steps, m₁, ev, hfirst, hsteps, hread, hwithin⟩ : ∃ steps m₁ ev,
      first.Shows spinner ev m₁ ∧ Trace spinner m₁ steps last ∧
      steps.map Prod.snd = [check false, .asks (.read (.shared "n")) (.number 1.5), .begins none,
        .spends, .waits .turn (), check false, .begins none, .begins none, .spends,
        .waits .turn (), check false, .begins none, .begins none] ∧
      ∀ s ∈ steps, s.1.act = .done .next → 1 < s.1.stack.length := by
    refine ⟨_, _, _, .silent rfl, .cons (.ask (r := .cancelled) false rfl) <|
      .cons (.ask (r := .read _) (.number 1.5) rfl) <| .cons (.silent rfl) <| .cons (.silent rfl) <|
      .cons (.wait (p := .turn) () rfl) <| .cons (.ask (r := .cancelled) false rfl) <|
      .cons (.silent rfl) <| .cons (.silent rfl) <| .cons (.silent rfl) <|
      .cons (.wait (p := .turn) () rfl) <| .cons (.ask (r := .cancelled) false rfl) <|
      .cons (.silent rfl) <| .cons (.silent rfl) .nil, rfl, ?_⟩
    simp only [List.forall_mem_cons]
    exact ⟨nofun, nofun, nofun, nofun, nofun, nofun, nofun, fun _ => by decide, nofun, nofun,
      nofun, nofun, fun _ => by decide, List.forall_mem_nil _⟩
  obtain ⟨after, m, hafter, hstep⟩ : ∃ after m, Trace spinner last after m ∧
      m.step spinner = .finished (.error .exhausted) :=
    ⟨_, _, .cons (.silent rfl) <| .cons (.ask (r := .cancelled) false rfl) <|
      .cons (.silent rfl) <| .cons (.silent rfl) <| .cons (.wait (p := .turn) () rfl) <|
      .cons (.ask (r := .cancelled) false rfl) <| .cons (.silent rfl) <| .cons (.silent rfl) .nil,
      rfl⟩
  have hall := hbefore.append (.cons hfirst (hsteps.append hafter))
  have hcompletes : Completes spinner first (.variable (.shared "n")) [] [.forever []] [] steps
      last := ⟨⟨.next, rfl, rfl⟩, ⟨m₁, ev, hfirst, hsteps⟩, hwithin, rfl, Nat.le_refl _⟩
  obtain ⟨hguard, hrepeat, -⟩ := loops_within_guard spinner spins 3
  refine ⟨before, (first, ev), steps, after, last, m, hall, hstep,
    ((hguard _ _ hall).2.2.2 hstep).1, hcompletes, ?_⟩
  -- the count comes to what was read in this run
  obtain ⟨es, v, hes, hv, hcount, -⟩ := hrepeat _ _ _ _ _ _ _ hcompletes
  obtain ⟨x, es', rfl, hx⟩ := comes_ask_done hv
  obtain ⟨rfl, hxv⟩ := comes_done.mp hx
  cases hxv
  rw [hread] at hes
  obtain ⟨heq, -⟩ := List.cons_prefix_cons.mp (List.cons_prefix_cons.mp hes).2
  cases heq
  exact hcount.trans (by decide)

end Machine

end Tabletop
