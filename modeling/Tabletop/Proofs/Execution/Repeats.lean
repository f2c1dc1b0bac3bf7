import Tabletop.Proofs.Execution.Traces

/-! How often a loop that counts its iterations enters its body: as often as it counts, unless the
execution ends within it. What it counts is what its count came to in that execution. -/

namespace Tabletop

open Act

variable {me : Actor} {es : List Event} {body : List Stmt}

/-! ### Acts of the loop -/

/-- Where one more iteration is paid for, it enters the body. -/
theorem Frame.again_gives {t : Turn} (h : (again body).Comes es (.done t)) :
    t = .enter (.block body) := by
  cases h with
  | head htick h =>
    cases htick
    cases h with
    | head hwait h =>
      cases hwait
      obtain ⟨rest, -, hnext⟩ := comes_check_done h
      cases (comes_done.mp hnext).2
      rfl

/-- A repeat first comes to the value of its count, and enters the loop that counts to that. -/
theorem Stmt.repeated_gives {times : Expr} {t : Turn}
    (h : (check >>= fun _ => (repeated times body).perform me).Comes es (.done t)) :
    ∃ fs v, es = .asks .cancelled false :: fs ∧ (times.eval me).Comes fs (.done v) ∧
      t = .enter (.times (repetitions v.toNumber) body) := by
  obtain ⟨rest, rfl, hperform⟩ := comes_check_done h
  obtain ⟨v, fs, gs, rfl, hv, hturn⟩ := Comes.past hperform
  obtain ⟨rfl, ht⟩ := comes_done.mp hturn
  cases ht
  exact ⟨fs, v, by rw [List.append_nil], hv, rfl⟩

example : [0.49999999999999994, 0.5, 2.4, 2.5, -0.5].map repetitions = [0, 1, 2, 3, 0] := by
  decide +kernel

/-! ### The loop -/

namespace Machine

/-- Whether a step enters a block with so many frames below it. -/
def entersAt (depth : Nat) (m : Machine) : Bool :=
  match m.act with
  | .done (.enter (.block _)) => m.stack.length == depth
  | _ => false

/-- A machine within a loop that counts, above other frames, with so many iterations to begin. -/
inductive Repeating (body : List Stmt) (below : List Frame) : Nat → Machine → Prop where
  /-- In the body. -/
  | inside {k : Nat} {m : Machine} (above : List Frame) : above ≠ [] →
    m.stack = above ++ .times k body :: below → Repeating body below k m
  /-- After the body. -/
  | back {k : Nat} {m : Machine} : m.act = .done .next → m.stack = .times k body :: below →
    Repeating body below k m
  /-- On the way to it. -/
  | again {k : Nat} {m : Machine} {es : List Event} : m.stack = .times k body :: below →
    (Frame.again body).Comes es m.act → Repeating body below (k + 1) m

variable {m m' : Machine} {ev : Event} {below : List Frame} {k depth : Nat}
  {steps : List (Machine × Event)}

theorem entersAt_of_not_done (h : ∀ t, m.act ≠ .done t) : m.entersAt depth = false := by
  unfold entersAt
  split
  · next hact => exact absurd hact (h _)
  · rfl

theorem entersAt_of_length (h : m.stack.length ≠ depth) : m.entersAt depth = false := by
  unfold entersAt
  split
  · exact beq_false_of_ne h
  · rfl

/-- The loop goes on once its body is over, and is left once no iteration is. -/
theorem repeating_unwind {guard : LoopGuard} (above : List Frame)
    (h : unwind me guard (above ++ .times k body :: below) = .silent m') :
    Repeating body below k m' ∨ k = 0 ∧ m' = ⟨guard, .done .next, below⟩ := by
  cases above with
  | nil =>
    cases k with
    | zero =>
      cases h
      exact .inr ⟨rfl, rfl⟩
    | succ k =>
      cases h
      exact .inl (.again rfl .refl)
  | cons f rest =>
    left
    simp only [List.cons_append, unwind] at h
    split at h <;> cases h
    · exact .inside (_ :: rest) (by simp) rfl
    · cases rest with
      | nil => exact .back rfl rfl
      | cons g rest => exact .inside (g :: rest) (by simp) rfl

/-- Within the loop there are more frames than below it. -/
theorem Repeating.length_lt (h : Repeating body below k m) : below.length < m.stack.length := by
  cases h with
  | inside _ _ hstack | back _ hstack | again hstack _ =>
    simp only [hstack, List.length_append, List.length_cons]
    omega

/-- What is entered there is the body. -/
theorem Repeating.enters_body (h : Repeating body below k m)
    (he : m.entersAt (below.length + 1) = true) : m.act = .done (.enter (.block body)) := by
  cases h with
  | inside above habove hstack =>
    have hpos := List.length_pos_iff.mpr habove
    have hlen : m.stack.length ≠ below.length + 1 := by
      rw [hstack, List.length_append, List.length_cons]
      omega
    exact absurd he (by simp [entersAt_of_length hlen])
  | back hback => simp [entersAt, hback] at he
  | again _ hcomes =>
    cases hact : m.act with
    | done t =>
      rw [hact] at hcomes
      rw [Frame.again_gives hcomes]
    | _ => simp [entersAt, hact] at he

/-- A step within the loop enters the body at most once, and then one iteration less is to begin. -/
theorem Repeating.step (h : Repeating body below k m) (hs : m.Shows me ev m') :
    ∃ k', k = k' + (m.entersAt (below.length + 1)).toNat ∧
      (Repeating body below k' m' ∨ k' = 0 ∧ m'.act = .done .next ∧ m'.stack = below) := by
  have hleft {guard : LoopGuard} {k : Nat}
      (h : Repeating body below k m' ∨ k = 0 ∧ m' = ⟨guard, .done .next, below⟩) :
      Repeating body below k m' ∨ k = 0 ∧ m'.act = .done .next ∧ m'.stack = below :=
    h.imp_right fun ⟨hk, hm⟩ => ⟨hk, by rw [hm]; exact ⟨rfl, rfl⟩⟩
  cases h with
  | inside above habove hstack =>
    have henters : m.entersAt (below.length + 1) = false := by
      have hpos := List.length_pos_iff.mpr habove
      refine entersAt_of_length ?_
      rw [hstack, List.length_append, List.length_cons]
      omega
    refine ⟨k, by rw [henters]; rfl, ?_⟩
    obtain ⟨t, hact, -, hunwind⟩ | ⟨-, hsame⟩ := hs.turns
    · rw [hstack] at hunwind
      cases t with
      | next => exact hleft (repeating_unwind _ hunwind)
      | enter f => exact hleft (repeating_unwind (f :: above) hunwind)
      | leave =>
        rw [Turn.framesAfter, List.tail_append_of_ne_nil habove] at hunwind
        exact hleft (repeating_unwind _ hunwind)
      | halt => cases hunwind
    · exact .inl (.inside above habove (hsame.trans hstack))
  | back hback hstack =>
    have henters : m.entersAt (below.length + 1) = false := by simp [entersAt, hback]
    refine ⟨k, by rw [henters]; rfl, ?_⟩
    obtain ⟨t, hact, -, hunwind⟩ | ⟨htakes, -⟩ := hs.turns
    · cases hback.symm.trans hact
      rw [hstack] at hunwind
      exact hleft (repeating_unwind [] hunwind)
    · exact absurd hback (htakes.ne_done _)
  | @again k _ es hstack hcomes =>
    obtain ⟨t, hact, -, hunwind⟩ | ⟨htakes, hsame⟩ := hs.turns
    · rw [hact] at hcomes
      obtain rfl := Frame.again_gives hcomes
      have henters : m.entersAt (below.length + 1) = true := by simp [entersAt, hact, hstack]
      rw [hstack] at hunwind
      exact ⟨k, by rw [henters]; rfl, hleft (repeating_unwind [.block body] hunwind)⟩
    · have henters : m.entersAt (below.length + 1) = false :=
        entersAt_of_not_done htakes.ne_done
      exact ⟨k + 1, by rw [henters]; rfl, .inl (.again (hsame.trans hstack) (hcomes.tail htakes))⟩

/-- A machine that goes on below the loop entered the body as often as was left. -/
theorem Repeating.trace (h : Repeating body below k m) (ht : Trace me m steps m')
    (hin : ∀ s ∈ steps, s.1.act = .done .next → below.length < s.1.stack.length)
    (hout : m'.stack.length ≤ below.length) :
    steps.countP (·.1.entersAt (below.length + 1)) = k ∧
      (∀ s ∈ steps, s.1.entersAt (below.length + 1) = true →
        s.1.act = .done (.enter (.block body))) ∧
      m'.stack = below := by
  induction ht generalizing k with
  | nil => exact absurd h.length_lt (Nat.not_lt.mpr hout)
  | @cons m m₁ m' ev steps hs hrest ih =>
    obtain ⟨-, hin⟩ := List.forall_mem_cons.mp hin
    obtain ⟨k', hk, hnext | ⟨rfl, hact, hstack⟩⟩ := h.step hs
    · obtain ⟨hcount, hbody, hend⟩ := ih hnext hin hout
      exact ⟨by rw [countP_cons, hcount, hk],
        List.forall_mem_cons.mpr ⟨h.enters_body, hbody⟩, hend⟩
    · cases hrest with
      | nil =>
        exact ⟨by rw [countP_cons, List.countP_nil, hk],
          List.forall_mem_singleton.mpr h.enters_body, hstack⟩
      | cons =>
        have := hin (m₁, _) (List.mem_cons_self ..) hact
        rw [hstack] at this
        exact absurd this (Nat.lt_irrefl _)

/-- A loop that counts `n` iterations and is left again entered its body `n` times. -/
theorem times_entered {n : Nat} (hact : m.act = .done (.enter (.times n body)))
    (ht : Trace me m steps m') (hsteps : steps ≠ [])
    (hin : ∀ s ∈ steps.tail, s.1.act = .done .next → m.stack.length < s.1.stack.length)
    (hout : m'.stack.length ≤ m.stack.length) :
    steps.countP (·.1.entersAt (m.stack.length + 1)) = n ∧
      (∀ s ∈ steps, s.1.entersAt (m.stack.length + 1) = true →
        s.1.act = .done (.enter (.block body))) ∧
      m'.stack = m.stack := by
  have hm : m.entersAt (m.stack.length + 1) = false := by simp [entersAt, hact]
  cases ht with
  | nil => exact absurd rfl hsteps
  | cons hs ht =>
    obtain ⟨t, hturn, -, hunwind⟩ | ⟨htakes, -⟩ := hs.turns
    case inr => exact absurd hact (htakes.ne_done _)
    cases hact.symm.trans hturn
    have hfirst {P : Prop} (he : m.entersAt (m.stack.length + 1) = true) : P :=
      nomatch hm.symm.trans he
    obtain h | ⟨rfl, rfl⟩ := repeating_unwind [] hunwind
    · obtain ⟨hcount, hbody, hend⟩ := h.trace ht hin hout
      exact ⟨by rw [countP_cons, hm, hcount]; rfl, List.forall_mem_cons.mpr ⟨hfirst, hbody⟩, hend⟩
    · cases ht with
      | nil =>
        exact ⟨by rw [countP_cons, hm]; rfl, List.forall_mem_singleton.mpr hfirst, rfl⟩
      | cons => exact absurd (hin _ (List.mem_cons_self ..) rfl) (Nat.lt_irrefl _)

/-! ### Repeats -/

/-- A machine goes on with a repeat of a block, and comes for the first time to where the block goes
on after it: neither did the execution end within the repeat, nor was it stopped there. -/
structure Completes (me : Actor) (m : Machine) (times : Expr) (body rest : List Stmt)
    (below : List Frame) (steps : List (Machine × Event)) (m' : Machine) : Prop where
  start : ∃ t, m.act = .done t ∧
    t.framesAfter m.stack = .block (.repeated times body :: rest) :: below
  trace : ∃ m₁ ev, m.Shows me ev m₁ ∧ Trace me m₁ steps m'
  within : ∀ s ∈ steps, s.1.act = .done .next → below.length + 1 < s.1.stack.length
  ended : m'.act = .done .next ∧ m'.stack.length ≤ below.length + 1

/-- A repeat that is completed first comes to the value of its count, with the answers that it got,
and then enters its body as often as that says. -/
theorem Completes.entered {times : Expr} {rest : List Stmt}
    (h : Completes me m times body rest below steps m') :
    ∃ es v, .asks .cancelled false :: es <+: steps.map Prod.snd ∧
      (times.eval me).Comes es (.done v) ∧
      steps.countP (·.1.entersAt (below.length + 2)) = repetitions v.toNumber ∧
      (∀ s ∈ steps, s.1.entersAt (below.length + 2) = true →
        s.1.act = .done (.enter (.block body))) ∧
      m'.stack = .block rest :: below := by
  obtain ⟨⟨t, hact, hover⟩, ⟨m₁, ev, hs, ht⟩, hwithin, hend, hout⟩ := h
  -- what the repeat goes on with is its own act, above the rest of the block
  obtain ⟨t', hturn, -, hunwind⟩ | ⟨htakes, -⟩ := hs.turns
  case inr => exact absurd hact (htakes.ne_done _)
  cases hact.symm.trans hturn
  rw [hover] at hunwind
  cases hunwind
  obtain ⟨hcomes, -⟩ | ⟨before, x, ev', after, t, rfl, hcomes, hx, hxs, hxt, hnone⟩ := ht.cases
  · rw [hend] at hcomes
    obtain ⟨_, _, -, -, h⟩ := Stmt.repeated_gives hcomes
    nomatch h
  · obtain ⟨es, v, hbefore, hv, rfl⟩ := Stmt.repeated_gives hcomes
    have hlen : x.stack.length = below.length + 1 := by rw [hxs]; rfl
    obtain ⟨-, hwithin⟩ := List.forall_mem_append.mp hwithin
    obtain ⟨hcount, hbody, hstack⟩ := times_entered hx hxt nofun
      (hlen ▸ (List.forall_mem_cons.mp hwithin).2) (hlen ▸ hout)
    rw [hlen] at hcount hbody
    have hnone (s : Machine × Event) (hs : s ∈ before) :
        s.1.entersAt (below.length + 2) = false :=
      entersAt_of_not_done (hnone s hs)
    refine ⟨es, v, ?_, hv, ?_, List.forall_mem_append.mpr ⟨fun s hs he => ?_, hbody⟩,
      hstack.trans hxs⟩
    · rw [List.map_append, hbefore]
      exact List.prefix_append _ _
    · rw [List.countP_append, hcount, List.countP_eq_zero.mpr fun s hs => by simp [hnone s hs]]
      exact Nat.zero_add _
    · nomatch (hnone s hs).symm.trans he

end Machine

end Tabletop
