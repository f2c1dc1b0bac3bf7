import Tabletop.Proofs.Execution.Traces

/-! Where scripts halt. A statement that stops its script is the last thing that an execution goes
through, however deep in loops and branches it stands; and an execution that comes to its end in
any other way went through its whole script. -/

namespace Tabletop

open Act

namespace Act

variable {α β : Type} {a b : Act α} {es : List Event} {ev : Event}

/-! ### What acts come to -/

/-- A loop that has spent its iteration only has to go on. -/
theorem Takes.leavesOrSpends {may : Request → Prop} {f : Frame} {act act' : Act Turn}
    (ht : act.Takes ev act') (h : LeavesOrSpends may f act ∨ Uses may f.Repeats act) :
    LeavesOrSpends may f act' ∨ Uses may f.Repeats act' := by
  rcases h with h | h
  · cases ht with
    | ask x =>
      cases h with
      | ask _ h => exact .inl (h x)
    | wait x =>
      cases h with
      | wait h => exact .inl (h x)
    | tick =>
      cases h with
      | spend h => exact .inr h
  · exact .inr (ht.uses h)

/-- A loop either is left, or goes on with one more iteration. -/
theorem LeavesOrSpends.gives {may : Request → Prop} {f : Frame} {act : Act Turn} {t : Turn}
    (h : LeavesOrSpends may f act) (hes : act.Comes es (.done t)) : t = .leave ∨ f.Repeats t := by
  rcases hes.keeps Takes.leavesOrSpends (.inl h) with h | h
  · cases h with
    | leave => exact .inl rfl
  · exact .inr (h.gives .refl)

theorem comes_check {f : Unit → Act β} {c : Act β} (h : (f ()).Comes es c) :
    (check >>= f).Comes (.asks .cancelled false :: es) c := by
  rw [check_bind]
  exact .head (b := if false then fail .cancelled else f ()) (.ask (r := .cancelled) false) h

end Act

/-! ### Statements that stop a script -/

/-- A statement that stops its script was carried out. Deleting the object stops the script where the
object was deleted, being a copy. -/
inductive Story.Stopped : Story → Prop where
  | thisScript : Stopped ⟨some (.stop .thisScript), [.asks .cancelled false]⟩
  | all : Stopped ⟨some (.stop .all),
      [.asks .cancelled false, .asks .stopSounds (), .asks .stopAll ()]⟩
  | deleted (es : List Event) (id : String) :
    Stopped ⟨some (.effect .deleteSelf), es ++ [.asks (.delete id) ()]⟩

variable {me : Actor}

theorem Effect.deleteSelf_perform (me : Actor) : Effect.deleteSelf.perform me =
    (do
      let object ← Act.self me
      if (object.stored? me.config.cloneSourceKey).isSome then do
        let windows ← request .outstanding
        flush windows
        ask (.delete object.id) fun _ => done .halt
      else done .next) := by
  simp only [Effect.perform, Act.deleteSelf, Act.bind_assoc]
  congr 1
  funext object
  split
  · simp only [Act.bind_assoc]
    rfl
  · rfl

/-- Deleting the object is the last thing that its script does. -/
theorem deleteSelf_comes {es : List Event} {id : String} {act : Act Turn}
    (h : (check >>= fun _ => Effect.deleteSelf.perform me).Comes (es ++ [.asks (.delete id) ()]) act) :
    act = done .halt := by
  have heffect : ¬(Request.delete id).Asks fun _ => True := fun h => nomatch h.1
  obtain ⟨b, hb, hlast⟩ := comes_append.mp h
  cases hlast with
  | head ht hact =>
    cases ht with
    | @ask _ next _ =>
      obtain ⟨-, _, _, -, -, hb⟩ := inquires_check.past heffect hb
      rw [Effect.deleteSelf_perform] at hb
      obtain ⟨object, _, _, -, -, hb⟩ := (asks_self me).uses.past heffect hb
      split at hb
      · obtain ⟨windows, _, _, -, -, hb⟩ := (asks_request rfl rfl).uses.past heffect hb
        obtain ⟨-, _, _, -, -, hb⟩ := (inquires_flush windows).past heffect hb
        cases hb with
        | refl =>
          cases hact
          rfl
        | head ht hb =>
          cases ht with
          | ask x => exact absurd (comes_done.mp hb).2 nofun
      · exact absurd (comes_done.mp hb).2 nofun

/-- Where it stops the script, it ends with having deleted the object. -/
theorem deleteSelf_halts {es : List Event}
    (h : (Effect.deleteSelf.perform me).Comes es (.done .halt)) :
    ∃ es' id, es = es' ++ [.asks (.delete id) ()] := by
  rw [Effect.deleteSelf_perform] at h
  obtain ⟨object, es₁, es₂, rfl, -, h⟩ := h.past
  split at h
  · obtain ⟨windows, es₃, es₄, rfl, -, h⟩ := h.past
    obtain ⟨-, es₅, es₆, rfl, -, h⟩ := h.past
    obtain ⟨-, es₇, rfl, h⟩ := comes_ask_done h
    obtain ⟨rfl, -⟩ := comes_done.mp h
    exact ⟨es₁ ++ (es₃ ++ es₅), object.id, by simp⟩
  · exact absurd (comes_done.mp h).2 nofun

theorem StopScope.all_comes (me : Actor) : (StopScope.all.perform me).Comes
    [.asks .stopSounds (), .asks .stopAll ()] (.done .halt) := by
  show (ask .stopSounds fun _ => ask .stopAll fun _ => done Turn.halt).Comes _ _
  exact .head (.ask (r := .stopSounds) ()) (.head (.ask (r := .stopAll) ()) .refl)

/-- What a loop or a glide goes on with does not halt. -/
theorem Frame.ne_halt {f left : Frame} {act : Act Turn} {es : List Event} {t : Turn}
    (hf : ∀ stmts, f ≠ block stmts) (h : f.resume me = some (left, act))
    (hes : act.Comes es (.done t)) : t ≠ .halt := by
  have hloop (hf : f.isLoop = true) : t ≠ .halt := by
    rcases (leavesOrSpends_resume h hf).2.2.gives hes with rfl | hrepeats
    · nofun
    · cases hrepeats <;> nofun
  cases f with
  | block stmts => exact absurd rfl (hf stmts)
  | glide g =>
    obtain ⟨rfl, huses⟩ := uses_glide h
    rcases huses.uses.gives hes with rfl | rfl <;> nofun
  | _ => exact hloop rfl

namespace Piece

variable {s : Option Stmt} {act b : Act Turn} {es : List Event}

theorem stopped (h : Piece me s act) (hes : act.Comes es (.done .halt)) :
    Story.Stopped ⟨s, es⟩ := by
  cases h with
  | statement s =>
    have huses : (check >>= fun _ => s.perform me).UsesProperly (s.rights.Allow me) s.Gives :=
      (carefully_check trivial).andThen fun _ => s.uses_perform me
    cases huses.uses.gives hes with
    | halt hs =>
      obtain ⟨rest, rfl, hperform⟩ := comes_check_done hes
      cases s with
      | effect e =>
        cases e with
        | deleteSelf =>
          obtain ⟨before, id, rfl⟩ := deleteSelf_halts hperform
          exact .deleted (_ :: before) id
        | _ => nomatch hs
      | stop scope =>
        cases scope with
        | thisScript =>
          obtain ⟨rfl, -⟩ := comes_done.mp hperform
          exact .thisScript
        | otherScripts => nomatch hs
        | all =>
          obtain ⟨_, rest₁, rfl, hsounds⟩ := comes_ask_done hperform
          obtain ⟨_, rest₂, rfl, hall⟩ := comes_ask_done hsounds
          obtain ⟨rfl, -⟩ := comes_done.mp hall
          exact .all
      | _ => nomatch hs
  | start =>
    obtain ⟨rest, rfl, hnext⟩ := comes_check_done hes
    exact absurd (comes_done.mp hnext).2 nofun
  | frame hf h => exact absurd rfl (Frame.ne_halt hf h hes)
  | done => exact absurd (comes_done.mp hes).2 nofun

theorem halts (h : Piece me s act) (hes : act.Comes es b) (hs : Story.Stopped ⟨s, es⟩) :
    b = .done .halt := by
  cases hs with
  | thisScript =>
    cases h with
    | statement => exact hes.eq (comes_check .refl)
  | all =>
    cases h with
    | statement => exact hes.eq (comes_check (StopScope.all_comes me))
  | deleted es id =>
    cases h with
    | statement => exact deleteSelf_comes hes

end Piece

/-! ### Runs -/

/-- What an execution went through since it began the piece at hand, out of all that it went
through. -/
def Story.of (es : List Event) : Story := es.foldl Story.after {}

namespace Machine

variable {m m₁ m' : Machine} {ev : Event} {es fs : List Event}

/-- What a machine goes through on the way to another, whatever it is answered. -/
inductive Log (me : Actor) : Machine → List Event → Machine → Prop where
  | nil {m : Machine} : Log me m [] m
  | cons {m m₁ m' : Machine} {ev : Event} {es : List Event} : m.Shows me ev m₁ →
    Log me m₁ es m' → Log me m (ev :: es) m'

theorem log_append (h : Log me m (es ++ fs) m') : ∃ m₁, Log me m es m₁ ∧ Log me m₁ fs m' := by
  induction es generalizing m with
  | nil => exact ⟨m, .nil, h⟩
  | cons ev es ih =>
    cases h with
    | cons hs h =>
      obtain ⟨m₁, h₁, h₂⟩ := ih h
      exact ⟨m₁, .cons hs h₁, h₂⟩

theorem Log.leads {h : Story} (hlog : Log me m es m') (hm : h.Leads me m) :
    (es.foldl Story.after h).Leads me m' := by
  induction hlog generalizing h with
  | nil => exact hm
  | cons hs _ ih => exact ih (hs.leads hm)

/-- A machine that halts takes no step. -/
theorem not_shows_of_halt (hm : m.act = .done .halt) : ¬m.Shows me ev m' := by
  intro h
  have hstep : m.step me = .finished (.ok ()) := by simp [step, hm]
  cases h with
  | silent h => cases hstep.symm.trans h
  | ask _ h => cases hstep.symm.trans h
  | wait _ h => cases hstep.symm.trans h

/-- A run from the start of a script halts just where a statement was carried out that stops the
script. -/
theorem halted_iff {body : List Stmt} {iterations : Nat} (h : Log me (start body iterations) es m) :
    m.act = .done .halt ↔ (Story.of es).Stopped := by
  obtain ⟨act, hpiece, hcomes⟩ := h.leads (start_leads me body iterations)
  exact ⟨fun hm => hpiece.stopped (hm ▸ hcomes), hpiece.halts hcomes⟩

end Machine

/-! ### Frames from their beginning to their end -/

/-- How a run comes to its end: it is through with all, or it halts. -/
inductive Flow where
  | next | halt

namespace Frame

/-- How it shows that a frame is gone on with. -/
def mark (f : Frame) : Event := .begins (statement? [f])

theorem mark_eq (f : Frame) (rest : List Frame) : .begins (statement? (f :: rest)) = f.mark := by
  cases f with
  | block stmts => cases stmts <;> rfl
  | _ => rfl

/-- A frame runs to its end, or to where the script halts within it, and this is what it goes
through. What it enters has to run to its end before it goes on itself. -/
inductive Runs (me : Actor) : Frame → List Event → Flow → Prop where
  | done {f : Frame} : f.resume me = none → Runs me f [f.mark] .next
  | leave {f left : Frame} {act : Act Turn} {es : List Event} :
    f.resume me = some (left, act) → act.Comes es (.done .leave) → Runs me f (f.mark :: es) .next
  | halt {f left : Frame} {act : Act Turn} {es : List Event} :
    f.resume me = some (left, act) → act.Comes es (.done .halt) → Runs me f (f.mark :: es) .halt
  | next {f left : Frame} {act : Act Turn} {es fs : List Event} {flow : Flow} :
    f.resume me = some (left, act) → act.Comes es (.done .next) → Runs me left fs flow →
    Runs me f (f.mark :: es ++ fs) flow
  | enter {f left g : Frame} {act : Act Turn} {es fs gs : List Event} {flow : Flow} :
    f.resume me = some (left, act) → act.Comes es (.done (.enter g)) → Runs me g fs .next →
    Runs me left gs flow → Runs me f (f.mark :: es ++ (fs ++ gs)) flow
  | within {f left g : Frame} {act : Act Turn} {es fs : List Event} :
    f.resume me = some (left, act) → act.Comes es (.done (.enter g)) → Runs me g fs .halt →
    Runs me f (f.mark :: es ++ fs) .halt

/-- The frames of a stack run, one after another. -/
inductive Unwinds (me : Actor) : List Frame → List Event → Flow → Prop where
  | nil : Unwinds me [] [] .next
  | next {f : Frame} {rest : List Frame} {es fs : List Event} {flow : Flow} :
    Runs me f es .next → Unwinds me rest fs flow → Unwinds me (f :: rest) (es ++ fs) flow
  | halt {f : Frame} {rest : List Frame} {es : List Event} :
    Runs me f es .halt → Unwinds me (f :: rest) es .halt

/-- A block that runs to its end begins all of its statements, in their order. -/
theorem Runs.sublist {f : Frame} {es : List Event} {flow : Flow} (h : Runs me f es flow)
    (hflow : flow = .next) {stmts : List Stmt} (hf : f = .block stmts) :
    (stmts.map fun s => Event.begins (some s)).Sublist es := by
  induction h generalizing stmts with
  | done h =>
    subst hf
    cases stmts with
    | nil => exact List.nil_sublist _
    | cons s rest => nomatch h
  | leave h hes =>
    subst hf
    cases stmts with
    | nil => nomatch h
    | cons s rest =>
      obtain ⟨rfl, huses⟩ := uses_block h
      nomatch huses.uses.gives hes
  | halt => nomatch hflow
  | next h _ _ ih =>
    subst hf
    cases stmts with
    | nil => nomatch h
    | cons s rest =>
      cases h
      exact .cons_cons _ ((ih hflow rfl).trans (List.sublist_append_right _ _))
  | enter h _ _ _ _ ih =>
    subst hf
    cases stmts with
    | nil => nomatch h
    | cons s rest =>
      cases h
      exact .cons_cons _ ((ih hflow rfl).trans
        ((List.sublist_append_right _ _).trans (List.sublist_append_right _ _)))
  | within => nomatch hflow

end Frame

namespace Machine

open Tabletop.Frame (Runs Unwinds)

variable {m m₁ m' : Machine} {ev : Event} {es fs : List Event} {flow : Flow}

/-- What a machine goes through up to its end. -/
inductive Ends (me : Actor) (m : Machine) : List Event → Flow → Prop where
  | halt {es : List Event} : m.act.Comes es (.done .halt) → Ends me m es .halt
  | turn {t : Turn} {es fs : List Event} {flow : Flow} : m.act.Comes es (.done t) → t ≠ .halt →
    Unwinds me (t.framesAfter m.stack) fs flow → Ends me m (es ++ fs) flow

/-- What comes after a frame is gone on with, with that. -/
theorem Ends.unwinds {guard : LoopGuard} {stack : List Frame}
    (h : unwind me guard stack = .silent m₁) (hm : Ends me m₁ es flow) :
    Unwinds me stack (.begins (Frame.statement? stack) :: es) flow := by
  cases stack with
  | nil => cases h
  | cons f rest =>
    rw [f.mark_eq rest]
    simp only [unwind] at h
    cases hf : f.resume me with
    | none =>
      rw [hf] at h
      cases h
      cases hm with
      | halt hes => cases (comes_done.mp hes).2
      | turn hes _ hrest =>
        obtain ⟨rfl, ht⟩ := comes_done.mp hes
        cases ht
        exact .next (.done hf) hrest
    | some p =>
      obtain ⟨left, act⟩ := p
      rw [hf] at h
      cases h
      cases hm with
      | halt hes => exact .halt (.halt hf hes)
      | @turn t es fs _ hes ht hrest =>
        rw [← List.cons_append]
        cases t with
        | next =>
          cases hrest with
          | @next _ _ fs gs _ hleft hrest =>
            rw [← List.append_assoc]
            exact .next (.next hf hes hleft) hrest
          | halt hleft => exact .halt (.next hf hes hleft)
        | enter g =>
          cases hrest with
          | @next _ _ fs gs _ hg hrest =>
            cases hrest with
            | @next _ _ gs hs _ hleft hrest =>
              rw [← List.append_assoc fs, ← List.append_assoc]
              exact .next (.enter hf hes hg hleft) hrest
            | halt hleft => exact .halt (.enter hf hes hg hleft)
          | halt hg => exact .halt (.within hf hes hg)
        | leave => exact .next (.leave hf hes) hrest
        | halt => exact absurd rfl ht

theorem Ends.shows (hs : m.Shows me ev m₁) (h : Ends me m₁ es flow) :
    Ends me m (ev :: es) flow := by
  obtain ⟨t, hact, rfl, hunwind⟩ | ⟨ht, hstack⟩ := hs.turns
  · have hne : t ≠ .halt := by
      rintro rfl
      nomatch hunwind
    have hnow : m.act.Comes [] (.done t) := hact ▸ .refl
    exact .turn hnow hne (h.unwinds hunwind)
  · cases h with
    | halt hes => exact .halt (.head ht hes)
    | turn hes hne hrest => exact .turn (.head ht hes) hne (hstack ▸ hrest)

/-- A machine that is finished and has not failed halts, or no frames are left. -/
theorem step_finished (h : m.step me = .finished (.ok ())) :
    ∃ t, m.act = .done t ∧ t.framesAfter m.stack = [] := by
  obtain ⟨guard, act, stack⟩ := m
  cases act with
  | done t =>
    refine ⟨t, rfl, ?_⟩
    rw [step_turn rfl] at h
    cases hframes : t.framesAfter stack with
    | nil => rfl
    | cons f rest =>
      simp only [hframes, unwind] at h
      split at h <;> cases h
  | tick next =>
    obtain ⟨_ | n⟩ := guard <;> cases h
  | _ => cases h

/-- What a machine went through that is finished. -/
theorem Log.ends (h : Log me m es m') (hm : m'.step me = .finished (.ok ())) :
    ∃ flow, Ends me m es flow ∧ (flow = .halt ↔ m'.act = .done .halt) := by
  induction h with
  | @nil m =>
    obtain ⟨t, hact, hframes⟩ := step_finished hm
    have hnow : m.act.Comes [] (.done t) := hact ▸ .refl
    by_cases ht : t = .halt
    · subst ht
      exact ⟨.halt, .halt hnow, iff_of_true rfl hact⟩
    · have hframes : Unwinds me (t.framesAfter m.stack) [] .next := hframes ▸ .nil
      refine ⟨.next, .turn hnow ht hframes, ?_⟩
      refine iff_of_false nofun fun h => ht ?_
      cases hact.symm.trans h
      rfl
  | cons hs _ ih =>
    obtain ⟨flow, hends, hflow⟩ := ih hm
    exact ⟨flow, hends.shows hs, hflow⟩

/-- A script that is finished went through its body. -/
theorem ends_start {body : List Stmt} {iterations : Nat} (h : Ends me (start body iterations) es flow) :
    ∃ fs, es = .asks .cancelled false :: fs ∧ Runs me (.block body) fs flow := by
  cases h with
  | halt hes =>
    obtain ⟨rest, -, hnext⟩ := comes_check_done hes
    exact absurd (comes_done.mp hnext).2 nofun
  | turn hes _ hrest =>
    obtain ⟨rest, rfl, hnext⟩ := comes_check_done hes
    obtain ⟨rfl, ht⟩ := comes_done.mp hnext
    cases ht
    cases hrest with
    | next hbody hrest =>
      cases hrest
      exact ⟨_, rfl, (List.append_nil _).symm ▸ hbody⟩
    | halt hbody => exact ⟨_, rfl, hbody⟩

/-- Whatever an execution of a script is answered, once a statement was carried out that stops the
script, nothing comes any more, and the execution ends without an error. An execution that ends so
has gone through the body of its script: either up to such a statement, or to the end of each frame
that it entered, and then it began every statement of the body. -/
theorem halts_where_stopped {body : List Stmt} {iterations : Nat}
    (h : Log me (start body iterations) es m) :
    (∀ fs gs, es = fs ++ gs → (Story.of fs).Stopped →
      gs = [] ∧ m.step me = .finished (.ok ())) ∧
    (m.step me = .finished (.ok ()) → ∃ flow fs, es = .asks .cancelled false :: fs ∧
      Runs me (.block body) fs flow ∧ (flow = .halt ↔ (Story.of es).Stopped) ∧
      (flow = .next → (body.map fun s => Event.begins (some s)).Sublist fs)) := by
  constructor
  · rintro fs gs rfl hstopped
    obtain ⟨m₁, hfs, hgs⟩ := log_append h
    have hact := (halted_iff hfs).mpr hstopped
    cases hgs with
    | nil => exact ⟨rfl, by simp [step, hact]⟩
    | cons hs _ => exact absurd hs (not_shows_of_halt hact)
  · intro hm
    obtain ⟨flow, hends, hflow⟩ := h.ends hm
    obtain ⟨fs, hes, hbody⟩ := ends_start hends
    exact ⟨flow, fs, hes, hbody, hflow.trans (halted_iff h), fun hflow => hbody.sublist hflow rfl⟩

/-- A loop that stops all scripts comes to no second iteration. -/
theorem halts_where_stopped_loop : ∃ (me : Actor) (es : List Event) (m : Machine),
    Log me (start [.forever [.stop .all, .effect .stopSounds]] 2) es m ∧ (Story.of es).Stopped ∧
      m.step me = .finished (.ok ()) ∧ ∃ fs, es = .asks .cancelled false :: fs ∧
        Runs me (.block [.forever [.stop .all, .effect .stopSounds]]) fs .halt := by
  let me : Actor := ⟨"top", "hat", none, {}⟩
  let es : List Event := [.asks .cancelled false,
    .begins (some (.forever [.stop .all, .effect .stopSounds])), .asks .cancelled false,
    .begins none, .spends, .waits .turn (), .asks .cancelled false,
    .begins (some (.stop .all)), .asks .cancelled false, .asks .stopSounds (), .asks .stopAll ()]
  obtain ⟨m, hlog⟩ :
      ∃ m, Log me (start [.forever [.stop .all, .effect .stopSounds]] 2) es m :=
    ⟨_, .cons (.ask (r := .cancelled) false rfl) <| .cons (.silent rfl) <|
      .cons (.ask (r := .cancelled) false rfl) <| .cons (.silent rfl) <| .cons (.silent rfl) <|
      .cons (.wait (p := .turn) () rfl) <| .cons (.ask (r := .cancelled) false rfl) <|
      .cons (.silent rfl) <| .cons (.ask (r := .cancelled) false rfl) <|
      .cons (.ask (r := .stopSounds) () rfl) <| .cons (.ask (r := .stopAll) () rfl) .nil⟩
  have hstopped : (Story.of es).Stopped := .all
  obtain ⟨hlast, hfinished⟩ := halts_where_stopped hlog
  have hstep := (hlast es [] (List.append_nil es).symm hstopped).2
  obtain ⟨flow, fs, hes, hbody, hflow, -⟩ := hfinished hstep
  obtain rfl := hflow.mpr hstopped
  exact ⟨me, es, m, hlog, hstopped, hstep, fs, hes, hbody⟩

end Machine

end Tabletop
