import Tabletop.Execution.Machine
import Tabletop.Proofs.Execution.Operations

/-! What scripts ask for, and that they are guarded: one pass over expressions, statements and frames.
A statement reads and assigns variables that it names, and writes to its own object only; no statement
spends a loop iteration itself. A loop spends one before each time that it enters its body or waits
once more. -/

namespace Tabletop

/-! ### Occurrences -/

/-- The variables that an expression names. -/
def Expr.vars : Expr → List Variable
  | .variable v => [v]
  | .arith _ left right | .compare _ left right | .and left right | .or left right
  | .join left right | .letterOf left right | .contains left right | .random left right =>
    left.vars ++ right.vars
  | .not x | .length x | .round x | .math _ x | .touching x | .distanceTo x | .propertyOf _ x
  | .hasTag x => x.vars
  | .literal _ | .xPosition | .yPosition | .direction | .size | .text | .visible | .otherObject
  | .myId | .timer => []

/-- The expressions that an operation is given. -/
def Effect.operands : Effect → List Expr
  | .goTo x y => [x, y]
  | .glide seconds x y => [seconds, x, y]
  | .changeX x | .changeY x | .setX x | .setY x | .turn x _ | .pointInDirection x | .moveSteps x
  | .goToObject x | .setSize x | .changeSize x | .setText x | .playSound x _ | .addTag x
  | .removeTag x => [x]
  | .setVisible _ | .setLayer _ | .arrange _ | .setLocked _ | .stopSounds | .cloneSelf
  | .deleteSelf => []

def Effect.vars (e : Effect) : List Variable := e.operands.flatMap Expr.vars

def BroadcastTarget.vars : BroadcastTarget → List Variable
  | .object id => id.vars
  | _ => []

namespace Stmt

mutual

/-- The variables that a statement names, in its bodies too. -/
def vars : Stmt → List Variable
  | effect e => e.vars
  | setVariable v value => v :: value.vars
  | changeVariable v by_ => v :: by_.vars
  | ifElse condition yes no => condition.vars ++ (varsIn yes ++ varsIn no)
  | forever body => varsIn body
  | repeated times body => times.vars ++ varsIn body
  | repeatUntil condition body => condition.vars ++ varsIn body
  | waitUntil condition => condition.vars
  | wait seconds => seconds.vars
  | broadcast message target => message.vars ++ target.vars
  | stop _ => []

def varsIn : List Stmt → List Variable
  | [] => []
  | s :: rest => s.vars ++ varsIn rest

end

end Stmt

/-- The variables that what is left to do names. -/
def Frame.vars : Frame → List Variable
  | .block rest => Stmt.varsIn rest
  | .forever body | .times _ body => Stmt.varsIn body
  | .repeatUntil condition body => condition.vars ++ Stmt.varsIn body
  | .waitUntil condition => condition.vars
  | .glide _ => []

/-! ### How executions go on -/

/-- The variable that a statement sets or changes. -/
def Stmt.Assigns : Stmt → Variable → Prop
  | setVariable v _, w | changeVariable v _, w => w = v
  | _, _ => False

/-- Whether a statement may end its script. -/
def Stmt.mayHalt : Stmt → Bool
  | .effect .deleteSelf | .stop .thisScript | .stop .all => true
  | _ => false

/-- How an execution may go on after a statement. -/
inductive Stmt.Gives : Stmt → Turn → Prop where
  | next {s : Stmt} : Gives s .next
  | halt {s : Stmt} : s.mayHalt = true → Gives s .halt
  | glide {e : Effect} {g : Glide} : Gives (.effect e) (.enter (.glide g))
  | yes {condition : Expr} {yes no : List Stmt} :
    Gives (.ifElse condition yes no) (.enter (.block yes))
  | no {condition : Expr} {yes no : List Stmt} :
    Gives (.ifElse condition yes no) (.enter (.block no))
  | forever {body : List Stmt} : Gives (.forever body) (.enter (.forever body))
  | repeated {times : Expr} {n : Nat} {body : List Stmt} :
    Gives (.repeated times body) (.enter (.times n body))
  | repeatUntil {condition : Expr} {body : List Stmt} :
    Gives (.repeatUntil condition body) (.enter (.repeatUntil condition body))
  | waitUntil {condition : Expr} : Gives (.waitUntil condition) (.enter (.waitUntil condition))

/-- How a loop goes on with one more iteration. -/
inductive Frame.Repeats : Frame → Turn → Prop where
  | forever {body : List Stmt} : Repeats (.forever body) (.enter (.block body))
  | times {n : Nat} {body : List Stmt} : Repeats (.times n body) (.enter (.block body))
  | repeatUntil {condition : Expr} {body : List Stmt} :
    Repeats (.repeatUntil condition body) (.enter (.block body))
  | waitUntil {condition : Expr} : Repeats (.waitUntil condition) .next

/-- What a statement may ask for: it reads variables that it names, and a copy of its object is added,
or its object deleted, by one kind of statement each. -/
def Stmt.rights (s : Stmt) : Rights :=
  ⟨(· ∈ s.vars), s.Assigns, s = .effect .cloneSelf, s = .effect .deleteSelf⟩

open Act

/-! ### Expressions -/

theorem Expr.asks_eval {S : Variable → Prop} (me : Actor) (e : Expr) (h : ∀ v ∈ e.vars, S v) :
    AsksCarefully S (e.eval me) := by
  induction e with
  | literal | otherObject | myId => exact .done trivial
  | «variable» v =>
    have hv : Request.Asks S (.read v) := ⟨rfl, fun w hw => h w (Option.some.inj hw ▸ .head _)⟩
    exact carefully_request hv rfl
  | timer => exact (asks_request rfl rfl).andThen fun _ => .done trivial
  | arith _ _ _ hl hr | compare _ _ _ hl hr | join _ _ hl hr | letterOf _ _ hl hr
  | contains _ _ hl hr =>
    obtain ⟨h, h'⟩ := List.forall_mem_append.mp h
    exact (hl h).andThen fun _ => (hr h').andThen fun _ => .done trivial
  | and _ _ hl hr =>
    obtain ⟨h, h'⟩ := List.forall_mem_append.mp h
    refine (hl h).andThen fun _ => ?_
    split
    · exact (hr h').andThen fun _ => .done trivial
    · exact .done trivial
  | or _ _ hl hr =>
    obtain ⟨h, h'⟩ := List.forall_mem_append.mp h
    refine (hl h).andThen fun _ => ?_
    split
    · exact .done trivial
    · exact (hr h').andThen fun _ => .done trivial
  | not _ hx | length _ hx | round _ hx | math _ _ hx =>
    exact (hx h).andThen fun _ => .done trivial
  | random _ _ hl hr =>
    obtain ⟨h, h'⟩ := List.forall_mem_append.mp h
    exact (hl h).andThen fun _ => (hr h').andThen fun _ => asks_random _ _
  | xPosition | yPosition | direction | size | text | visible =>
    exact (asks_self me).andThen fun _ => .done trivial
  | touching _ hx =>
    exact (hx h).andThen fun _ => (asks_request rfl rfl).andThen fun _ => .done trivial
  | distanceTo _ hx => exact (hx h).andThen fun _ => asks_distance me _
  | propertyOf p _ hx => exact (hx h).andThen fun _ => asks_propertyOf p _
  | hasTag _ hx =>
    exact (hx h).andThen fun _ => (asks_self me).andThen fun _ => .done trivial

theorem Expr.inquires_eval (me : Actor) (e : Expr) : Inquires (fun _ => True) (e.eval me) :=
  (e.asks_eval me fun _ _ => trivial).uses

theorem BroadcastTarget.asks_resolve {S : Variable → Prop} (me : Actor) (target : BroadcastTarget)
    (h : ∀ v ∈ target.vars, S v) : AsksCarefully S (target.resolve me) := by
  cases target with
  | everyone | onlySelf => exact .done trivial
  | attachments => exact (inquires_fetchAll _).andCheck (fun _ => id) fun _ => .done trivial
  | object id => exact (id.asks_eval me h).andThen fun _ => .done trivial

/-! ### Statements -/

/-- What a machine may be at: it is guarded, and a deletion is the end of it. -/
abbrev Act.Proper (a : Act Turn) : Prop := Guarded (fun _ => True) (· = .halt) a

/-- An act of a script asks only for what it may and goes on as stated, and is proper. -/
abbrev Act.UsesProperly (may : Request → Prop) (gives : Turn → Prop) (a : Act Turn) : Prop :=
  UsesGuarded may gives (fun _ => True) (· = .halt) a

theorem Effect.uses_perform (me : Actor) (e : Effect) :
    (e.perform me).UsesProperly ((Stmt.effect e).rights.Allow me) (Stmt.Gives (.effect e)) := by
  have hx (x : Expr) (hx : x ∈ e.operands) :
      AsksCarefully (Stmt.effect e).rights.reads (x.eval me) :=
    x.asks_eval me fun v hv => List.mem_flatMap.mpr ⟨x, hx, hv⟩
  cases e with
  | goTo x y =>
    exact (hx x (by simp [operands])).before fun _ => (hx y (by simp [operands])).before fun _ =>
      carefully_mutation (fun _ => rfl) .next
  | changeX x | changeY x | setX x | setY x | turn x _ | pointInDirection x | moveSteps x
  | setSize x | changeSize x | setText x =>
    exact (hx x (.head _)).before fun _ => carefully_mutation (fun _ => rfl) .next
  | setVisible _ | setLayer _ | setLocked _ =>
    exact carefully_mutation (fun _ => rfl) .next
  | glide seconds x y =>
    refine (hx seconds (by simp [operands])).before fun _ =>
      (hx x (by simp [operands])).before fun _ => (hx y (by simp [operands])).before fun _ => ?_
    split
    · exact carefully_mutation (fun _ => rfl) .next
    · exact (asks_self me).before fun _ => (asks_request rfl rfl).before fun _ => .done .glide
  | goToObject target =>
    exact (hx target (.head _)).before fun _ => (carefully_goToObject _).andThen fun _ =>
      .done .next
  | arrange order => exact (carefully_arrange order).andThen fun _ => .done .next
  | playSound name toEnd =>
    exact (hx name (.head _)).before fun _ => (carefully_play _ toEnd).andThen fun _ => .done .next
  | stopSounds => exact .ask trivial nofun fun _ => .done .next
  | addTag tag =>
    exact (hx tag (.head _)).before fun _ => (carefully_addTag _).andThen fun _ => .done .next
  | removeTag tag =>
    exact (hx tag (.head _)).before fun _ => (carefully_removeTag _).andThen fun _ => .done .next
  | cloneSelf => exact (carefully_cloneSelf rfl).andThen fun _ => .done .next
  | deleteSelf =>
    refine (usesGuarded_deleteSelf rfl).bind (fun _ h => h.elim) ?_ fun deleted => ?_
    · rintro _ rfl
      exact ⟨.halt, rfl, rfl⟩
    · cases deleted
      · exact .done .next
      · exact .done (.halt rfl)

/-- A statement itself spends no iteration; its loop does. -/
theorem Stmt.uses_perform (me : Actor) (s : Stmt) :
    (s.perform me).UsesProperly (s.rights.Allow me) s.Gives := by
  cases s with
  | effect e => exact e.uses_perform me
  | setVariable v value =>
    exact (value.asks_eval me fun _ => .tail _).before fun x =>
      .ask rfl nofun fun _ => .done .next
  | changeVariable v by_ =>
    exact (by_.asks_eval me fun _ => .tail _).before fun _ =>
      .ask (.head _) nofun fun _ => .ask rfl nofun fun _ => .done .next
  | ifElse condition yes no =>
    refine (condition.asks_eval me fun _ => List.mem_append_left _).before fun _ => ?_
    split
    · exact .done .yes
    · exact .done .no
  | forever body => exact .done .forever
  | repeated times body =>
    exact (times.asks_eval me fun _ => List.mem_append_left _).before fun _ => .done .repeated
  | repeatUntil condition body => exact .done .repeatUntil
  | waitUntil condition => exact .done .waitUntil
  | wait seconds =>
    exact (seconds.asks_eval me fun _ => id).before fun _ => (carefully_sleep _).andThen fun _ =>
      .done .next
  | broadcast message target =>
    -- the message may start this very script again, hence the check after it
    exact (message.asks_eval me fun _ => List.mem_append_left _).before fun _ =>
      (target.asks_resolve me fun _ => List.mem_append_right _).before fun _ =>
        .ask trivial (fun _ _ => quiet_check.stops) fun _ =>
          (carefully_check trivial).andThen fun _ => .done .next
  | stop scope =>
    cases scope with
    | thisScript => exact .done (.halt rfl)
    | otherScripts => exact .ask trivial (fun _ _ => .done trivial) fun _ => .done .next
    | all =>
      exact .ask trivial nofun fun _ => .ask trivial (fun _ _ => .done trivial) fun _ =>
        .done (.halt rfl)

/-! ### Frames -/

namespace Act

variable {α : Type} {may : Request → Prop} {f : Frame}

/-- The act of a loop: it asks only for what it may, and either leaves the loop, or spends one
iteration and goes on with the loop. -/
inductive LeavesOrSpends (may : Request → Prop) (f : Frame) : Act Turn → Prop where
  | leave : LeavesOrSpends may f (done .leave)
  | fail {e : ExecError} : e ≠ .exhausted → LeavesOrSpends may f (fail e)
  | ask {r : Request} {next : r.Answer → Act Turn} : may r →
    (∀ a, LeavesOrSpends may f (next a)) → LeavesOrSpends may f (ask r next)
  | wait {p : Pause} {next : p.Answer → Act Turn} : (∀ a, LeavesOrSpends may f (next a)) →
    LeavesOrSpends may f (wait p next)
  | spend {next : Act Turn} : Uses may f.Repeats next → LeavesOrSpends may f (tick next)

theorem Uses.leavesOrSpends {a : Act α} {k : α → Act Turn} (ha : Uses may (fun _ => True) a)
    (hk : ∀ x, LeavesOrSpends may f (k x)) : LeavesOrSpends may f (a >>= k) := by
  induction ha with
  | done => exact hk _
  | fail h => exact .fail h
  | ask h _ ih => exact .ask h ih
  | wait _ ih => exact .wait ih

end Act

namespace Frame

variable {me : Actor}

/-- Whether a frame is a loop. -/
def isLoop : Frame → Bool
  | forever _ | times _ _ | repeatUntil _ _ | waitUntil _ => true
  | block _ | glide _ => false

/-- A loop reads the variables that it names, and has no other rights of its own. -/
def rights (f : Frame) : Rights := .reading (· ∈ f.vars)

theorem uses_block {s : Stmt} {rest : List Stmt} {left : Frame} {act : Act Turn}
    (h : (block (s :: rest)).resume me = some (left, act)) :
    left = block rest ∧ act.UsesProperly (s.rights.Allow me) s.Gives := by
  cases h
  exact ⟨rfl, (carefully_check trivial).andThen fun _ => s.uses_perform me⟩

/-- A glide goes on with itself, or leaves. -/
theorem uses_glide {g : Glide} {left : Frame} {act : Act Turn}
    (h : (glide g).resume me = some (left, act)) :
    left = glide g ∧
      act.UsesProperly ((glide g).rights.Allow me) fun t => t = .next ∨ t = .leave := by
  cases h
  refine ⟨rfl, (carefully_sleep _).andThen fun _ => (asks_request rfl rfl).before fun _ =>
    UsesCarefully.andThen (carefully_mutate fun _ => rfl) fun _ => ?_⟩
  split
  · exact .done (.inr rfl)
  · exact .done (.inl rfl)

theorem leavesOrSpends_again {f : Frame} {body : List Stmt}
    (h : f.Repeats (.enter (.block body))) :
    (again body).LeavesOrSpends (f.rights.Allow me) f :=
  .spend (.wait fun _ => inquires_check.allowed.andThen fun _ => .done h)

/-- A loop spends an iteration before it goes on. -/
theorem leavesOrSpends_resume {f left : Frame} {act : Act Turn}
    (h : f.resume me = some (left, act)) (hf : f.isLoop = true) :
    left.isLoop = true ∧ left.vars = f.vars ∧ act.LeavesOrSpends (left.rights.Allow me) left := by
  cases f with
  | block | glide => nomatch hf
  | forever body => cases h; exact ⟨rfl, rfl, leavesOrSpends_again .forever⟩
  | times n body =>
    cases n with
    | zero => nomatch h
    | succ n => cases h; exact ⟨rfl, rfl, leavesOrSpends_again .times⟩
  | repeatUntil condition body =>
    cases h
    have hasks := condition.asks_eval (S := (repeatUntil condition body).rights.reads) me
      fun _ => List.mem_append_left _
    refine ⟨rfl, rfl, hasks.allowed.uses.leavesOrSpends fun _ => ?_⟩
    split
    · exact .leave
    · exact leavesOrSpends_again .repeatUntil
  | waitUntil condition =>
    cases h
    have hasks := condition.asks_eval (S := (waitUntil condition).rights.reads) me fun _ => id
    refine ⟨rfl, rfl, hasks.allowed.uses.leavesOrSpends fun _ => ?_⟩
    split
    · exact .leave
    · exact .spend ((carefully_sleep _).uses.andThen fun _ => .done .waitUntil)

theorem quiet_again (body : List Stmt) : Quiet (fun _ => True) (again body) :=
  .tick (.wait fun _ => quiet_check.stops)

theorem proper_again (body : List Stmt) : (again body).Proper :=
  .tick (.wait (.wait fun _ => quiet_check.stops) fun _ => careful_check.andThen fun _ => .done)

/-- A loop that asks for its condition first is guarded, and so is what comes after it. -/
theorem guarded_condition {condition : Expr} {k : Value → Act Turn}
    (hk : ∀ v, Quiet (fun _ => True) (k v) ∧ (k v).Proper) :
    Quiet (fun _ => True) (condition.eval me >>= k) ∧ (condition.eval me >>= k).Proper :=
  have hasks : AsksCarefully (fun _ => True) (condition.eval me) :=
    condition.asks_eval me fun _ _ => trivial
  ⟨(Inquires.quiet hasks.uses).bind fun v _ => (hk v).1,
    Careful.andThen hasks.guarded fun v => (hk v).2⟩

/-- What a frame goes on with is guarded, and quiet once the execution was cancelled. -/
theorem resume_guarded {f left : Frame} {act : Act Turn} (h : f.resume me = some (left, act)) :
    Quiet (fun _ => True) act ∧ act.Proper := by
  cases f with
  | block stmts =>
    cases stmts with
    | nil => nomatch h
    | cons s rest =>
      have hproper := (uses_block h).2.guarded
      cases h
      exact ⟨quiet_check.stops, hproper⟩
  | glide g =>
    have hproper := (uses_glide h).2.guarded
    cases h
    exact ⟨(quiet_sleep _).stops, hproper⟩
  | forever body => cases h; exact ⟨quiet_again body, proper_again body⟩
  | times n body =>
    cases n with
    | zero => nomatch h
    | succ n => cases h; exact ⟨quiet_again body, proper_again body⟩
  | repeatUntil condition body =>
    cases h
    refine guarded_condition fun v => ?_
    split
    · exact ⟨.done trivial, .done⟩
    · exact ⟨quiet_again body, proper_again body⟩
  | waitUntil condition =>
    cases h
    refine guarded_condition fun v => ?_
    split
    · exact ⟨.done trivial, .done⟩
    · have hsleep : UsesCarefully ((Rights.reading fun _ => True).Allow me)
          (sleep me.config.frame) := carefully_sleep _
      have hnext : (sleep me.config.frame >>= fun _ => done Turn.next).Proper :=
        Careful.andThen hsleep.guarded fun _ => .done
      exact ⟨.tick (quiet_sleep _).stops, .tick hnext⟩

end Frame

end Tabletop
