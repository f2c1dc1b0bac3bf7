import Tabletop.Execution.Effects

/-! What acts ask for, whatever they are answered. One predicate says what an act may ask for and what
it gives; each act of the library is shown once to keep to it. What is known of effects, of variables
and of loop iterations follows, for it is about what is asked for. -/

namespace Tabletop

/-! ### Requests -/

/-- The variable that a request reads or assigns. -/
def Request.variable? : Request → Option Variable
  | .read v | .assign v _ => some v
  | _ => none

namespace Request

/-- Whether a request is an effect: a write, a new or a deleted object, a variable, a message, the
end of scripts, or a sound. One that is left to play on its own begins when it is left. -/
def isEffect : Request → Bool
  | write _ _ | add _ | delete _ | assign _ _ | broadcast _ _ | stopOthers _ _ | stopAll
  | startSound _ | detachSound _ | stopSounds => true
  | _ => false

/-- Whether a request may cancel the execution that makes it. -/
def cancels : Request → Bool
  | broadcast _ _ | stopOthers _ _ | stopAll => true
  | _ => false

/-- Whether a request leaves everything as it is: the scene, the queue, the variables, and what
runs. -/
def isQuery : Request → Bool
  | invalidate => false
  | r => !r.isEffect

/-- A query that reads no variable but such. -/
def Asks (S : Variable → Prop) (r : Request) : Prop := r.isQuery = true ∧ ∀ v ∈ r.variable?, S v

theorem cancels_of_not_isEffect {r : Request} (h : r.isEffect = false) : r.cancels = false := by
  cases r <;> first | rfl | nomatch h

theorem not_isEffect_of_isQuery {r : Request} (h : r.isQuery = true) : r.isEffect = false := by
  cases r <;> first | rfl | nomatch h

end Request

/-- What a script is allowed to ask for, apart from questions about its scene. -/
structure Rights where
  reads : Variable → Prop
  assigns : Variable → Prop
  /-- Whether it may add copies of its object. -/
  copies : Prop
  /-- Whether it may delete its object. -/
  deletes : Prop

namespace Rights

/-- The rights of one that only reads variables. -/
def reading (S : Variable → Prop) : Rights := ⟨S, fun _ => False, False, False⟩

/-- What is asked for with some rights: writes go to the own object, and let it keep its id. -/
def Allow (g : Rights) (me : Actor) : Request → Prop
  | .read v => g.reads v
  | .assign v _ => g.assigns v
  | .write id edit => id = me.object ∧ ∀ o, (edit o).id = o.id
  | .add _ => g.copies
  | .delete _ => g.deletes
  | _ => True

theorem allow_of_asks {g : Rights} {me : Actor} {r : Request} (h : r.Asks g.reads) :
    g.Allow me r := by
  obtain ⟨hquery, hvariable⟩ := h
  cases r with
  | read v => exact hvariable v rfl
  | assign | write | add | delete => nomatch hquery
  | _ => trivial

theorem reads_or_assigns {g : Rights} {me : Actor} {r : Request} {v : Variable}
    (h : g.Allow me r) (hv : v ∈ r.variable?) : g.reads v ∨ g.assigns v := by
  cases r with
  | read w => exact .inl (Option.some.inj hv ▸ h)
  | assign w _ => exact .inr (Option.some.inj hv ▸ h)
  | _ => cases hv

end Rights

namespace Act

variable {α β : Type}

/-! ### Laws -/

@[simp] theorem bind_done (a : α) (f : α → Act β) : (done a >>= f) = f a := rfl

@[simp] theorem bind_fail (e : ExecError) (f : α → Act β) : (fail e >>= f) = fail e := rfl

@[simp] theorem bind_ask (r : Request) (next : r.Answer → Act α) (f : α → Act β) :
    (ask r next >>= f) = ask r fun a => next a >>= f := rfl

@[simp] theorem bind_wait (p : Pause) (next : p.Answer → Act α) (f : α → Act β) :
    (wait p next >>= f) = wait p fun a => next a >>= f := rfl

@[simp] theorem bind_tick (next : Act α) (f : α → Act β) :
    (tick next >>= f) = tick (next >>= f) := rfl

@[simp] theorem pure_eq (a : α) : (pure a : Act α) = done a := rfl

theorem bind_assoc {γ : Type} (a : Act α) (f : α → Act β) (g : β → Act γ) :
    (a >>= f >>= g) = a >>= fun x => f x >>= g := by
  induction a with
  | done a => rfl
  | fail e => rfl
  | ask r next ih => simp only [bind_ask, ih]
  | wait p next ih => simp only [bind_wait, ih]
  | tick next ih => simp only [bind_tick, ih]

/-! ### Acts that ask for what they may -/

/-- An act asks only for what it may, and what it gives is as stated. It spends no loop iteration and
does not fail for want of one. -/
inductive Uses (may : Request → Prop) (gives : α → Prop) : Act α → Prop where
  | done {a : α} : gives a → Uses may gives (done a)
  | fail {e : ExecError} : e ≠ .exhausted → Uses may gives (fail e)
  | ask {r : Request} {next : r.Answer → Act α} : may r → (∀ a, Uses may gives (next a)) →
    Uses may gives (ask r next)
  | wait {p : Pause} {next : p.Answer → Act α} : (∀ a, Uses may gives (next a)) →
    Uses may gives (wait p next)

section Uses

variable {may may' : Request → Prop} {P : α → Prop} {Q : β → Prop} {a : Act α} {f : α → Act β}

theorem Uses.bind (ha : Uses may P a) (hf : ∀ x, P x → Uses may Q (f x)) :
    Uses may Q (a >>= f) := by
  induction ha with
  | done h => exact hf _ h
  | fail h => exact .fail h
  | ask h _ ih => exact .ask h ih
  | wait _ ih => exact .wait ih

theorem Uses.mono {P' : α → Prop} (ha : Uses may P a) (hmay : ∀ r, may r → may' r)
    (hP : ∀ x, P x → P' x) : Uses may' P' a := by
  induction ha with
  | done h => exact .done (hP _ h)
  | fail h => exact .fail h
  | ask h _ ih => exact .ask (hmay _ h) ih
  | wait _ ih => exact .wait ih

theorem Uses.imp {P' : α → Prop} (ha : Uses may P a) (hP : ∀ x, P x → P' x) : Uses may P' a :=
  ha.mono (fun _ h => h) hP

theorem Uses.andThen (ha : Uses may (fun _ => True) a) (hf : ∀ x, Uses may Q (f x)) :
    Uses may Q (a >>= f) :=
  ha.bind fun x _ => hf x

theorem uses_request {r : Request} (h : may r) : Uses may (fun _ => True) (request r) :=
  .ask h fun _ => .done trivial

end Uses

/-! ### Questions -/

/-- An act that only asks, and reads no variable but such. -/
abbrev Inquires (S : Variable → Prop) (a : Act α) : Prop :=
  Uses (Request.Asks S) (fun _ => True) a

section Inquires

variable {S : Variable → Prop}

theorem inquires_done (a : α) : Inquires S (done a) := .done trivial

theorem inquires_request {r : Request} (h : r.isQuery = true) (hv : r.variable? = none) :
    Inquires S (request r) :=
  uses_request ⟨h, by simp [hv]⟩

theorem inquires_check : Inquires S check :=
  (inquires_request rfl rfl).andThen fun cancelled => by
    cases cancelled
    · exact inquires_done _
    · exact .fail nofun

theorem inquires_settle (windows : List Nat) : Inquires S (settle windows) := by
  induction windows with
  | nil => exact inquires_done _
  | cons window rest ih => exact .wait fun _ => ih

theorem inquires_flush (windows : List Nat) : Inquires S (flush windows) := by
  induction windows with
  | nil => exact inquires_done _
  | cons window rest ih =>
    refine .wait fun result => ?_
    cases result
    · exact .fail nofun
    · exact ih

theorem inquires_fetch (id : String) : Inquires S (fetch id) := by
  refine (inquires_request rfl rfl).andThen fun copy => ?_
  cases copy with
  | some o => exact inquires_done _
  | none =>
    exact (inquires_request rfl rfl).andThen fun windows => (inquires_settle windows).andThen
      fun _ => (inquires_request rfl rfl).andThen fun _ => inquires_done _

theorem inquires_fetchAll (filter : ObjectFilter) : Inquires S (fetchAll filter) := by
  have hwait (windows : List Nat) : Inquires S (fetchAll.untilFailure windows) := by
    induction windows with
    | nil => exact inquires_done _
    | cons window rest ih =>
      refine .wait fun result => ?_
      cases result
      · exact inquires_done _
      · exact ih
  exact (inquires_request rfl rfl).andThen fun windows => (hwait windows).andThen fun _ =>
    inquires_request (r := .objects filter) rfl rfl

end Inquires

/-- Questions need no more rights than the variables that they read. -/
theorem Inquires.allowed {g : Rights} {me : Actor} {a : Act α} (ha : Inquires g.reads a) :
    Uses (g.Allow me) (fun _ => True) a :=
  ha.mono (fun _ => Rights.allow_of_asks) fun _ _ => trivial

end Act

end Tabletop
