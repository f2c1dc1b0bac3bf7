import Tabletop.Proofs.Execution.Quiet

/-! The operations on the host: what each of them may ask for, and that it is guarded. All but the
deletion of an object check after every wait. -/

namespace Tabletop

namespace Act

variable {α β : Type} {may : Request → Prop}

/-- An act asks only for what it may and gives what is stated, and it is guarded. -/
structure UsesGuarded (may : Request → Prop) (gives quits deletes : α → Prop) (a : Act α) :
    Prop where
  uses : Uses may gives a
  guarded : Guarded quits deletes a

/-- An act asks only for what it may, and is careful. -/
abbrev UsesCarefully (may : Request → Prop) (a : Act α) : Prop :=
  UsesGuarded may (fun _ => True) (fun _ => False) (fun _ => False) a

/-- An act only asks, reads no variable but such, and is careful. -/
abbrev AsksCarefully (S : Variable → Prop) (a : Act α) : Prop := UsesCarefully (Request.Asks S) a

section Combinators

variable {gives quits deletes : β → Prop}

theorem UsesGuarded.bind {Q D : α → Prop} {a : Act α} {f : α → Act β}
    (ha : UsesGuarded may (fun _ => True) Q D a) (hQ : ∀ v, Q v → Quiet quits (f v))
    (hD : ∀ v, D v → ∃ w, f v = .done w ∧ deletes w)
    (hf : ∀ v, UsesGuarded may gives quits deletes (f v)) :
    UsesGuarded may gives quits deletes (a >>= f) :=
  ⟨ha.uses.andThen fun v => (hf v).uses, ha.guarded.bind hQ hD fun v => (hf v).guarded⟩

theorem UsesCarefully.andThen {a : Act α} {f : α → Act β} (ha : UsesCarefully may a)
    (hf : ∀ v, UsesGuarded may gives quits deletes (f v)) :
    UsesGuarded may gives quits deletes (a >>= f) :=
  ⟨ha.uses.andThen fun v => (hf v).uses, Careful.andThen ha.guarded fun v => (hf v).guarded⟩

theorem UsesGuarded.done {x : β} (h : gives x) : UsesGuarded may gives quits deletes (done x) :=
  ⟨.done h, .done⟩

theorem UsesGuarded.fail {e : ExecError} (h : e ≠ .exhausted) :
    UsesGuarded may gives quits deletes (fail e) :=
  ⟨.fail h, .fail⟩

theorem UsesGuarded.ask {r : Request} {next : r.Answer → Act β} (h : may r)
    (hcancels : r.cancels = true → ∀ a, Quiet quits (next a))
    (hnext : ∀ a, UsesGuarded may gives quits deletes (next a)) :
    UsesGuarded may gives quits deletes (ask r next) :=
  ⟨.ask h fun a => (hnext a).uses, .ask hcancels fun a => (hnext a).guarded⟩

theorem UsesGuarded.wait {p : Pause} {next : p.Answer → Act β} (hquiet : ∀ a, Quiet quits (next a))
    (hnext : ∀ a, UsesGuarded may gives quits deletes (next a)) :
    UsesGuarded may gives quits deletes (wait p next) :=
  ⟨.wait fun a => (hnext a).uses, .wait (.wait hquiet) fun a => (hnext a).guarded⟩

theorem carefully_request {r : Request} (h : may r) (hcancels : r.cancels = false) :
    UsesCarefully may (request r) :=
  .ask h (fun hc => nomatch hcancels.symm.trans hc) fun _ => .done trivial

theorem carefully_check (h : may .cancelled) : UsesCarefully may check :=
  ⟨(uses_request h).andThen fun cancelled => by
    cases cancelled
    · exact .done trivial
    · exact .fail nofun, careful_check⟩

end Combinators

/-! ### Questions -/

section Questions

variable {S : Variable → Prop}

theorem asks_request {r : Request} (h : r.isQuery = true) (hv : r.variable? = none) :
    AsksCarefully S (request r) :=
  carefully_request ⟨h, by simp [hv]⟩
    (Request.cancels_of_not_isEffect (Request.not_isEffect_of_isQuery h))

/-- Questions that a check follows. -/
theorem Inquires.andCheck {a : Act α} {f : α → Unit → Act β} (ha : Inquires S a)
    (hmay : ∀ r, Request.Asks S r → may r) (hf : ∀ v, UsesCarefully may (f v ())) :
    UsesCarefully may (a >>= fun v => check >>= f v) :=
  have hasks {γ : Type} {b : Act γ} (h : Inquires S b) : Uses may (fun _ => True) b :=
    h.mono hmay fun _ => id
  ⟨(hasks ha).andThen fun v => (hasks inquires_check).andThen fun _ => (hf v).uses,
    ha.careful fun v => (hf v).guarded⟩

theorem asks_self (me : Actor) : AsksCarefully S (self me) := by
  refine (inquires_fetch me.object).andCheck (fun _ => id) fun found => ?_
  cases found
  · exact .fail nofun
  · exact .done trivial

theorem asks_lookup (target : Value) : AsksCarefully S (lookup target) := by
  unfold lookup
  split
  · exact .done trivial
  · exact (inquires_fetch _).andCheck (fun _ => id) fun _ => .done trivial

theorem asks_random (a b : Value) : AsksCarefully S (random a b) := by
  unfold random
  extract_lets
  split
  · exact .done trivial
  · split
    · exact (asks_request rfl rfl).andThen fun _ => .done trivial
    · split
      · exact (asks_request rfl rfl).andThen fun _ => .done trivial
      · exact .wait (fun never => (nomatch never)) fun never => (nomatch never)

theorem asks_distance (me : Actor) (target : Value) : AsksCarefully S (distance me target) := by
  refine (asks_lookup target).andThen fun other => ?_
  cases other
  · exact .done trivial
  · exact (asks_self me).andThen fun _ => .done trivial

theorem asks_propertyOf (p : ObjectProperty) (target : Value) :
    AsksCarefully S (propertyOf p target) := by
  refine (asks_lookup target).andThen fun other => ?_
  cases other <;> exact .done trivial

end Questions

/-! ### Operations with effects -/

section Operations

variable {g : Rights} {me : Actor} {gives quits deletes : β → Prop}

theorem AsksCarefully.allowed {a : Act α} (ha : AsksCarefully g.reads a) :
    UsesCarefully (g.Allow me) a :=
  ⟨Inquires.allowed ha.uses, ha.guarded⟩

/-- Questions come first, with no more rights than the variables that they read. -/
theorem AsksCarefully.before {a : Act α} {f : α → Act β} (ha : AsksCarefully g.reads a)
    (hf : ∀ v, UsesGuarded (g.Allow me) gives quits deletes (f v)) :
    UsesGuarded (g.Allow me) gives quits deletes (a >>= f) :=
  ha.allowed.andThen hf

theorem quiet_elapse (milliseconds : Nat) : Quiet (fun _ => False) (elapse milliseconds) :=
  .ask rfl fun _ _ => .wait fun _ => quiet_check

theorem quiet_sleep (milliseconds : Nat) : Quiet (fun _ => False) (sleep milliseconds) :=
  (quiet_elapse milliseconds).stops

theorem carefully_elapse (milliseconds : Nat) :
    UsesCarefully (g.Allow me) (elapse milliseconds) :=
  .ask trivial nofun fun _ => .wait (fun _ => quiet_check) fun _ => carefully_check trivial

theorem carefully_sleep (milliseconds : Nat) : UsesCarefully (g.Allow me) (sleep milliseconds) :=
  (carefully_elapse milliseconds).andThen fun _ => carefully_request (r := .invalidate) trivial rfl

/-- A write is waited for, and a check follows. -/
theorem carefully_mutate {edit : Edit} (h : ∀ o, (edit o).id = o.id) :
    UsesCarefully (g.Allow me) (mutate me edit) := by
  refine .ask ⟨rfl, h⟩ nofun fun window => .wait (fun result => ?_) fun result => ?_
  · cases result
    · exact .fail
    · exact quiet_check
  · cases result
    · exact .fail nofun
    · exact carefully_check trivial

theorem carefully_mutation {edit : Edit} {x : β} (h : ∀ o, (edit o).id = o.id) (hx : gives x) :
    UsesGuarded (g.Allow me) gives quits deletes (mutate me edit >>= fun _ => done x) :=
  (carefully_mutate h).andThen fun _ => .done hx

theorem carefully_arrange (order : ZOrder) : UsesCarefully (g.Allow me) (arrange me order) :=
  (asks_self me).before fun _ => (inquires_fetchAll _).andCheck
    (fun _ => Rights.allow_of_asks) fun _ => carefully_mutate fun _ => rfl

theorem carefully_play (name : Value) (toEnd : Bool) :
    UsesCarefully (g.Allow me) (play name toEnd) := by
  unfold play
  split
  · exact .done trivial
  · refine .ask (r := .sound _) trivial nofun fun found => ?_
    cases found with
    | none => exact .done trivial
    | some sound =>
      split
      · refine (carefully_request (r := .startSound sound) trivial rfl).andThen fun duration => ?_
        split
        · exact carefully_elapse _
        · exact carefully_check trivial
      · exact .ask (r := .detachSound sound) trivial nofun fun _ => .done trivial

theorem carefully_addTag (tag : Value) : UsesCarefully (g.Allow me) (addTag me tag) := by
  unfold addTag
  split
  · exact .done trivial
  · refine carefully_mutate fun o => ?_
    split <;> rfl

theorem carefully_removeTag (tag : Value) : UsesCarefully (g.Allow me) (removeTag me tag) := by
  unfold removeTag
  split
  · exact .done trivial
  · refine carefully_mutate fun o => ?_
    split <;> rfl

theorem carefully_goToObject (target : Value) :
    UsesCarefully (g.Allow me) (goToObject me target) := by
  refine (asks_lookup target).before fun other => ?_
  cases other
  · exact .done trivial
  · exact carefully_mutate fun _ => rfl

theorem carefully_cloneSelf (h : g.copies) : UsesCarefully (g.Allow me) (cloneSelf me) :=
  (asks_self me).before fun _ => .ask trivial nofun fun _ => .ask h nofun fun _ =>
    carefully_check trivial

/-- The one act that goes on after a wait without a check. -/
theorem usesGuarded_deleteSelf (h : g.deletes) :
    UsesGuarded (g.Allow me) (fun _ => True) (fun _ => False) (· = true) (deleteSelf me) := by
  refine (asks_self me).before fun object => ?_
  split
  · exact .ask trivial nofun fun windows =>
      ⟨(inquires_flush windows).allowed.andThen fun _ => .ask h fun _ => .done trivial,
        .delete rfl⟩
  · exact .done trivial

end Operations

end Act

end Tabletop
