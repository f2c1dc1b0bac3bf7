import Tabletop.Proofs.Execution.Acts

/-! What an act still does once its execution was cancelled. An act is quiet if it then has no
effect; it is guarded if cancelling it anywhere leaves a quiet rest. The one wait that leaves more
is that of an object about to be deleted. -/

namespace Tabletop

/-- Whether a cancelled execution may get an answer. -/
def Request.OnceCancelled : (r : Request) → r.Answer → Prop
  | cancelled, a => a = true
  | _, _ => True

namespace Act

variable {α β : Type}

/-! ### Quiet acts -/

/-- Once cancelled, an act has no effect, and what it gives is as stated. -/
inductive Quiet (gives : α → Prop) : Act α → Prop where
  | done {a : α} : gives a → Quiet gives (done a)
  | fail {e : ExecError} : Quiet gives (fail e)
  | ask {r : Request} {next : r.Answer → Act α} : r.isEffect = false →
    (∀ a, r.OnceCancelled a → Quiet gives (next a)) → Quiet gives (ask r next)
  | wait {p : Pause} {next : p.Answer → Act α} : (∀ a, Quiet gives (next a)) →
    Quiet gives (wait p next)
  | tick {next : Act α} : Quiet gives next → Quiet gives (tick next)

theorem Quiet.bind {P : α → Prop} {Q : β → Prop} {a : Act α} {f : α → Act β} (ha : Quiet P a)
    (hf : ∀ v, P v → Quiet Q (f v)) : Quiet Q (a >>= f) := by
  induction ha with
  | done h => exact hf _ h
  | fail => exact .fail
  | ask h _ ih => exact .ask h ih
  | wait _ ih => exact .wait ih
  | tick _ ih => exact .tick ih

/-- An act that gives nothing once cancelled stays quiet, whatever comes after it. -/
theorem Quiet.stops {Q : β → Prop} {a : Act α} {f : α → Act β} (ha : Quiet (fun _ => False) a) :
    Quiet Q (a >>= f) :=
  ha.bind fun _ h => h.elim

theorem quiet_check {P : Unit → Prop} : Quiet P check :=
  .ask rfl fun a (h : a = true) => by subst h; exact .fail

/-- Questions have no effect. -/
theorem Inquires.quiet {S : Variable → Prop} {a : Act α} (h : Inquires S a) :
    Quiet (fun _ => True) a := by
  induction h with
  | done => exact .done trivial
  | fail => exact .fail
  | ask h _ ih => exact .ask (Request.not_isEffect_of_isQuery h.1) fun a _ => ih a
  | wait _ ih => exact .wait ih

/-! ### Guarded acts -/

/-- Waits for flushes, deletes an object, and gives a value. -/
def deletion (id : String) (v : α) (windows : List Nat) : Act α :=
  flush windows >>= fun _ => ask (.delete id) fun _ => done v

theorem deletion_bind {id : String} {v : α} {w : β} {windows : List Nat} {f : α → Act β}
    (h : f v = done w) : (deletion id v windows >>= f) = deletion id w windows := by
  rw [deletion, bind_assoc]
  simp only [bind_ask, bind_done, h]
  rfl

/-- Whatever was waited for, and after every request that may cancel, the rest is quiet. Only a
deletion may wait and go on; what it gives is as stated too. -/
inductive Guarded (gives deletes : α → Prop) : Act α → Prop where
  | done {a : α} : Guarded gives deletes (done a)
  | fail {e : ExecError} : Guarded gives deletes (fail e)
  | ask {r : Request} {next : r.Answer → Act α} :
    (r.cancels = true → ∀ a, Quiet gives (next a)) → (∀ a, Guarded gives deletes (next a)) →
    Guarded gives deletes (ask r next)
  | wait {p : Pause} {next : p.Answer → Act α} :
    Quiet gives (wait p next) → (∀ a, Guarded gives deletes (next a)) →
    Guarded gives deletes (wait p next)
  | delete {id : String} {v : α} {windows : List Nat} : deletes v →
    Guarded gives deletes (deletion id v windows)
  | tick {next : Act α} : Guarded gives deletes next → Guarded gives deletes (tick next)

theorem Guarded.bind {P D : α → Prop} {Q E : β → Prop} {a : Act α} {f : α → Act β}
    (ha : Guarded P D a) (hP : ∀ v, P v → Quiet Q (f v)) (hD : ∀ v, D v → ∃ w, f v = .done w ∧ E w)
    (hf : ∀ v, Guarded Q E (f v)) : Guarded Q E (a >>= f) := by
  induction ha with
  | done => exact hf _
  | fail => exact .fail
  | ask h _ ih => exact .ask (fun hc a => (h hc a).bind hP) ih
  | wait h _ ih => exact .wait (h.bind hP) ih
  | delete hv =>
    obtain ⟨w, hw, hE⟩ := hD _ hv
    rw [deletion_bind hw]
    exact .delete hE
  | tick _ ih => exact .tick ih

theorem deletion_cons (id : String) (v : α) (window : Nat) (rest : List Nat) :
    ∃ next, deletion id v (window :: rest) = wait (.flushed window) next ∧
      next (.ok ()) = deletion id v rest ∧ ∀ e, next (.error e) = fail (.host e) :=
  ⟨_, rfl, rfl, fun _ => rfl⟩

section Inversion

variable {P D : α → Prop} {r : Request} {p : Pause}

theorem Guarded.of_tick {next : Act α} (h : Guarded P D (.tick next)) : Guarded P D next := by
  generalize hact : Act.tick next = act at h
  cases h with
  | @delete id v windows _ =>
    cases windows <;> nomatch hact
  | tick h => cases hact; exact h
  | _ => nomatch hact

theorem Guarded.of_ask {next : r.Answer → Act α} (h : Guarded P D (.ask r next)) :
    (∀ a, Guarded P D (next a)) ∧ (r.cancels = true → ∀ a, Quiet P (next a)) := by
  generalize hact : Act.ask r next = act at h
  cases h with
  | ask hc h => cases hact; exact ⟨h, hc⟩
  | @delete id v windows _ =>
    cases windows with
    | nil => cases hact; exact ⟨fun _ => .done, fun h => nomatch h⟩
    | cons window rest => nomatch hact
  | _ => nomatch hact

theorem Guarded.of_wait {next : p.Answer → Act α} (h : Guarded P D (.wait p next)) :
    (∀ a, Guarded P D (next a)) ∧ (Quiet P (.wait p next) ∨
      ∃ id v windows, D v ∧ .wait p next = deletion id v windows) := by
  generalize hact : Act.wait p next = act at h
  cases h with
  | wait hq h => cases hact; exact ⟨h, .inl hq⟩
  | @delete id v windows hv =>
    refine ⟨?_, .inr ⟨id, v, windows, hv, rfl⟩⟩
    cases windows with
    | nil => nomatch hact
    | cons window rest =>
      cases hact
      intro result
      cases result with
      | error e => exact .fail
      | ok _ => exact .delete hv
  | _ => nomatch hact

end Inversion

/-- An act that checks after every wait, and makes no request that cancels. -/
abbrev Careful (a : Act α) : Prop := Guarded (fun _ => False) (fun _ => False) a

theorem Careful.andThen {Q E : β → Prop} {a : Act α} {f : α → Act β} (ha : Careful a)
    (hf : ∀ v, Guarded Q E (f v)) : Guarded Q E (a >>= f) :=
  Guarded.bind ha (fun _ h => h.elim) (fun _ h => h.elim) hf

theorem careful_check : Careful check :=
  .ask nofun fun a => by
    cases a
    · exact .done
    · exact .fail

/-- Questions that a check follows. -/
theorem Inquires.careful {S : Variable → Prop} {a : Act α} {f : α → Unit → Act β}
    (ha : Inquires S a) (hf : ∀ v, Careful (f v ())) :
    Careful (a >>= fun v => check >>= f v) := by
  induction ha with
  | done => exact careful_check.andThen fun _ => hf _
  | fail => exact .fail
  | ask h _ ih =>
    refine .ask (fun hc => ?_) ih
    rw [Request.cancels_of_not_isEffect (Request.not_isEffect_of_isQuery h.1)] at hc
    nomatch hc
  | wait h ih =>
    exact .wait (.wait fun a => (Inquires.quiet (h a)).bind fun v _ => quiet_check.stops) ih

end Act

end Tabletop
