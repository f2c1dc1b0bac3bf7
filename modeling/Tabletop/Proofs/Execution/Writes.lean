import Tabletop.Proofs.Execution.Traces

/-! What scripts write. A statement writes to its own object, adds copies of it, and deletes it, having
looked at it before; and no statement assigns a variable but those that set or change it. -/

namespace Tabletop

open Act

/-! ### Confined acts -/

namespace Request

/-- The states of its own object that an answer shows to an execution. -/
def sights (me : Actor) : (r : Request) → r.Answer → List SceneObject
  | cached id, some o => if id = me.object then [o] else []
  | objects (.ids [id]), found => if id = me.object then found else []
  | _, _ => []

/-- What an execution may ask for that has seen some states of its own object. -/
def Allowed (me : Actor) (assigns : Variable → Prop) (seen : List SceneObject) : Request → Prop
  | assign v _ => assigns v
  | write id edit => id = me.object ∧ ∀ o, (edit o).id = o.id
  | add o => ∃ source ∈ seen, ∃ tag, o = copyOf me source tag
  | delete id => ∃ o ∈ seen, (o.stored? me.config.cloneSourceKey).isSome ∧ id = o.id
  | _ => True

end Request

namespace Act

variable {α β : Type} {me : Actor} {assigns : Variable → Prop} {seen : List SceneObject}

/-- An act asks for what it may only, and what it gives is as stated. -/
inductive Confined (me : Actor) (assigns : Variable → Prop)
    (gives : List SceneObject → α → Prop) : List SceneObject → Act α → Prop where
  | done {seen : List SceneObject} {a : α} : gives seen a → Confined me assigns gives seen (done a)
  | fail {seen : List SceneObject} {e : ExecError} : Confined me assigns gives seen (fail e)
  | ask {seen : List SceneObject} {r : Request} {next : r.Answer → Act α} :
    r.Allowed me assigns seen →
    (∀ a, Confined me assigns gives (seen ++ r.sights me a) (next a)) →
    Confined me assigns gives seen (ask r next)
  | wait {seen : List SceneObject} {p : Pause} {next : p.Answer → Act α} :
    (∀ a, Confined me assigns gives seen (next a)) → Confined me assigns gives seen (wait p next)
  | tick {seen : List SceneObject} {next : Act α} : Confined me assigns gives seen next →
    Confined me assigns gives seen (tick next)

theorem Confined.bind {P : List SceneObject → α → Prop} {Q : List SceneObject → β → Prop}
    {a : Act α} {f : α → Act β} (ha : Confined me assigns P seen a)
    (hf : ∀ seen' x, seen ⊆ seen' → P seen' x → Confined me assigns Q seen' (f x)) :
    Confined me assigns Q seen (a >>= f) := by
  induction ha with
  | done h => exact hf _ _ (List.Subset.refl _) h
  | fail => exact .fail
  | ask h _ ih =>
    refine .ask h fun a => ih a fun seen' x hs => hf seen' x ?_
    exact List.Subset.trans (List.subset_append_left _ _) hs
  | wait _ ih => exact .wait fun a => ih a hf
  | tick _ ih => exact .tick (ih hf)

/-- An act that is confined, whatever it gives. -/
abbrev Keeps (me : Actor) (assigns : Variable → Prop) (seen : List SceneObject) (a : Act α) :
    Prop :=
  Confined me assigns (fun _ _ => True) seen a

theorem Keeps.andThen {Q : List SceneObject → β → Prop} {a : Act α} {f : α → Act β}
    (ha : Keeps me assigns seen a)
    (hf : ∀ seen' x, seen ⊆ seen' → Confined me assigns Q seen' (f x)) :
    Confined me assigns Q seen (a >>= f) :=
  ha.bind fun seen' x hs _ => hf seen' x hs

/-- Who adds no copies and deletes nothing needs not have seen anything. -/
theorem Request.allowed_of_allow {g : Rights} {r : Request} (h : g.Allow me r)
    (hcopies : ¬g.copies) (hdeletes : ¬g.deletes) (hassigns : ∀ v, g.assigns v → assigns v) :
    r.Allowed me assigns seen := by
  cases r with
  | add o => exact absurd h hcopies
  | delete id => exact absurd h hdeletes
  | assign v x => exact hassigns v h
  | write id edit => exact h
  | _ => trivial

theorem Uses.keeps {g : Rights} {P : α → Prop} {a : Act α} (h : Uses (g.Allow me) P a)
    (hcopies : ¬g.copies) (hdeletes : ¬g.deletes) (hassigns : ∀ v, g.assigns v → assigns v) :
    Keeps me assigns seen a := by
  induction h generalizing seen with
  | done => exact .done trivial
  | fail => exact .fail
  | ask h _ ih =>
    exact .ask (Request.allowed_of_allow h hcopies hdeletes hassigns) fun a => ih a
  | wait _ ih => exact .wait fun a => ih a

theorem Inquires.keeps {S : Variable → Prop} {a : Act α} (h : Inquires S a) :
    Keeps me assigns seen a :=
  (Inquires.allowed (g := .reading S) h).keeps id id fun _ => False.elim

theorem LeavesOrSpends.keeps {f : Frame} {S : Variable → Prop} {a : Act Turn}
    (h : LeavesOrSpends ((Rights.reading S).Allow me) f a) : Keeps me assigns seen a := by
  induction h generalizing seen with
  | leave => exact .done trivial
  | fail => exact .fail
  | ask h _ ih =>
    exact .ask (Request.allowed_of_allow h id id fun _ => False.elim) fun a => ih a
  | wait _ ih => exact .wait fun a => ih a
  | spend h => exact .tick (h.keeps id id fun _ => False.elim)

/-! ### Copies and deletions -/

/-- Who fetches its own object has seen what it got. -/
theorem confined_fetch :
    Confined me assigns (fun seen found => ∀ o ∈ found, o ∈ seen) seen (fetch me.object) := by
  refine .ask (r := .cached me.object) trivial fun copy => ?_
  cases copy with
  | some o =>
    refine .done fun o' ho' => ?_
    cases ho'
    simp [Request.sights]
  | none =>
    refine .ask (r := .outstanding) trivial fun windows =>
      (inquires_settle (S := fun _ => True) windows).keeps.andThen fun seen' _ _ =>
        .ask (r := .objects (.ids [me.object])) trivial fun found => .done fun o ho => ?_
    refine List.mem_append_right _ ?_
    rw [Request.sights, if_pos rfl]
    exact List.mem_of_getLast? ho

theorem keeps_check : Keeps me assigns seen check :=
  (inquires_check (S := fun _ => True)).keeps

theorem confined_self : Confined me assigns (fun seen o => o ∈ seen) seen (self me) := by
  refine confined_fetch.bind fun seen' found _ hfound => keeps_check.andThen fun seen'' _ hs => ?_
  cases found with
  | none => exact .fail
  | some o => exact .done (hs (hfound o rfl))

theorem keeps_cloneSelf : Keeps me assigns seen (cloneSelf me) :=
  confined_self.bind fun _ source _ hsource => .ask trivial fun tag =>
    .ask ⟨source, List.mem_append_left _ hsource, tag, rfl⟩ fun _ => keeps_check

theorem keeps_deleteSelf : Keeps me assigns seen (deleteSelf me) := by
  refine confined_self.bind fun _ o _ ho => ?_
  split
  · next hclone =>
    exact .ask trivial fun windows =>
      (inquires_flush (S := fun _ => True) windows).keeps.andThen fun _ _ hs =>
        .ask ⟨o, hs (List.mem_append_left _ ho), hclone, rfl⟩ fun _ => .done trivial
  · exact .done trivial

end Act

/-! ### Pieces -/

section Pieces

variable {me : Actor} {seen : List SceneObject}

theorem Stmt.keeps_perform (s : Stmt) : Keeps me s.Assigns seen (s.perform me) := by
  by_cases hclone : s = .effect .cloneSelf
  · subst hclone
    exact keeps_cloneSelf.andThen fun _ _ _ => .done trivial
  · by_cases hdelete : s = .effect .deleteSelf
    · subst hdelete
      refine keeps_deleteSelf.andThen fun _ deleted _ => ?_
      cases deleted <;> exact .done trivial
    · exact (s.uses_perform me).uses.keeps hclone hdelete fun _ => id

/-- What a loop or a glide goes on with assigns nothing. -/
theorem Frame.keeps_resume {f left : Frame} {act : Act Turn} {assigns : Variable → Prop}
    (hf : ∀ stmts, f ≠ block stmts) (h : f.resume me = some (left, act)) :
    Keeps me assigns seen act := by
  cases f with
  | block stmts => exact absurd rfl (hf stmts)
  | glide g =>
    obtain ⟨-, huses⟩ := uses_glide h
    exact huses.uses.keeps id id fun _ => False.elim
  | _ =>
    obtain ⟨-, -, hact⟩ := leavesOrSpends_resume h rfl
    exact hact.keeps

/-- The variable that a piece of a script sets or changes. -/
def Stmt.AssignedBy (s : Option Stmt) : Variable → Prop := s.elim (fun _ => False) Stmt.Assigns

theorem Piece.keeps {s : Option Stmt} {act : Act Turn} (h : Piece me s act) :
    Keeps me (Stmt.AssignedBy s) seen act := by
  cases h with
  | statement s => exact keeps_check.andThen fun _ _ _ => s.keeps_perform
  | start => exact keeps_check.andThen fun _ _ _ => .done trivial
  | frame hf h => exact Frame.keeps_resume hf h
  | done => exact .done trivial

end Pieces

/-! ### On the way -/

def Event.sights (me : Actor) : Event → List SceneObject
  | asks r a => r.sights me a
  | _ => []

namespace Act

variable {α : Type} {me : Actor} {assigns : Variable → Prop} {seen : List SceneObject}
  {gives : List SceneObject → α → Prop} {a b : Act α} {es : List Event}

/-- What a confined act comes to is confined by what was seen on the way. -/
theorem Confined.comes (h : Confined me assigns gives seen a)
    (hes : a.Comes es b) : Confined me assigns gives (seen ++ es.flatMap (Event.sights me)) b := by
  induction hes generalizing seen with
  | refl => simpa using h
  | head ht _ ih =>
    rw [List.flatMap_cons, ← List.append_assoc]
    refine ih ?_
    cases ht with
    | ask x =>
      cases h with
      | ask _ h => exact h x
    | wait x =>
      cases h with
      | wait h => simpa [Event.sights] using h x
    | tick =>
      cases h with
      | tick h => simpa [Event.sights] using h

theorem Confined.allowed {r : Request} {next : r.Answer → Act α}
    (h : Confined me assigns gives seen (Act.ask r next)) : r.Allowed me assigns seen := by
  cases h with
  | ask h _ => exact h

end Act

/-- What a piece of a script may ask for, by what it saw before. -/
theorem Piece.allowed {me : Actor} {s : Option Stmt} {act : Act Turn} {es : List Event}
    {r : Request} {next : r.Answer → Act Turn} (h : Piece me s act)
    (hes : act.Comes es (.ask r next)) :
    r.Allowed me (Stmt.AssignedBy s) (es.flatMap (Event.sights me)) := by
  have hkeeps : Keeps me (Stmt.AssignedBy s) [] act := h.keeps
  have := (hkeeps.comes hes).allowed
  rwa [List.nil_append] at this

end Tabletop
