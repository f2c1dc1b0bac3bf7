import Tabletop.Proofs.Execution.Writes
import Tabletop.Proofs.Session.Chronicle

/-! What becomes of variables. However the scripts of a session are interleaved, and wherever the
operands of their statements wait, the variables are what the statements that set or change one make
of them, one after another. -/

namespace Tabletop

/-! ### Statements -/

/-- The operand of a statement that sets or changes a variable, with the check before it. -/
def Expr.operand (e : Expr) (me : Actor) : Act Value := do
  Act.check
  e.eval me

namespace Story

variable {me : Actor} {h : Story} {ev : Event}

/-- A statement is at hand, and an event completes it. -/
def Ends (me : Actor) (h : Story) (s : Stmt) (ev : Event) : Prop :=
  h.statement = some s ∧
    (do Act.check; s.perform me : Act Turn).Comes (h.events ++ [ev]) (.done .next)

/-- The operand of the statement at hand came to a value. -/
def Yields (me : Actor) (h : Story) (e : Expr) (x : Value) : Prop :=
  ∃ es, es <+: h.events ∧ (e.operand me).Comes es (.done x)

theorem Yields.eq {e : Expr} {x y : Value} (hx : h.Yields me e x) (hy : h.Yields me e y) :
    x = y := by
  obtain ⟨es, hes, hx⟩ := hx
  obtain ⟨fs, hfs, hy⟩ := hy
  rcases List.prefix_or_prefix_of_prefix hes hfs with hp | hp
  · cases (hx.length_le hy hp).2
    rfl
  · cases (hy.length_le hx hp).2
    rfl

end Story

open Act

section Statements

variable {me : Actor} {e : Expr} {v w : Variable} {a : Value} {es : List Event}

theorem Expr.inquires_operand (e : Expr) (me : Actor) :
    Inquires (fun _ => True) (e.operand me) :=
  Uses.andThen inquires_check fun _ => e.inquires_eval me

/-- The operand comes to a value before anything is assigned. -/
theorem comes_operand {k : Value → Act Turn} {next : Unit → Act Turn}
    (hes : (e.operand me >>= k).Comes es (.ask (.assign v a) next)) : ∃ x es₁ es₂, es = es₁ ++ es₂ ∧
      (e.operand me).Comes es₁ (.done x) ∧ (k x).Comes es₂ (.ask (.assign v a) next) :=
  (e.inquires_operand me).past (fun h => nomatch h.1) hes

theorem perform_setVariable (me : Actor) (v : Variable) (e : Expr) :
    (do Act.check; (Stmt.setVariable v e).perform me) =
      e.operand me >>= fun x => .ask (.assign v x) fun _ => .done .next :=
  (Act.bind_assoc ..).symm

theorem perform_changeVariable (me : Actor) (v : Variable) (e : Expr) :
    (do Act.check; (Stmt.changeVariable v e).perform me) =
      e.operand me >>= fun x => .ask (.read v) fun y =>
        .ask (.assign v (.number (Value.toNumber y + x.toNumber))) fun _ => .done .next :=
  (Act.bind_assoc ..).symm

/-- Only a statement that sets or changes a variable assigns it: the value of its operand, or that
added to what it read just before. That is the end of the statement. -/
theorem Piece.assigns {s : Option Stmt} {act : Act Turn} {next : Unit → Act Turn}
    (h : Piece me s act) (hes : act.Comes es (.ask (.assign v a) next)) :
    next () = .done .next ∧
      ((∃ e, s = some (.setVariable v e) ∧ (e.operand me).Comes es (.done a)) ∨
      ∃ e x y es₁, s = some (.changeVariable v e) ∧ (e.operand me).Comes es₁ (.done x) ∧
        es = es₁ ++ [.asks (.read v) y] ∧ a = .number (Value.toNumber y + x.toNumber)) := by
  have hassigned : Stmt.AssignedBy s v := h.allowed hes
  cases s with
  | none => exact hassigned.elim
  | some s =>
    cases h with
    | statement =>
      cases s with
      | setVariable w e =>
        obtain rfl : v = w := hassigned
        rw [perform_setVariable] at hes
        obtain ⟨x, es₁, es₂, rfl, hx, hes⟩ := comes_operand hes
        cases hes with
        | refl => exact ⟨rfl, .inl ⟨e, rfl, (List.append_nil es₁).symm ▸ hx⟩⟩
        | head ht hes =>
          cases ht
          nomatch (comes_done.mp hes).2
      | changeVariable w e =>
        obtain rfl : v = w := hassigned
        rw [perform_changeVariable] at hes
        obtain ⟨x, es₁, es₂, rfl, hx, hes⟩ := comes_operand hes
        cases hes with
        | head ht hes =>
          cases ht with
          | ask y =>
            cases hes with
            | refl => exact ⟨rfl, .inr ⟨e, x, y, es₁, rfl, hx, rfl, rfl⟩⟩
            | head ht hes =>
              cases ht
              nomatch (comes_done.mp hes).2
      | _ => exact hassigned.elim

theorem comes_assign
    (h : (Act.ask (.assign v a) fun _ => Act.done Turn.next).Comes es (.done .next)) :
    es = [.asks (.assign v a) ()] := by
  cases h with
  | head ht hes =>
    cases ht
    rw [(comes_done.mp hes).1]

/-- A statement that sets or changes a variable and completes came to a value of its operand, and what
completes it assigns the variable. -/
theorem Story.Ends.assigns {h : Story} {s : Stmt} {ev : Event} (hs : h.Ends me s ev)
    (hv : s.Assigns v) : (∃ x, ev = .asks (.assign v x) ()) ∧
      ∃ e x, (s = .setVariable v e ∨ s = .changeVariable v e) ∧ h.Yields me e x := by
  obtain ⟨-, hes⟩ := hs
  cases s with
  | setVariable w e =>
    obtain rfl : v = w := hv
    rw [perform_setVariable] at hes
    obtain ⟨x, es₁, es₂, heq, hx, hes⟩ := hes.past
    obtain rfl := comes_assign hes
    obtain ⟨hevents, hev⟩ := List.append_inj' heq rfl
    exact ⟨⟨x, List.head_eq_of_cons_eq hev⟩, e, x, .inl rfl, es₁, hevents ▸ List.prefix_rfl, hx⟩
  | changeVariable w e =>
    obtain rfl : v = w := hv
    rw [perform_changeVariable] at hes
    obtain ⟨x, es₁, es₂, heq, hx, hes⟩ := hes.past
    cases hes with
    | head ht hes =>
      cases ht with
      | ask y =>
        obtain rfl := comes_assign hes
        rw [List.append_cons es₁] at heq
        obtain ⟨hevents, hev⟩ := List.append_inj' heq rfl
        exact ⟨⟨_, List.head_eq_of_cons_eq hev⟩, e, x, .inr rfl, es₁,
          hevents ▸ List.prefix_append es₁ _, hx⟩
  | _ => exact hv.elim

end Statements

/-! ### Tallies -/

/-- What one statement does to the variables that completes, or one declaration. -/
inductive Entry where
  | sets (table : Nat) (v : Variable) (x : Value)
  | changes (table : Nat) (v : Variable) (d : Float)
  | declares (id : String) (x : Value)

/-- A change adds to the number that the variable holds then. -/
def Entry.apply : Entry → Variables → Variables
  | sets table v x, m => m.assign table x v
  | changes table v d, m => m.assign table (.number ((m.read table v).toNumber + d)) v
  | declares id x, m => m.declare id x

/-- After a history, something happens that is an entry: it completes a statement that sets or
changes a variable, whose operand came to the value at hand, or it is a declaration. -/
inductive Enters (H : List Happening) : Happening → Entry → Prop where
  | sets {t : Nat} {me : Actor} {table : Nat} {ev : Event} {v : Variable} {e : Expr} {x : Value} :
    (Happening.tale t H).Ends me (.setVariable v e) ev → (Happening.tale t H).Yields me e x →
    Enters H (.does t me table ev) (.sets table v x)
  | changes {t : Nat} {me : Actor} {table : Nat} {ev : Event} {v : Variable} {e : Expr}
    {x : Value} : (Happening.tale t H).Ends me (.changeVariable v e) ev →
    (Happening.tale t H).Yields me e x →
    Enters H (.does t me table ev) (.changes table v x.toNumber)
  | declares {id : String} {x : Value} : Enters H (.declares id x) (.declares id x)

/-- The entries of a history, one for each happening that is one; as there, the latest is first. -/
inductive Tally : List Happening → List Entry → Prop where
  | nil : Tally [] []
  | enters {H : List Happening} {entries : List Entry} {h : Happening} {e : Entry} :
    Enters H h e → Tally H entries → Tally (h :: H) (e :: entries)
  | passes {H : List Happening} {entries : List Entry} {h : Happening} : (∀ e, ¬Enters H h e) →
    Tally H entries → Tally (h :: H) entries

section Entries

variable {H news : List Happening} {h : Happening} {e e' : Entry} {entries : List Entry}
  {m₀ m : Variables}

theorem Enters.eq (he : Enters H h e) (he' : Enters H h e') : e = e' := by
  cases he with
  | sets hs hx =>
    cases he' with
    | sets hs' hx' =>
      cases hs.1.symm.trans hs'.1
      rw [hx.eq hx']
    | changes hs' _ => nomatch hs.1.symm.trans hs'.1
  | changes hs hx =>
    cases he' with
    | sets hs' _ => nomatch hs.1.symm.trans hs'.1
    | changes hs' hx' =>
      cases hs.1.symm.trans hs'.1
      rw [hx.eq hx']
  | declares =>
    cases he'
    rfl

/-- What a script goes through is an entry just where it completes a statement that sets or changes a
variable: since the operand came to a value by then, no such statement is passed over. -/
theorem enters_iff_ends {t : Nat} {me : Actor} {table : Nat} {ev : Event} :
    (∃ e, Enters H (.does t me table ev) e) ↔
      ∃ s v, (Happening.tale t H).Ends me s ev ∧ s.Assigns v := by
  constructor
  · rintro ⟨_, he⟩
    cases he with
    | sets hs _ => exact ⟨_, _, hs, rfl⟩
    | changes hs _ => exact ⟨_, _, hs, rfl⟩
  · rintro ⟨s, v, hs, hv⟩
    obtain ⟨-, e, x, rfl | rfl, hx⟩ := hs.assigns hv
    · exact ⟨_, .sets hs hx⟩
    · exact ⟨_, .changes hs hx⟩

/-- An entry that a script brings about is an assignment. -/
theorem Enters.assigns {t : Nat} {me : Actor} {table : Nat} {ev : Event}
    (he : Enters H (.does t me table ev) e) : ∃ v x, ev = .asks (.assign v x) () :=
  let ⟨_, v, hs, hv⟩ := enters_iff_ends.mp ⟨e, he⟩
  ⟨v, (hs.assigns hv).1⟩

/-- A history has one tally only, and that makes some variables of others. -/
structure Balanced (H : List Happening) (entries : List Entry) (m₀ m : Variables) : Prop where
  only : ∀ es, Tally H es ↔ es = entries
  memory : m = entries.foldr Entry.apply m₀

theorem Balanced.nil (m : Variables) : Balanced [] [] m m where
  only es := by
    constructor
    · intro h
      cases h
      rfl
    · rintro rfl
      exact .nil
  memory := rfl

theorem Balanced.enters (ha : Balanced H entries m₀ m) (he : Enters H h e) :
    Balanced (h :: H) (e :: entries) m₀ (e.apply m) where
  only es := by
    constructor
    · intro ht
      cases ht with
      | enters he' ht => rw [he.eq he', (ha.only _).mp ht]
      | passes hn _ => exact absurd he (hn e)
    · rintro rfl
      exact .enters he ((ha.only _).mpr rfl)
  memory := by rw [List.foldr_cons, ← ha.memory]

theorem Balanced.passes (ha : Balanced H entries m₀ m) (hn : ∀ e, ¬Enters H h e) :
    Balanced (h :: H) entries m₀ m where
  only es := by
    constructor
    · intro ht
      cases ht with
      | enters he _ => exact absurd he (hn _)
      | passes _ ht => exact (ha.only es).mp ht
    · rintro rfl
      exact .passes hn ((ha.only _).mpr rfl)
  memory := ha.memory

/-- What scripts have no part in. -/
theorem Balanced.others (ha : Balanced H entries m₀ m)
    (hnews : ∀ t me table ev, Happening.does t me table ev ∉ news) :
    ∃ entries', Balanced (news ++ H) entries' m₀ (news.foldr Happening.remember m) := by
  induction news with
  | nil => exact ⟨entries, ha⟩
  | cons h rest ih =>
    obtain ⟨entries', ha'⟩ := ih fun t me table ev hm =>
      hnews t me table ev (List.mem_cons_of_mem _ hm)
    cases h with
    | does t me table ev => exact absurd (List.mem_cons_self ..) (hnews t me table ev)
    | declares id x => exact ⟨_, ha'.enters .declares⟩
    | writes target edit => exact ⟨_, ha'.passes nofun⟩

end Entries

/-! ### Histories -/

namespace Session

variable {s s' s₀ : Session} {t : Nat} {x : Execution} {H news : List Happening}
  {entries : List Entry} {m₀ : Variables}

/-- What a script assigns completes a statement, and makes of the variables what this one says. -/
theorem Told.enters {v : Variable} {a : Value} (h : Told H s) (hx : (t, x) ∈ s.scripts)
    (hev : s.event? x = some (.asks (.assign v a) ())) :
    ∃ e, Enters H (.does t x.actor x.table (.asks (.assign v a) ())) e ∧
      e.apply s.memory = s.memory.assign x.table a v := by
  obtain ⟨⟨next, hstep⟩, -⟩ := event?_asks hev
  obtain ⟨k, hact, -⟩ := Machine.step_ask hstep
  obtain ⟨act, hp, hes⟩ := h.leads t x hx
  rw [hact] at hes
  obtain ⟨hnext, hcases⟩ := hp.assigns hes
  have hends {s : Stmt} (hs : (Happening.tale t H).statement = some s) :
      (Happening.tale t H).Ends x.actor s (.asks (.assign v a) ()) := by
    rw [hs] at hp
    cases hp
    have hes := hes.tail (.ask ())
    rw [hnext] at hes
    exact ⟨hs, hes⟩
  rcases hcases with ⟨e, hs, hvalue⟩ | ⟨e, d, y, es, hs, hvalue, heq, rfl⟩
  · exact ⟨_, .sets (hends hs) ⟨_, List.prefix_refl _, hvalue⟩, rfl⟩
  · refine ⟨_, .changes (hends hs) ⟨es, heq ▸ List.prefix_append es _, hvalue⟩, ?_⟩
    rw [Entry.apply, (h.reads t x _ k es v y hx hact heq).2]

/-- The first script reads another object for its operand, and waits if there are writes to it. -/
def counting : Compiled :=
  ⟨0, ⟨[⟨⟨"waits", .immediately⟩,
      [.changeVariable (.shared "n") (.propertyOf .visible (.literal (.text "d")))]⟩,
    ⟨⟨"counts", .immediately⟩, [.changeVariable (.shared "n") (.literal (.bool true))]⟩], [], []⟩⟩

def uncounted : Session :=
  { config := {}, scene := { objects := [("c", { id := "c" }), ("d", { id := "d" })] } }

/-- The second script is over while the first one waits. -/
def halfCounted : Session :=
  (((uncounted.write (.id "d") id).2.dispatch
    (Registry.Call.reinstall "c" 1 none false (.ok counting)).perform).2).takeTurns 60 4

def counted : Session := (halfCounted.moveTo 16).takeTurns 60 5

end Session

end Tabletop
