import Tabletop.Compile.Basic
import Tabletop.Proofs.Execution.Variables
import Tabletop.Proofs.Keyed

/-! The variables of compiled scripts. A compilation hands out slots one after another and takes
none back, so every slot that a script names is one of the slots of its graph. -/

namespace Tabletop

/-! ### Recipes -/

namespace Recipe

variable {α β : Type} {S : Variable → Prop}

/-- Of variables that are as `S` says a recipe makes something that is as stated. -/
def Draws (S : Variable → Prop) (P : α → Prop) : Recipe α → Prop
  | give a => P a
  | refuse _ => True
  | value _ _ next => ∀ e, (∀ v ∈ e.vars, S v) → (next e).Draws S P
  | body _ next => ∀ b, (∀ v ∈ Stmt.varsIn b, S v) → (next b).Draws S P
  | «variable» _ next => ∀ v, S v → (next v).Draws S P

theorem Draws.bind {P : α → Prop} {Q : β → Prop} {r : Recipe α} {f : α → Recipe β}
    (hr : r.Draws S P) (hf : ∀ a, P a → (f a).Draws S Q) : (r >>= f).Draws S Q := by
  induction r with
  | give a => exact hf a hr
  | refuse e => trivial
  | value slot empty next ih => exact fun e he => ih e (hr e he)
  | body slot next ih => exact fun b hb => ih b (hr b hb)
  | «variable» id next ih => exact fun v hv => ih v (hr v hv)

theorem draws_check (x : Except CompileError α) : (check x).Draws S fun _ => True := by
  cases x <;> trivial

theorem draws_text (slot : String) : (text slot).Draws S fun e => ∀ v ∈ e.vars, S v :=
  fun _ he => he

end Recipe

namespace Rule

variable {S : Variable → Prop}

open Recipe

/-- What a rule makes of its block names only variables that were found in its slots and fields. -/
def Draws (S : Variable → Prop) : Rule → Prop
  | hat _ => True
  | statement recipe => ∀ h, (recipe h).Draws S fun s => ∀ v ∈ s.vars, S v
  | reporter recipe => ∀ h, (recipe h).Draws S fun e => ∀ v ∈ e.vars, S v

theorem draws_variableOf (h : Head) : (variableOf h).Draws S S := by
  refine (draws_check _).bind fun id _ => ?_
  split
  · trivial
  · exact fun v hv => hv

theorem draws_broadcastTarget (h : Head) :
    (broadcastTarget h).Draws S fun t => ∀ v ∈ t.vars, S v := by
  refine (draws_check _).bind fun target _ => ?_
  split
  · exact nofun
  · exact nofun
  · exact (draws_text _).bind fun e he => he
  · trivial

end Rule

theorem Effect.within_of_operands {S : Variable → Prop} {e : Effect} (xs : List Expr)
    (he : e.operands = xs) (h : ∀ x ∈ xs, ∀ v ∈ x.vars, S v) : ∀ v ∈ e.vars, S v := by
  intro v hv
  obtain ⟨x, hx, hv⟩ := List.mem_flatMap.mp hv
  exact h x (he ▸ hx) v hv

open Recipe Rule in
theorem BlockKind.rule_draws {S : Variable → Prop} (k : BlockKind) : k.rule.Draws S := by
  have both {x y : Expr} (hx : ∀ v ∈ x.vars, S v) (hy : ∀ v ∈ y.vars, S v) :
      ∀ v ∈ x.vars ++ y.vars, S v := List.forall_mem_append.mpr ⟨hx, hy⟩
  cases k with
  | eventImmediately | controlStartAsClone | eventWhenBroadcastReceived
  | eventWhenPropertyChanged | eventWhenPropertyBecomes | eventWhenAttached | eventWhenDetached
  | eventWhenSelected | eventWhenTouchingObject | extensionWhenDiceRoll
  | extensionWhenPhaseChanged | extensionWhenDoor => trivial
  -- operations
  | motionGoToXY =>
    exact fun _ x hx y hy => Effect.within_of_operands [x, y] rfl (by simpa using ⟨hx, hy⟩)
  | motionGlideSecsToXY =>
    exact fun _ s hs x hx y hy =>
      Effect.within_of_operands [s, x, y] rfl (by simpa using ⟨hs, hx, hy⟩)
  | motionChangeXBy | motionChangeYBy | motionSetX | motionSetY | motionTurnRight
  | motionTurnLeft | motionPointInDirection | motionMoveSteps | motionGoToObject | looksSetSizeTo
  | looksChangeSizeBy | looksSetText | tagsAdd | tagsRemove | soundPlay | soundPlayUntilDone =>
    exact fun _ x hx => Effect.within_of_operands [x] rfl (by simpa using hx)
  | looksShow | looksHide | looksGoToFront | looksGoToBack | soundStopAllSounds
  | controlCreateCloneOfMyself | controlDeleteThisClone =>
    exact fun _ => nofun
  | looksSetLayer | looksSetLocked =>
    exact fun _ => (draws_check _).bind fun _ _ => nofun
  -- statements
  | eventBroadcast => exact fun _ x hx => both hx (y := .myId) nofun
  | eventBroadcastTo =>
    exact fun h x hx => (draws_broadcastTarget h).bind fun t ht =>
      List.forall_mem_append.mpr ⟨hx, ht⟩
  | controlWait | controlWaitUntil => exact fun _ x hx => hx
  | controlRepeat | controlRepeatUntil =>
    exact fun _ x hx b hb => List.forall_mem_append.mpr ⟨hx, hb⟩
  | controlForever => exact fun _ b hb => hb
  | controlIf =>
    exact fun _ x hx b hb => List.forall_mem_append.mpr ⟨hx, List.forall_mem_append.mpr ⟨hb, nofun⟩⟩
  | controlIfElse =>
    exact fun _ x hx b hb c hc =>
      List.forall_mem_append.mpr ⟨hx, List.forall_mem_append.mpr ⟨hb, hc⟩⟩
  | controlStop => exact fun _ => (draws_check _).bind fun _ _ => nofun
  | dataSetVariableTo | dataChangeVariableBy =>
    exact fun h => (draws_variableOf h).bind fun v hv x hx => List.forall_mem_cons.mpr ⟨hv, hx⟩
  -- reporters
  | motionXPosition | motionYPosition | motionDirection | looksSize | looksText | looksVisible
  | sensingOtherObject | sensingMyId | sensingTimer => exact fun _ => nofun
  | mathNumber | mathWholeNumber | mathPositiveNumber | mathAngle =>
    intro h
    simp only [Recipe.Draws, literalNumber]
    split <;> exact nofun
  | textLiteral => exact fun _ => nofun
  | soundSoundsMenu | eventBroadcastMenu | sensingObjectMenu | logicBoolean =>
    exact fun _ => (draws_check _).bind fun _ _ => nofun
  | sensingOf | operatorMathOp => exact fun _ => (draws_check _).bind fun _ _ x hx => hx
  | tagsHasTag | sensingTouchingObject | sensingDistanceTo | operatorNot | operatorLength
  | operatorRound => exact fun _ x hx => hx
  | operatorAdd | operatorSubtract | operatorMultiply | operatorDivide | operatorMod
  | operatorRandom | operatorGt | operatorLt | operatorEquals | operatorAnd | operatorOr
  | operatorJoin | operatorLetterOf | operatorContains => exact fun _ x hx y hy => both hx hy
  | dataVariable =>
    exact fun h => (draws_variableOf h).bind fun v hv => List.forall_mem_singleton.mpr hv

/-! ### Compilations -/

namespace Compile

variable {α β : Type} {globals : List String}

theorem bind_eq_ok {c : Compiling α} {f : α → Compiling β} {s s'' : List String} {b : β} :
    (c >>= f) s = .ok (b, s'') ↔ ∃ a s', c s = .ok (a, s') ∧ f a s' = .ok (b, s'') := by
  show (c s).bind (fun p => f p.1 p.2) = _ ↔ _
  cases h : c s with
  | error e => simp [Except.bind]
  | ok p =>
    obtain ⟨a, s'⟩ := p
    simp [Except.bind]

/-- New variables get their slots after those that have one. -/
def Grows (c : Compiling α) : Prop := ∀ ⦃s a s'⦄, c s = .ok (a, s') → s <+: s'

/-- As long as all variables of the compilation are in `l`, what it gives is as stated. -/
def Gives (l : List String) (P : α → Prop) (c : Compiling α) : Prop :=
  ∀ ⦃s a s'⦄, c s = .ok (a, s') → s' <+: l → P a

/-- A variable that is shared, or that has one of the slots of `l`. -/
def Resolved (globals l : List String) : Variable → Prop
  | .slot n => n < l.length
  | .shared id => id ∈ globals

theorem grows_pure (a : α) : Grows (pure a) := by
  rintro s _ _ ⟨⟩
  exact List.prefix_refl s

theorem grows_throw (e : CompileError) : Grows (throw e : Compiling α) := nofun

theorem grows_lift (x : Except CompileError α) : Grows (liftM x : Compiling α) := by
  cases x with
  | error e => exact grows_throw e
  | ok a => exact grows_pure a

theorem Grows.bind {c : Compiling α} {f : α → Compiling β} (hc : Grows c)
    (hf : ∀ a, Grows (f a)) : Grows (c >>= f) := by
  intro s b s'' h
  obtain ⟨a, s', ha, hb⟩ := bind_eq_ok.mp h
  exact (hc ha).trans (hf a hb)

variable {l : List String}

theorem gives_pure {P : α → Prop} {a : α} (h : P a) : Gives l P (pure a) := by
  rintro s _ _ ⟨⟩ -
  exact h

theorem gives_throw {P : α → Prop} (e : CompileError) : Gives l P (throw e : Compiling α) := nofun

theorem gives_lift {P : α → Prop} {x : Except CompileError α} (h : ∀ a, x = .ok a → P a) :
    Gives l P (liftM x : Compiling α) := by
  cases x with
  | error e => exact gives_throw e
  | ok a => exact gives_pure (h a rfl)

theorem Gives.bind {P : α → Prop} {Q : β → Prop} {c : Compiling α} {f : α → Compiling β}
    (hc : Gives l P c) (hg : ∀ a, Grows (f a)) (hf : ∀ a, P a → Gives l Q (f a)) :
    Gives l Q (c >>= f) := by
  intro s b s'' h hl
  obtain ⟨a, s', ha, hb⟩ := bind_eq_ok.mp h
  exact hf a (hc ha ((hg a hb).trans hl)) hb hl

theorem grows_resolve (id : String) : Grows (resolve globals id) := by
  intro s v s' h
  simp only [resolve] at h
  split at h
  · cases h; exact List.prefix_refl s
  · split at h
    · cases h; exact List.prefix_refl s
    · cases h; exact List.prefix_append s [id]

theorem gives_resolve (id : String) : Gives l (Resolved globals l) (resolve globals id) := by
  intro s v s' h hl
  simp only [resolve] at h
  split at h
  · next hid => cases h; simpa [Resolved] using hid
  · split at h
    · next n hn =>
      cases h
      obtain ⟨hlt, -⟩ := List.idxOf?_eq_some_iff.mp hn
      exact Nat.lt_of_lt_of_le hlt hl.length_le
    · cases h
      have := hl.length_le
      simp only [List.length_append, List.length_cons, List.length_nil] at this
      show s.length < l.length
      omega

/-- What stands in a slot, or in a chain, compiles to what names slots of `l` only. -/
structure Meaning.Sound (globals l : List String) (m : Meaning) : Prop where
  growsValue : Grows m.value
  growsBody : Grows m.body
  value : Gives l (fun e => ∀ v ∈ e.vars, Resolved globals l v) m.value
  body : Gives l (fun b => ∀ v ∈ Stmt.varsIn b, Resolved globals l v) m.body

section Follow

variable {slots : List (String × Meaning)} (hslots : ∀ e ∈ slots, e.2.Sound globals l)
include hslots

theorem grows_follow (r : Recipe α) : Grows (follow globals slots r) := by
  induction r with
  | give a => exact grows_pure a
  | refuse e => exact grows_throw e
  | value slot empty next ih =>
    simp only [follow]
    split
    · next m hm => exact (hslots _ (Keyed.mem_of_lookup hm)).growsValue.bind ih
    · exact ih _
  | body slot next ih =>
    simp only [follow]
    split
    · next m hm => exact (hslots _ (Keyed.mem_of_lookup hm)).growsBody.bind ih
    · exact ih _
  | «variable» id next ih => exact (grows_resolve id).bind ih

theorem gives_follow {P : α → Prop} (r : Recipe α) (hr : r.Draws (Resolved globals l) P) :
    Gives l P (follow globals slots r) := by
  induction r with
  | give a => exact gives_pure hr
  | refuse e => exact gives_throw e
  | value slot empty next ih =>
    simp only [follow]
    split
    · next m hm =>
      exact (hslots _ (Keyed.mem_of_lookup hm)).value.bind (fun e => grows_follow hslots (next e))
        fun e he => ih e (hr e he)
    · exact ih _ (hr _ nofun)
  | body slot next ih =>
    simp only [follow]
    split
    · next m hm =>
      exact (hslots _ (Keyed.mem_of_lookup hm)).body.bind (fun b => grows_follow hslots (next b))
        fun b hb => ih b (hr b hb)
    · exact ih _ (hr _ nofun)
  | «variable» id next ih =>
    exact (gives_resolve id).bind (fun v => grows_follow hslots (next v)) fun v hv => ih v (hr v hv)

end Follow

variable (globals l) in
theorem gives_ruleOf (h : Head) :
    Gives l (Rule.Draws (Resolved globals l)) (liftM (ruleOf h) : Compiling Rule) := by
  refine gives_lift fun rule hr => ?_
  simp only [ruleOf] at hr
  split at hr
  · next kind _ => cases hr; exact kind.rule_draws
  · nomatch hr

section Blocks

variable {slots : List (String × Meaning)} (hslots : ∀ e ∈ slots, e.2.Sound globals l) (h : Head)
include hslots

theorem grows_valueOf : Grows (valueOf globals h slots) :=
  (grows_lift _).bind fun rule => by
    cases rule with
    | reporter recipe => exact grows_follow hslots _
    | _ => exact grows_throw _

theorem grows_statementOf : Grows (statementOf globals h slots) :=
  (grows_lift _).bind fun rule => by
    cases rule with
    | statement recipe => exact grows_follow hslots _
    | _ => exact grows_throw _

theorem gives_valueOf :
    Gives l (fun e => ∀ v ∈ e.vars, Resolved globals l v) (valueOf globals h slots) := by
  refine (gives_ruleOf globals l h).bind (fun rule => ?_) fun rule hr => ?_
  · cases rule with
    | reporter recipe => exact grows_follow hslots _
    | _ => exact grows_throw _
  · cases rule with
    | reporter recipe => exact gives_follow hslots _ (hr h)
    | _ => exact gives_throw _

theorem gives_statementOf :
    Gives l (fun s => ∀ v ∈ s.vars, Resolved globals l v) (statementOf globals h slots) := by
  refine (gives_ruleOf globals l h).bind (fun rule => ?_) fun rule hr => ?_
  · cases rule with
    | statement recipe => exact grows_follow hslots _
    | _ => exact grows_throw _
  · cases rule with
    | statement recipe => exact gives_follow hslots _ (hr h)
    | _ => exact gives_throw _

end Blocks

mutual

theorem sound_meaning : (b : Block) → (meaning globals b).Sound globals l
  | ⟨id, kind, fields, inputs, next⟩ => by
    have hslots := sound_meanings inputs
    obtain ⟨hg, hr⟩ := sound_meaningNext next
    refine ⟨grows_valueOf hslots _, ?_, gives_valueOf hslots _, ?_⟩
    · exact (grows_statementOf hslots _).bind fun s => hg.bind fun rest => grows_pure _
    · refine (gives_statementOf hslots _).bind (fun s => hg.bind fun rest => grows_pure _)
        fun s hs => hr.bind (fun rest => grows_pure _) fun rest hrest => gives_pure ?_
      exact List.forall_mem_append.mpr ⟨hs, hrest⟩

theorem sound_meanings : (inputs : List (String × Block)) →
    ∀ e ∈ meanings globals inputs, e.2.Sound globals l
  | [] => nofun
  | (_, b) :: rest => List.forall_mem_cons.mpr ⟨sound_meaning b, sound_meanings rest⟩

theorem sound_meaningNext : (next : Option Block) → Grows (meaningNext globals next) ∧
    Gives l (fun b => ∀ v ∈ Stmt.varsIn b, Resolved globals l v) (meaningNext globals next)
  | none => ⟨grows_pure _, gives_pure nofun⟩
  | some b => ⟨(sound_meaning b).growsBody, (sound_meaning b).body⟩

end

theorem grows_topLevel (b : Block) : Grows (topLevel globals b) := by
  refine (grows_lift _).bind fun rule => ?_
  split
  · next first _ =>
    exact (grows_lift _).bind fun t => (sound_meaning (l := []) first).growsBody.bind fun _ =>
      grows_pure _
  · exact grows_pure _

theorem gives_topLevel (b : Block) :
    Gives l (fun found => ∀ h ∈ found, ∀ v ∈ Stmt.varsIn h.body, Resolved globals l v)
      (topLevel globals b) := by
  intro s found s' h hl
  obtain ⟨rule, s₁, -, h⟩ := bind_eq_ok.mp h
  generalize b.next = next at h
  match rule, next with
  | .hat trigger, some first =>
    obtain ⟨t, s₂, -, h⟩ := bind_eq_ok.mp h
    obtain ⟨body, s₃, hbody, h⟩ := bind_eq_ok.mp h
    cases h
    rintro _ ⟨⟩
    exact (sound_meaning first).body hbody hl
  | .hat _, none | .statement _, _ | .reporter _, _ =>
    cases h
    nofun

theorem grows_topLevels (blocks : List Block) : Grows (topLevels globals blocks) := by
  induction blocks with
  | nil => exact grows_pure _
  | cons b rest ih => exact (grows_topLevel b).bind fun _ => ih.bind fun _ => grows_pure _

theorem gives_topLevels (blocks : List Block) :
    Gives l (fun handlers => ∀ h ∈ handlers, ∀ v ∈ Stmt.varsIn h.body, Resolved globals l v)
      (topLevels globals blocks) := by
  induction blocks with
  | nil => exact gives_pure nofun
  | cons b rest ih =>
    refine (gives_topLevel b).bind (fun _ => (grows_topLevels rest).bind fun _ => grows_pure _)
      fun found hfound => ih.bind (fun _ => grows_pure _) fun handlers hall => gives_pure ?_
    exact List.forall_mem_append.mpr ⟨fun h hh => hfound h (by simpa using hh), hall⟩

end Compile

/-- Every slot that a compiled script names is one of its graph's. -/
theorem Graph.slot_lt_of_compile {hasher : Hasher} {globals : List String} {g : Graph}
    {p : Procedure} (hp : g.compile hasher globals = .ok p) {h : Handler} (hh : h ∈ p.handlers)
    {n : Nat} (hn : .slot n ∈ Stmt.varsIn h.body) : n < p.locals.length := by
  simp only [compile, StateT.run, bind, Except.bind] at hp
  split at hp
  · nomatch hp
  · next r hr =>
    cases hp
    obtain ⟨handlers, locals⟩ := r
    exact Compile.gives_topLevels g.blocks hr (List.prefix_refl locals) h hh _ hn

end Tabletop
