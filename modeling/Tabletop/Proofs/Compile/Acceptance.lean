import Tabletop.Proofs.Compile.Grammar

/-! The graphs that compile. The rule of each kind asks for what blocks of the kind demand, in the
same order; so a compilation fails at the first fault of its graph, and goes through if there is
none. -/

namespace Tabletop

/-! ### Rules -/

namespace Compile

variable {α β : Type}

/-- A reading goes through if there are no faults, and else fails for the first of them. -/
def Heeds (faults : List CompileError) (x : Except CompileError α) : Prop :=
  match faults with
  | [] => ∃ a, x = .ok a
  | e :: _ => x = .error e

theorem Heeds.bind {faults later : List CompileError} {x : Except CompileError α}
    {f : α → Except CompileError β} (hx : Heeds faults x)
    (hf : ∀ a, x = .ok a → Heeds later (f a)) : Heeds (faults ++ later) (x >>= f) := by
  cases faults with
  | nil =>
    obtain ⟨a, rfl⟩ := hx
    exact hf a rfl
  | cons e rest =>
    have hx : x = .error e := hx
    rw [hx]
    rfl

theorem Heeds.ok_iff {faults : List CompileError} {x : Except CompileError α}
    (hx : Heeds faults x) : (∃ a, x = .ok a) ↔ faults = [] := by
  cases faults with
  | nil => exact ⟨fun _ => rfl, fun _ => hx⟩
  | cons e later =>
    have hx : x = .error e := hx
    simp [hx]

theorem Heeds.error_iff {faults : List CompileError} {x : Except CompileError α}
    (hx : Heeds faults x) (e : CompileError) : x = .error e ↔ faults.head? = some e := by
  cases faults with
  | nil =>
    obtain ⟨a, rfl⟩ := hx
    simp
  | cons e' later =>
    have hx : x = .error e' := hx
    simp [hx]

theorem heeds_ok (a : α) : Heeds [] (.ok a : Except CompileError α) := ⟨a, rfl⟩

/-- The first of several checks of fields, and the others. -/
theorem Heeds.check {h : Head} {c : Check} {cs : List Check} {x : Except CompileError α}
    {f : α → Except CompileError β} (hx : Heeds (c.faults h) x)
    (hf : ∀ a, x = .ok a → Heeds (cs.flatMap (Check.faults h)) (f a)) :
    Heeds ((c :: cs).flatMap (Check.faults h)) (x >>= f) := by
  rw [List.flatMap_cons]
  exact hx.bind hf

end Compile

/-- A field that is needed is there, with its text, or it is missing. -/
theorem Head.need_cases (h : Head) (field : String) :
    (h.text? field = none ∧ h.need field = .error (.missingField h.id field)) ∨
    ∃ s, h.text? field = some s ∧ h.text field = s ∧ h.need field = .ok s := by
  simp only [need, text]
  cases h.text? field with
  | none => exact .inl ⟨rfl, rfl⟩
  | some s => exact .inr ⟨s, rfl, rfl, rfl⟩

namespace Compile

theorem heeds_need (h : Head) (field : String) :
    Heeds ((Check.required field fun _ => true).faults h) (h.need field) := by
  rcases h.need_cases field with ⟨ht, hneed⟩ | ⟨s, ht, -, hneed⟩
  · simp [Heeds, Check.faults, ht, hneed]
  · simpa [Check.faults, ht, hneed] using heeds_ok s

theorem heeds_choose (h : Head) (field : String) (choice? : String → Option α) :
    Heeds ((Check.required field fun s => (choice? s).isSome).faults h)
      (h.choose field choice?) := by
  rcases h.need_cases field with ⟨ht, hneed⟩ | ⟨s, ht, -, hneed⟩
  · simp [Heeds, Check.faults, Head.choose, ht, hneed, bind, Except.bind]
  · rw [Check.faults_required ht]
    simp only [Head.choose, hneed, bind, Except.bind]
    cases choice? s with
    | none => rfl
    | some a => exact heeds_ok a

theorem choose_eq_ok {h : Head} {field : String} {choice? : String → Option α} {a : α}
    (ha : h.choose field choice? = .ok a) : choice? (h.text field) = some a := by
  rcases h.need_cases field with ⟨-, hneed⟩ | ⟨s, -, hs, hneed⟩
  · simp [Head.choose, hneed, bind, Except.bind] at ha
  · simp only [Head.choose, hneed, bind, Except.bind] at ha
    rw [hs]
    split at ha
    · next b hb => cases ha; exact hb
    · nomatch ha

end Compile

namespace Recipe

variable {α β : Type} {h : Head} {ds : List Demand}

/-- A recipe makes the demands of a list, one after another, and refuses its block at the first
field that is not as it has to be. -/
inductive Asks (h : Head) : List Demand → Recipe α → Prop
  | give (a : α) : Asks h [] (give a)
  | met {c : Check} {ds : List Demand} {r : Recipe α} (hc : c.faults h = []) (hr : Asks h ds r) :
    Asks h (.check c :: ds) r
  | refuse {c : Check} {ds : List Demand} {e : CompileError} (hc : (c.faults h).head? = some e) :
    Asks h (.check c :: ds) (refuse e)
  | value {slot : String} {empty : Value} {next : Expr → Recipe α} {ds : List Demand}
    (hr : ∀ e, Asks h ds (next e)) : Asks h (.part (.value slot) :: ds) (value slot empty next)
  | body {slot : String} {next : List Stmt → Recipe α} {ds : List Demand}
    (hr : ∀ b, Asks h ds (next b)) : Asks h (.part (.body slot) :: ds) (body slot next)
  | variable {id : String} {next : Variable → Recipe α} {ds : List Demand}
    (hr : ∀ v, Asks h ds (next v)) : Asks h (.part (.variable id) :: ds) («variable» id next)

/-- Checking a field asks for it, and then for what is asked with what it reads. -/
theorem asks_check {c : Check} {x : Except CompileError β} {f : β → Recipe α}
    (hx : Compile.Heeds (c.faults h) x) (hf : ∀ b, x = .ok b → (f b).Asks h ds) :
    (check x >>= f).Asks h (.check c :: ds) := by
  cases hc : c.faults h with
  | nil =>
    rw [hc] at hx
    obtain ⟨b, rfl⟩ := hx
    exact .met hc (hf b rfl)
  | cons e rest =>
    rw [hc] at hx
    have hx : x = .error e := hx
    subst hx
    exact .refuse (by rw [hc]; rfl)

end Recipe

namespace Rule

open Recipe Compile

variable {h : Head} {ds : List Demand}

/-- A field that makes a choice, or the text of one, and what is asked for with it. -/
theorem asks_choose {α β : Type} {field : String} {choice? : String → Option β} {f : β → Recipe α}
    (hf : ∀ b, (f b).Asks h ds) : (check (h.choose field choice?) >>= f).Asks h
      (.check (.required field fun s => (choice? s).isSome) :: ds) :=
  asks_check (heeds_choose h field choice?) fun b _ => hf b

theorem asks_menu (field : String) :
    Asks h [.check (.required field fun _ => true)]
      (do return Expr.ofText (← check (h.need field))) :=
  asks_check (heeds_need h field) fun _ _ => .give _

theorem asks_variableOf {α : Type} {f : Variable → Recipe α} (hf : ∀ v, (f v).Asks h ds) :
    (variableOf h >>= f).Asks h
      (.check (.required "VARIABLE" (· != "")) :: .part (.variable (h.text "VARIABLE")) :: ds) := by
  rcases h.need_cases "VARIABLE" with ⟨ht, hneed⟩ | ⟨id, ht, hid, hneed⟩
  · rw [variableOf, hneed]
    exact .refuse (by simp [Check.faults, ht])
  · rw [variableOf, hneed, hid]
    show ((if id = "" then refuse _ else .variable id give) >>= f).Asks h _
    split
    · next hblank => exact .refuse (by simp [Check.faults, ht, hblank])
    · next hblank =>
      exact .met (by simp [Check.faults, ht, hblank]) (.variable hf)

theorem asks_broadcastTarget {α : Type} {f : BroadcastTarget → Recipe α}
    (hf : ∀ t, (f t).Asks h []) : (broadcastTarget h >>= f).Asks h
      (.check (.required "TARGET" (["SELF", "ATTACHMENTS", "OBJECT"].contains ·)) ::
        if h.text "TARGET" = "OBJECT" then [.part (.value "OBJECT")] else []) := by
  rcases h.need_cases "TARGET" with ⟨ht, hneed⟩ | ⟨target, ht, htext, hneed⟩
  · rw [broadcastTarget, hneed]
    exact .refuse (by simp [Check.faults, ht])
  · rw [broadcastTarget, hneed, htext]
    by_cases hobject : target = "OBJECT"
    · subst hobject
      exact .met (by simp [Check.faults, ht]) (.value fun x => hf _)
    · rw [if_neg hobject]
      simp only [check, Bind.bind, Recipe.bind]
      split
      · exact .met (by simp [Check.faults, ht]) (hf _)
      · exact .met (by simp [Check.faults, ht]) (hf _)
      · exact absurd rfl hobject
      · next hself hattachments _ =>
        have htarget : ["SELF", "ATTACHMENTS", "OBJECT"].contains target = false := by
          simpa [hobject] using And.intro hself hattachments
        exact .refuse (by rw [Check.faults_required ht, htarget]; rfl)

end Rule

/-- The rule of a kind is one for its place, and asks for what blocks of the kind demand. -/
def BlockKind.Heeded (k : BlockKind) : Prop :=
  match k.rule with
  | .hat trigger => k.place? = none ∧
    ∀ h, Compile.Heeds ((k.checks h).flatMap (Check.faults h)) (trigger h)
  | .statement recipe => k.place? = some .statement ∧ ∀ h, (recipe h).Asks h (k.demands h)
  | .reporter recipe => k.place? = some .value ∧ ∀ h, (recipe h).Asks h (k.demands h)

open Recipe Rule Compile in
theorem BlockKind.heeded (k : BlockKind) : k.Heeded := by
  cases k with
  | eventImmediately | controlStartAsClone | eventWhenAttached | eventWhenDetached =>
    exact ⟨rfl, fun _ => heeds_ok _⟩
  | eventWhenBroadcastReceived | extensionWhenPhaseChanged =>
    exact ⟨rfl, fun h => (heeds_need h _).check fun _ _ => heeds_ok _⟩
  | eventWhenPropertyChanged =>
    exact ⟨rfl, fun h => (heeds_choose h _ _).check fun _ _ => heeds_ok _⟩
  | eventWhenPropertyBecomes =>
    refine ⟨rfl, fun h => (heeds_choose h _ _).check fun p hp => ?_⟩
    simp only [List.flatMap_cons, List.flatMap_nil, List.append_nil, Check.faults_optional,
      choose_eq_ok hp, Option.bind_some]
    cases p.literal? (h.text "VALUE") with
    | none => rfl
    | some v => exact heeds_ok _
  | eventWhenSelected | eventWhenTouchingObject | extensionWhenDoor =>
    exact ⟨rfl, fun h => (heeds_choose h _ _).check fun _ _ => heeds_ok _⟩
  | extensionWhenDiceRoll =>
    refine ⟨rfl, fun h => ?_⟩
    simp only [checks, List.flatMap_cons, List.flatMap_nil, List.append_nil,
      Check.faults_optional, Hat.diceRoll]
    cases Hat.isWildcard (h.text "VALUE") with
    | true => exact heeds_ok _
    | false =>
      cases Hat.finite? (h.text "VALUE") with
      | none => rfl
      | some n => exact heeds_ok _
  -- operations
  | motionGoToXY => exact ⟨rfl, fun _ => .value fun x => .value fun y => .give _⟩
  | motionGlideSecsToXY =>
    exact ⟨rfl, fun _ => .value fun s => .value fun x => .value fun y => .give _⟩
  | motionChangeXBy | motionChangeYBy | motionSetX | motionSetY | motionTurnRight
  | motionTurnLeft | motionPointInDirection | motionMoveSteps | motionGoToObject | looksSetSizeTo
  | looksChangeSizeBy | looksSetText | tagsAdd | tagsRemove | soundPlay | soundPlayUntilDone =>
    exact ⟨rfl, fun _ => .value fun x => .give _⟩
  | looksShow | looksHide | looksGoToFront | looksGoToBack | soundStopAllSounds
  | controlCreateCloneOfMyself | controlDeleteThisClone => exact ⟨rfl, fun _ => .give _⟩
  | looksSetLayer | looksSetLocked => exact ⟨rfl, fun _ => asks_choose fun _ => .give _⟩
  -- statements
  | eventBroadcast | controlWait | controlWaitUntil =>
    exact ⟨rfl, fun _ => .value fun x => .give _⟩
  | eventBroadcastTo =>
    exact ⟨rfl, fun h => .value fun x => asks_broadcastTarget fun t => .give _⟩
  | controlRepeat | controlRepeatUntil | controlIf =>
    exact ⟨rfl, fun _ => .value fun x => .body fun b => .give _⟩
  | controlForever => exact ⟨rfl, fun _ => .body fun b => .give _⟩
  | controlIfElse =>
    exact ⟨rfl, fun _ => .value fun x => .body fun b => .body fun c => .give _⟩
  | controlStop => exact ⟨rfl, fun _ => asks_choose fun _ => .give _⟩
  | dataSetVariableTo | dataChangeVariableBy =>
    exact ⟨rfl, fun h => asks_variableOf fun v => .value fun x => .give _⟩
  -- reporters
  | motionXPosition | motionYPosition | motionDirection | looksSize | looksText | looksVisible
  | sensingOtherObject | sensingMyId | sensingTimer | textLiteral
  | mathNumber | mathWholeNumber | mathPositiveNumber | mathAngle =>
    exact ⟨rfl, fun _ => .give _⟩
  | soundSoundsMenu | eventBroadcastMenu | sensingObjectMenu =>
    exact ⟨rfl, fun _ => asks_menu _⟩
  | logicBoolean => exact ⟨rfl, fun _ => asks_choose fun _ => .give _⟩
  | sensingOf | operatorMathOp =>
    exact ⟨rfl, fun _ => asks_choose fun _ => .value fun x => .give _⟩
  | tagsHasTag | sensingTouchingObject | sensingDistanceTo | operatorNot | operatorLength
  | operatorRound => exact ⟨rfl, fun _ => .value fun x => .give _⟩
  | operatorAdd | operatorSubtract | operatorMultiply | operatorDivide | operatorMod
  | operatorRandom | operatorGt | operatorLt | operatorEquals | operatorAnd | operatorOr
  | operatorJoin | operatorLetterOf | operatorContains =>
    exact ⟨rfl, fun _ => .value fun x => .value fun y => .give _⟩
  | dataVariable => exact ⟨rfl, fun h => asks_variableOf fun v => .give _⟩

/-- A rule is that of a hat, of a statement or of a reporter, and asks as it should. -/
theorem BlockKind.rule_cases (k : BlockKind) :
    (∃ trigger, k.rule = .hat trigger ∧ k.place? = none ∧
      ∀ h, Compile.Heeds ((k.checks h).flatMap (Check.faults h)) (trigger h)) ∨
    (∃ recipe, k.rule = .statement recipe ∧ k.place? = some .statement ∧
      ∀ h, (recipe h).Asks h (k.demands h)) ∨
    ∃ recipe, k.rule = .reporter recipe ∧ k.place? = some .value ∧
      ∀ h, (recipe h).Asks h (k.demands h) := by
  have hk := k.heeded
  simp only [Heeded] at hk
  split at hk
  · next trigger hr => exact .inl ⟨trigger, hr, hk⟩
  · next recipe hr => exact .inr (.inl ⟨recipe, hr, hk⟩)
  · next recipe hr => exact .inr (.inr ⟨recipe, hr, hk⟩)

/-! ### Compilations -/

namespace Compile

variable {α β : Type} {globals : List String}

theorem lookup_meanings (inputs : List (String × Block)) (slot : String) :
    (meanings globals inputs).lookup slot = (inputs.lookup slot).map (meaning globals) := by
  induction inputs with
  | nil => rfl
  | cons e rest ih =>
    obtain ⟨name, b⟩ := e
    simp only [meanings, List.lookup_cons]
    split
    · rfl
    · exact ih

/-- A block of a known kind is compiled as a value by the rule of the kind. -/
theorem valueOf_eq {h : Head} {k : BlockKind} (hk : BlockKind.ofTag? h.kind = some k)
    (slots : List (String × Meaning)) : valueOf globals h slots = match k.rule with
      | .reporter recipe => follow globals slots (recipe h)
      | _ => throw (CompileError.misplaced h.id h.kind .value) := by
  simp only [valueOf, ruleOf, hk]
  rfl

theorem statementOf_eq {h : Head} {k : BlockKind} (hk : BlockKind.ofTag? h.kind = some k)
    (slots : List (String × Meaning)) : statementOf globals h slots = match k.rule with
      | .statement recipe => follow globals slots (recipe h)
      | _ => throw (CompileError.misplaced h.id h.kind .statement) := by
  simp only [statementOf, ruleOf, hk]
  rfl

theorem valueOf_unknown {h : Head} (hk : BlockKind.ofTag? h.kind = none)
    (slots : List (String × Meaning)) :
    valueOf globals h slots = throw (.unknownKind h.id h.kind) := by
  simp only [valueOf, ruleOf, hk]
  rfl

theorem statementOf_unknown {h : Head} (hk : BlockKind.ofTag? h.kind = none)
    (slots : List (String × Meaning)) :
    statementOf globals h slots = throw (.unknownKind h.id h.kind) := by
  simp only [statementOf, ruleOf, hk]
  rfl

/-- A compilation meets the faults of a list, whatever slots there are before. -/
def Meets (faults : List CompileError) (c : Compiling α) : Prop := ∀ s, Heeds faults (c s)

theorem Meets.bind {faults later : List CompileError} {c : Compiling α} {f : α → Compiling β}
    (hc : Meets faults c) (hf : ∀ a, Meets later (f a)) : Meets (faults ++ later) (c >>= f) :=
  fun s => (hc s).bind fun p _ => hf p.1 p.2

theorem meets_pure (a : α) : Meets [] (pure a) := fun s => heeds_ok (a, s)

theorem meets_throw (e : CompileError) (later : List CompileError) :
    Meets (e :: later) (throw e : Compiling α) := fun _ => rfl

theorem meets_lift {faults : List CompileError} {x : Except CompileError α}
    (hx : Heeds faults x) : Meets faults (liftM x : Compiling α) := by
  cases faults with
  | nil =>
    obtain ⟨a, rfl⟩ := hx
    exact meets_pure a
  | cons e later =>
    have hx : x = .error e := hx
    subst hx
    exact meets_throw e later

theorem Meets.return {faults : List CompileError} {c : Compiling α} (hc : Meets faults c)
    (f : α → β) : Meets faults (do return f (← c)) := by
  simpa using hc.bind fun a => meets_pure (f a)

theorem meets_resolve (id : String) : Meets [] (resolve globals id) := by
  intro s
  simp only [resolve]
  split
  · exact heeds_ok _
  · split <;> exact heeds_ok _

/-- A block compiles, as a value and as statements, with the faults that it has as such. -/
def Judged (globals : List String) (b : Block) : Prop :=
  Meets b.faults.value (meaning globals b).value ∧ Meets b.faults.body (meaning globals b).body

section Follow

variable {inputs : List (String × Block)} {h : Head}
  (hinputs : ∀ slot v, inputs.lookup slot = some v → Judged globals v)
include hinputs

theorem meets_follow {r : Recipe α} {ds : List Demand} (hr : r.Asks h ds) :
    Meets (ds.flatMap (Demand.faults h (Block.faultsIn inputs)))
      (follow globals (meanings globals inputs) r) := by
  induction hr with
  | give a => exact meets_pure a
  | met hc _ ih => simpa [Demand.faults, hc] using ih
  | refuse hc =>
    obtain ⟨later, hc⟩ := List.head?_eq_some_iff.mp hc
    simp only [List.flatMap_cons, Demand.faults, hc]
    exact meets_throw _ _
  | @value slot empty next ds _ ih =>
    simp only [List.flatMap_cons, Demand.faults, Read.faults, Block.lookup_faultsIn, follow,
      lookup_meanings]
    cases hv : inputs.lookup slot with
    | none => exact ih _
    | some v => exact (hinputs slot v hv).1.bind ih
  | @body slot next ds _ ih =>
    simp only [List.flatMap_cons, Demand.faults, Read.faults, Block.lookup_faultsIn, follow,
      lookup_meanings]
    cases hv : inputs.lookup slot with
    | none => exact ih _
    | some v => exact (hinputs slot v hv).2.bind ih
  | «variable» _ ih => exact (meets_resolve _).bind ih

theorem meets_valueOf :
    Meets (h.faults .value (Block.faultsIn inputs))
      (valueOf globals h (meanings globals inputs)) := by
  simp only [Head.faults]
  cases hk : BlockKind.ofTag? h.kind with
  | none =>
    rw [valueOf_unknown hk]
    exact meets_throw _ _
  | some k =>
    rw [valueOf_eq hk]
    rcases k.rule_cases with ⟨_, hr, hp, -⟩ | ⟨_, hr, hp, -⟩ | ⟨recipe, hr, hp, hasks⟩
    · simpa [hr, hp] using meets_throw _ []
    · simpa [hr, hp] using meets_throw _ []
    · simpa [hr, hp] using meets_follow hinputs (hasks h)

theorem meets_statementOf :
    Meets (h.faults .statement (Block.faultsIn inputs))
      (statementOf globals h (meanings globals inputs)) := by
  simp only [Head.faults]
  cases hk : BlockKind.ofTag? h.kind with
  | none =>
    rw [statementOf_unknown hk]
    exact meets_throw _ _
  | some k =>
    rw [statementOf_eq hk]
    rcases k.rule_cases with ⟨_, hr, hp, -⟩ | ⟨recipe, hr, hp, hasks⟩ | ⟨_, hr, hp, -⟩
    · simpa [hr, hp] using meets_throw _ []
    · simpa [hr, hp] using meets_follow hinputs (hasks h)
    · simpa [hr, hp] using meets_throw _ []

end Follow

theorem meaning_eq (b : Block) : meaning globals b =
    ⟨valueOf globals b.head (meanings globals b.inputs), do
      return (← statementOf globals b.head (meanings globals b.inputs)) ::
        (← meaningNext globals b.next)⟩ := by
  cases b
  rfl

/-- Every block compiles with its faults, as a value and as the first of a chain. -/
theorem judged (b : Block) : Judged globals b := by
  induction b using Block.induct with
  | step b hinputs hnext =>
    have hbelow : ∀ slot v, b.inputs.lookup slot = some v → Judged globals v :=
      fun slot v hv => hinputs (slot, v) (Keyed.mem_of_lookup hv)
    have hrest : Meets (Block.faultsNext b.next) (meaningNext globals b.next) := by
      cases hn : b.next with
      | none => exact meets_pure []
      | some n => exact (hnext n hn).2
    rw [Judged, Block.faults_eq, meaning_eq]
    exact ⟨meets_valueOf hbelow, (meets_statementOf hbelow).bind fun s => hrest.return (s :: ·)⟩

theorem meets_topLevel (b : Block) : Meets b.topFaults (topLevel globals b) := by
  simp only [topLevel, ruleOf, Block.topFaults]
  cases BlockKind.ofTag? b.kind with
  | none => exact meets_throw _ _
  | some k =>
    rcases k.rule_cases with ⟨trigger, hr, hp, hheeds⟩ | ⟨_, hr, hp, -⟩ | ⟨_, hr, hp, -⟩
    · simp only [hr, hp]
      cases b.next with
      | none => exact meets_pure none
      | some first =>
        exact (meets_lift (hheeds b.head)).bind fun t =>
          (judged first).2.return fun body => some (Handler.mk ⟨b.id, t⟩ body)
    · simp only [hr, hp]
      exact meets_pure none
    · simp only [hr, hp]
      exact meets_pure none

theorem meets_topLevels (blocks : List Block) :
    Meets (blocks.flatMap Block.topFaults) (topLevels globals blocks) := by
  induction blocks with
  | nil => exact meets_pure []
  | cons b rest ih =>
    rw [List.flatMap_cons]
    exact (meets_topLevel b).bind fun found => ih.return (found.toList ++ ·)

end Compile

theorem Graph.compile_heeds (hasher : Hasher) (globals : List String) (g : Graph) :
    Compile.Heeds g.faults (g.compile hasher globals) := by
  rw [faults, ← List.append_nil (g.blocks.flatMap _)]
  exact (Compile.meets_topLevels g.blocks []).bind fun p _ =>
    Compile.heeds_ok (Procedure.mk p.1 p.2 (hasher (g.hashed globals)))

/-! ### Scripts -/

namespace Block

theorem isHat_rule {k : BlockKind} : k.rule.isHat = true ↔ k.place? = none := by
  rcases k.rule_cases with ⟨_, hr, hp, -⟩ | ⟨_, hr, hp, -⟩ | ⟨_, hr, hp, -⟩ <;>
    simp [hr, hp, Rule.isHat]

/-- A top-level block is faultless if it is of a known kind, and its fields and its chain are in
order where it is a script. -/
theorem topFaults_eq_nil {b : Block} : b.topFaults = [] ↔
    (BlockKind.ofTag? b.kind).isSome ∧ ∀ s, b.script? = some s →
      (∀ k, BlockKind.ofTag? s.1.kind = some k → ∀ c ∈ k.checks s.1.head, c.Met s.1.head) ∧
      s.2.IsChain := by
  simp only [topFaults, script?]
  cases hk : BlockKind.ofTag? b.kind with
  | none => simp
  | some k =>
    simp only [isHat_rule]
    cases hp : k.place? with
    | some place => simp
    | none =>
      cases b.next with
      | none => simp
      | some first =>
        simp [hk, Check.faults_eq_nil, (faultless first).2]

end Block

/-- A handler is what a script becomes: it has the id of the script's hat and the trigger that the
fields of the hat spell, and a statement for each block of the chain. -/
structure Handler.Of (h : Handler) (s : Block × Block) : Prop where
  hat : h.descriptor.hat = s.1.id
  trigger : ∃ k reading, BlockKind.ofTag? s.1.kind = some k ∧ k.rule = .hat reading ∧
    reading s.1.head = .ok h.descriptor.trigger
  body : h.body.length = s.2.chainIds.length

namespace Compile

variable {globals : List String}

theorem length_body {b : Block} {body : List Stmt} {s s' : List String}
    (hb : (meaning globals b).body s = .ok (body, s')) : body.length = b.chainIds.length := by
  induction b using Block.induct generalizing body s s' with
  | step b _ hnext =>
    rw [meaning_eq] at hb
    obtain ⟨first, s₁, -, hb⟩ := bind_eq_ok.mp hb
    obtain ⟨rest, s₂, hrest, hb⟩ := bind_eq_ok.mp hb
    cases hb
    obtain ⟨id, kind, fields, inputs, next⟩ := b
    cases next with
    | none =>
      cases hrest
      rfl
    | some n => simpa [Block.chainIds] using hnext n rfl hrest

/-- A top-level block gives the handler of its script, if it is one. -/
theorem of_topLevel {b : Block} {found : Option Handler} {s s' : List String}
    (hb : topLevel globals b s = .ok (found, s')) :
    (b.script? = none ∧ found = none) ∨
    ∃ script h, b.script? = some script ∧ found = some h ∧ h.Of script := by
  obtain ⟨rule, s₁, hlift, h⟩ := bind_eq_ok.mp hb
  obtain ⟨hrule, rfl⟩ := liftM_eq_ok.mp hlift
  simp only [ruleOf] at hrule
  split at hrule
  · next k hk =>
    have hr : k.rule = rule := Except.ok.inj hrule
    have hs : b.script? = if rule.isHat then b.next.map fun first => (b, first) else none := by
      simp only [Block.script?, hk, hr]
    generalize b.next = next at h hs
    cases rule with
    | hat reading =>
      cases next with
      | none =>
        cases h
        exact .inl ⟨hs, rfl⟩
      | some first =>
        obtain ⟨t, s₂, ht, hrest⟩ := bind_eq_ok.mp h
        obtain ⟨hread, rfl⟩ := liftM_eq_ok.mp ht
        obtain ⟨body, s₃, hbody, hlast⟩ := bind_eq_ok.mp hrest
        cases hlast
        exact .inr ⟨(b, first), _, hs, rfl, rfl, ⟨k, reading, hk, hr, hread⟩, length_body hbody⟩
    | statement | reporter =>
      cases h
      exact .inl ⟨hs, rfl⟩
  · cases hrule

theorem forall₂_topLevels {blocks : List Block} {handlers : List Handler} {s s' : List String}
    (hb : topLevels globals blocks s = .ok (handlers, s')) :
    List.Forall₂ (fun script h => h.Of script) (blocks.filterMap Block.script?) handlers := by
  induction blocks generalizing handlers s with
  | nil =>
    cases hb
    exact .nil
  | cons b rest ih =>
    obtain ⟨found, s₁, hfound, hb⟩ := bind_eq_ok.mp hb
    obtain ⟨later, s₂, hlater, hb⟩ := bind_eq_ok.mp hb
    cases hb
    rw [List.filterMap_cons]
    rcases of_topLevel hfound with ⟨hs, rfl⟩ | ⟨script, h, hs, rfl, hof⟩
    · rw [hs]
      exact ih hlater
    · rw [hs]
      exact .cons hof (ih hlater)

end Compile

namespace Graph

theorem faults_eq_nil {g : Graph} : g.faults = [] ↔ g.WellShaped := by
  simp only [faults, List.flatMap_eq_nil_iff, Block.topFaults_eq_nil]
  constructor
  · intro h
    refine ⟨fun b hb => (h b hb).1, fun s hs => ?_, fun s hs => ?_⟩
    · obtain ⟨b, hb, hbs⟩ := List.mem_filterMap.mp hs
      exact ((h b hb).2 s hbs).1
    · obtain ⟨b, hb, hbs⟩ := List.mem_filterMap.mp hs
      exact ((h b hb).2 s hbs).2
  · rintro ⟨hknown, hfields, hchains⟩ b hb
    exact ⟨hknown b hb, fun s hs => ⟨hfields s (List.mem_filterMap.mpr ⟨b, hb, hs⟩),
      hchains s (List.mem_filterMap.mpr ⟨b, hb, hs⟩)⟩⟩

/-- A graph compiles exactly if it is well shaped, and then its handlers are its scripts, in their
order; one that does not compile is refused for the first of its faults. -/
theorem compile_exact (hasher : Hasher) (globals : List String) (g : Graph) :
    ((∃ p, g.compile hasher globals = .ok p) ↔ g.WellShaped) ∧
    (∀ p, g.compile hasher globals = .ok p →
      List.Forall₂ (fun script h => h.Of script) g.scripts p.handlers) ∧
    ∀ e, g.compile hasher globals = .error e ↔ g.faults.head? = some e := by
  have hheeds := g.compile_heeds hasher globals
  exact ⟨hheeds.ok_iff.trans faults_eq_nil,
    fun p hp => Compile.forall₂_topLevels (topLevels_of_compile hp), hheeds.error_iff⟩

/-- A script that says a thing to nobody, then does one that there is no block for, beside a script
that waits for a message. -/
def halfDone (target : List (String × Json)) (kind : String) : Graph :=
  ⟨[⟨"start", "event_immediately", [], [],
      some ⟨"say", "event_broadcastto", target, [], some ⟨"then", kind, [], [], none⟩⟩⟩,
    ⟨"heard", "event_whenbroadcastreceived", [("BROADCAST_OPTION", .string "go")], [],
      some ⟨"show", "looks_show", [], [], none⟩⟩]⟩

theorem compile_exact_halfDone :
    ((halfDone [] "motion_fly").compile (fun _ => []) [] = .error (.missingField "say" "TARGET") ∧
      ¬(halfDone [] "motion_fly").WellShaped) ∧
    (halfDone [("TARGET", .string "SELF")] "looks_hide").WellShaped ∧
    ∃ p, (halfDone [("TARGET", .string "SELF")] "looks_hide").compile (fun _ => []) [] = .ok p ∧
      p.handlers.length = 2 := by
  obtain ⟨hshape, -, herror⟩ := compile_exact (fun _ => []) [] (halfDone [] "motion_fly")
  obtain ⟨hshape', hhandlers, -⟩ :=
    compile_exact (fun _ => []) [] (halfDone [("TARGET", .string "SELF")] "looks_hide")
  have hrefused := (herror (.missingField "say" "TARGET")).mpr (by decide)
  have hgood : (halfDone [("TARGET", .string "SELF")] "looks_hide").WellShaped :=
    faults_eq_nil.mp (by decide)
  refine ⟨⟨hrefused, fun h => ?_⟩, hgood, ?_⟩
  · obtain ⟨p, hp⟩ := hshape.mpr h
    exact nomatch hrefused.symm.trans hp
  · obtain ⟨p, hp⟩ := hshape'.mpr hgood
    exact ⟨p, hp, (hhandlers p hp).length_eq.symm.trans (by decide)⟩

end Graph

end Tabletop
