import Mathlib.Data.List.Induction
import Tabletop.Proofs.Compile.Scripts

/-! The names of variables in a graph against the variables of its scripts. What each kind of block
reads, and in which order, is a table of its own; the ids that a graph names in this order settle
the slots of the graph, and the variable that each of its blocks becomes. -/

namespace Tabletop

/-! ### What blocks read -/

/-- One thing that a block is made of: the variable that its field names, or what is in a slot. -/
inductive Read where
  | variable (id : String)
  | value (slot : String)
  | body (slot : String)

/-- What a block of a kind reads, in the order in which it is compiled. -/
def BlockKind.reads (h : Head) : BlockKind → List Read
  | motionGoToXY => [.value "X", .value "Y"]
  | motionChangeXBy => [.value "DX"]
  | motionChangeYBy => [.value "DY"]
  | motionSetX => [.value "X"]
  | motionSetY => [.value "Y"]
  | motionTurnRight | motionTurnLeft => [.value "DEGREES"]
  | motionPointInDirection => [.value "DIRECTION"]
  | motionMoveSteps => [.value "STEPS"]
  | motionGlideSecsToXY => [.value "SECS", .value "X", .value "Y"]
  | motionGoToObject | sensingTouchingObject | sensingDistanceTo | sensingOf => [.value "OBJECT"]
  | looksSetSizeTo => [.value "SIZE"]
  | looksChangeSizeBy => [.value "CHANGE"]
  | looksSetText => [.value "TEXT"]
  | soundPlay | soundPlayUntilDone => [.value "SOUND_MENU"]
  | tagsAdd | tagsRemove | tagsHasTag => [.value "TAG"]
  | eventBroadcast => [.value "BROADCAST_INPUT"]
  | eventBroadcastTo =>
    .value "BROADCAST_INPUT" :: if h.text "TARGET" = "OBJECT" then [.value "OBJECT"] else []
  | controlWait => [.value "DURATION"]
  | controlRepeat => [.value "TIMES", .body "SUBSTACK"]
  | controlForever => [.body "SUBSTACK"]
  | controlIf => [.value "CONDITION", .body "SUBSTACK"]
  | controlIfElse => [.value "CONDITION", .body "SUBSTACK", .body "SUBSTACK2"]
  | controlWaitUntil => [.value "CONDITION"]
  | controlRepeatUntil => [.value "CONDITION", .body "SUBSTACK"]
  | operatorAdd | operatorSubtract | operatorMultiply | operatorDivide | operatorMod =>
    [.value "NUM1", .value "NUM2"]
  | operatorRandom => [.value "FROM", .value "TO"]
  | operatorGt | operatorLt | operatorEquals | operatorAnd | operatorOr =>
    [.value "OPERAND1", .value "OPERAND2"]
  | operatorNot => [.value "OPERAND"]
  | operatorJoin | operatorContains => [.value "STRING1", .value "STRING2"]
  | operatorLetterOf => [.value "LETTER", .value "STRING"]
  | operatorLength => [.value "STRING"]
  | operatorRound | operatorMathOp => [.value "NUM"]
  | dataVariable => [.variable (h.text "VARIABLE")]
  | dataSetVariableTo | dataChangeVariableBy => [.variable (h.text "VARIABLE"), .value "VALUE"]
  | _ => []

/-- The ids that a block names as a value, and that it names with its successors as statements. -/
structure Naming where
  value : List String
  body : List String

/-- The ids that are named in what is read; an empty slot names none. -/
def Read.names (slots : List (String × Naming)) : Read → List String
  | .variable id => [id]
  | .value slot => ((slots.lookup slot).map Naming.value).getD []
  | .body slot => ((slots.lookup slot).map Naming.body).getD []

/-- The ids that a block names itself and in its slots, in the order in which it is compiled. -/
def Head.names (h : Head) (slots : List (String × Naming)) : List String :=
  match BlockKind.ofTag? h.kind with
  | some kind => (kind.reads h).flatMap (Read.names slots)
  | none => []

namespace Block

mutual

/-- The ids that a block names, in the order in which they are compiled. -/
def naming : Block → Naming
  | ⟨id, kind, fields, inputs, next⟩ =>
    let own := Head.names ⟨id, kind, fields⟩ (namings inputs)
    ⟨own, own ++ namingNext next⟩

def namings : List (String × Block) → List (String × Naming)
  | [] => []
  | (slot, b) :: rest => (slot, naming b) :: namings rest

def namingNext : Option Block → List String
  | none => []
  | some b => (naming b).body

end

end Block

/-- The ids that each script of a graph names, occurrence after occurrence. -/
def Graph.names (g : Graph) : List (List String) := g.scripts.map fun s => s.2.naming.body

/-- The variable that an id stands for, where the ids in `locals` have the slots. -/
def Variable.named (globals locals : List String) (id : String) : Variable :=
  if globals.contains id then .shared id else .slot (locals.idxOf id)

/-! ### Recipes -/

namespace Recipe

variable {α β : Type}

/-- A recipe reads as listed, and makes something of whose variables `found` came before, the others
being those of what it reads. -/
def Reads (vars : α → List Variable) : List Variable → List Read → Recipe α → Prop
  | found, reads, give a => reads = [] ∧ vars a = found
  | _, _, refuse _ => True
  | found, reads, value slot _ next => ∃ rest, reads = .value slot :: rest ∧
    ∀ e, (next e).Reads vars (found ++ e.vars) rest
  | found, reads, body slot next => ∃ rest, reads = .body slot :: rest ∧
    ∀ b, (next b).Reads vars (found ++ Stmt.varsIn b) rest
  | found, reads, «variable» id next => ∃ rest, reads = .variable id :: rest ∧
    ∀ v, (next v).Reads vars (found ++ [v]) rest

variable {vars : α → List Variable} {found : List Variable} {reads : List Read}

theorem reads_give {a : α} (h : vars a = found) : (give a).Reads vars found [] := ⟨rfl, h⟩

theorem reads_value {slot : String} {empty : Value} {next : Expr → Recipe α}
    (h : ∀ e, (next e).Reads vars (found ++ e.vars) reads) :
    (value slot empty next).Reads vars found (.value slot :: reads) := ⟨_, rfl, h⟩

theorem reads_body {slot : String} {next : List Stmt → Recipe α}
    (h : ∀ b, (next b).Reads vars (found ++ Stmt.varsIn b) reads) :
    (body slot next).Reads vars found (.body slot :: reads) := ⟨_, rfl, h⟩

/-- A check of a field reads nothing; a field that fails it makes nothing. -/
theorem reads_check {x : Except CompileError β} {f : β → Recipe α}
    (h : ∀ b, x = .ok b → (f b).Reads vars found reads) :
    (check x >>= f).Reads vars found reads := by
  cases x with
  | error e => trivial
  | ok b => exact h b rfl

theorem Reads.bind {vars' : β → List Variable} {later : List Read} {r : Recipe α}
    {f : α → Recipe β} (hr : r.Reads vars found reads)
    (hf : ∀ a, (f a).Reads vars' (vars a) later) :
    (r >>= f).Reads vars' found (reads ++ later) := by
  induction r generalizing found reads with
  | give a =>
    obtain ⟨rfl, rfl⟩ := hr
    exact hf a
  | refuse e => trivial
  | value slot empty next ih =>
    obtain ⟨rest, rfl, h⟩ := hr
    exact reads_value fun e => ih e (h e)
  | body slot next ih =>
    obtain ⟨rest, rfl, h⟩ := hr
    exact reads_body fun b => ih b (h b)
  | «variable» id next ih =>
    obtain ⟨rest, rfl, h⟩ := hr
    exact ⟨_, rfl, fun v => ih v (h v)⟩

theorem Reads.andGive {vars' : β → List Variable} {r : Recipe α} {f : α → β}
    (hr : r.Reads vars found reads) (hf : ∀ a, vars' (f a) = vars a) :
    (r >>= fun a => give (f a)).Reads vars' found reads := by
  simpa using hr.bind fun a => reads_give (hf a)

end Recipe

theorem Head.text_of_need {h : Head} {field s : String} (hs : h.need field = .ok s) :
    h.text field = s := by
  simp only [need] at hs
  split at hs
  · next s' h' => cases hs; simp [text, h']
  · nomatch hs

namespace Rule

open Recipe

/-- What a rule makes of its block names what the block reads, in this order. -/
def Reads (reads : Head → List Read) : Rule → Prop
  | hat _ => True
  | statement recipe => ∀ h, (recipe h).Reads Stmt.vars [] (reads h)
  | reporter recipe => ∀ h, (recipe h).Reads Expr.vars [] (reads h)

theorem reads_variableOf (h : Head) (found : List Variable) :
    (variableOf h).Reads (fun v => found ++ [v]) found [.variable (h.text "VARIABLE")] := by
  refine reads_check fun id hid => ?_
  rw [h.text_of_need hid]
  split
  · trivial
  · exact ⟨_, rfl, fun v => reads_give rfl⟩

theorem reads_broadcastTarget (h : Head) (found : List Variable) :
    (broadcastTarget h).Reads (fun t => found ++ t.vars) found
      (if h.text "TARGET" = "OBJECT" then [.value "OBJECT"] else []) := by
  refine reads_check fun target htarget => ?_
  rw [h.text_of_need htarget]
  split
  · next hobject => subst hobject; exact reads_value fun x => reads_give rfl
  · next hother =>
    split
    · exact reads_give (List.append_nil found)
    · exact reads_give (List.append_nil found)
    · exact absurd rfl hother
    · trivial

end Rule

open Recipe Rule in
theorem BlockKind.rule_reads (k : BlockKind) : k.rule.Reads k.reads := by
  have one (x : Expr) : [x].flatMap Expr.vars = x.vars := List.append_nil _
  cases k with
  | eventImmediately | controlStartAsClone | eventWhenBroadcastReceived
  | eventWhenPropertyChanged | eventWhenPropertyBecomes | eventWhenAttached | eventWhenDetached
  | eventWhenSelected | eventWhenTouchingObject | extensionWhenDiceRoll
  | extensionWhenPhaseChanged | extensionWhenDoor => trivial
  -- operations
  | motionGoToXY =>
    exact fun _ => reads_value fun x => reads_value fun y =>
      reads_give (by simp [Stmt.vars, Effect.vars, Effect.operands])
  | motionGlideSecsToXY =>
    exact fun _ => reads_value fun s => reads_value fun x => reads_value fun y =>
      reads_give (by simp [Stmt.vars, Effect.vars, Effect.operands])
  | motionChangeXBy | motionChangeYBy | motionSetX | motionSetY | motionTurnRight
  | motionTurnLeft | motionPointInDirection | motionMoveSteps | motionGoToObject | looksSetSizeTo
  | looksChangeSizeBy | looksSetText | tagsAdd | tagsRemove | soundPlay | soundPlayUntilDone =>
    exact fun _ => reads_value fun x => reads_give (one x)
  | looksShow | looksHide | looksGoToFront | looksGoToBack | soundStopAllSounds
  | controlCreateCloneOfMyself | controlDeleteThisClone =>
    exact fun _ => reads_give rfl
  | looksSetLayer | looksSetLocked =>
    exact fun _ => reads_check fun _ _ => reads_give rfl
  -- statements
  | eventBroadcast => exact fun _ => reads_value fun x => reads_give (List.append_nil x.vars)
  | eventBroadcastTo =>
    exact fun h => reads_value fun x => (reads_broadcastTarget h _).andGive fun t => rfl
  | controlWait | controlWaitUntil => exact fun _ => reads_value fun x => reads_give rfl
  | controlRepeat | controlRepeatUntil =>
    exact fun _ => reads_value fun x => reads_body fun b => reads_give rfl
  | controlForever => exact fun _ => reads_body fun b => reads_give rfl
  | controlIf =>
    exact fun _ => reads_value fun x => reads_body fun b =>
      reads_give (by simp [Stmt.vars, Stmt.varsIn])
  | controlIfElse =>
    exact fun _ => reads_value fun x => reads_body fun b => reads_body fun c =>
      reads_give (List.append_assoc _ _ _).symm
  | controlStop => exact fun _ => reads_check fun _ _ => reads_give rfl
  | dataSetVariableTo | dataChangeVariableBy =>
    exact fun h => (reads_variableOf h []).bind fun v => reads_value fun x => reads_give rfl
  -- reporters
  | motionXPosition | motionYPosition | motionDirection | looksSize | looksText | looksVisible
  | sensingOtherObject | sensingMyId | sensingTimer | textLiteral => exact fun _ => reads_give rfl
  | mathNumber | mathWholeNumber | mathPositiveNumber | mathAngle =>
    refine fun h => reads_give ?_
    simp only [literalNumber]
    split <;> rfl
  | soundSoundsMenu | eventBroadcastMenu | sensingObjectMenu | logicBoolean =>
    exact fun _ => reads_check fun _ _ => reads_give rfl
  | sensingOf | operatorMathOp =>
    exact fun _ => reads_check fun _ _ => reads_value fun x => reads_give rfl
  | tagsHasTag | sensingTouchingObject | sensingDistanceTo | operatorNot | operatorLength
  | operatorRound => exact fun _ => reads_value fun x => reads_give rfl
  | operatorAdd | operatorSubtract | operatorMultiply | operatorDivide | operatorMod
  | operatorRandom | operatorGt | operatorLt | operatorEquals | operatorAnd | operatorOr
  | operatorJoin | operatorLetterOf | operatorContains =>
    exact fun _ => reads_value fun x => reads_value fun y => reads_give rfl
  | dataVariable => exact fun h => (reads_variableOf h []).andGive fun v => rfl

/-! ### Compilations -/

/-- The ids that have slots once the ids of a list have come up. -/
def slotted (globals ids : List String) : List String :=
  (ids.filter fun id => !globals.contains id).eraseDups

section Slotted

variable {globals : List String}

theorem mem_slotted {ids : List String} {id : String} :
    id ∈ slotted globals ids ↔ id ∈ ids ∧ id ∉ globals := by
  simp [slotted]

theorem slotted_mono (seen ids : List String) :
    slotted globals seen <+: slotted globals (seen ++ ids) := by
  rw [slotted, slotted, List.filter_append, List.eraseDups_append]
  exact List.prefix_append _ _

theorem slotted_concat (seen : List String) (id : String) :
    slotted globals (seen ++ [id]) =
      if id ∈ globals ∨ id ∈ slotted globals seen then slotted globals seen
      else slotted globals seen ++ [id] := by
  simp only [mem_slotted]
  rw [slotted, slotted, List.filter_append, List.eraseDups_append]
  by_cases hg : id ∈ globals
  · simp [hg, List.removeAll]
  · by_cases hs : id ∈ seen
    · simp [hg, hs, List.removeAll]
    · simp [hg, hs, List.removeAll, List.eraseDups_cons]

theorem nodup_slotted (ids : List String) : (slotted globals ids).Nodup := by
  induction ids using List.reverseRecOn with
  | nil => exact .nil
  | append_singleton ids id ih =>
    rw [slotted_concat]
    split
    · exact ih
    · next h =>
      obtain ⟨-, hnew⟩ := not_or.mp h
      exact ih.append (List.nodup_singleton id) (by simpa using hnew)

end Slotted

namespace Compile

variable {α β : Type} {globals : List String}

/-- A compilation brings up ids after those that came before, and what it gives has, after the
variables that were found before, those that the ids stand for in every longer list of slots. -/
def Spells (globals : List String) (found : List Variable) (ids : List String)
    (vars : α → List Variable) (c : Compiling α) : Prop :=
  ∀ ⦃seen a s'⦄, c (slotted globals seen) = .ok (a, s') → s' = slotted globals (seen ++ ids) ∧
    ∀ l, s' <+: l → vars a = found ++ ids.map (Variable.named globals l)

/-- A slot stands for the same id in every longer list of ids. -/
theorem named_of_longer {locals l : List String} {id : String} (hg : id ∉ globals)
    (hid : id ∈ locals) (hl : locals <+: l) :
    Variable.named globals l id = .slot (locals.idxOf id) := by
  obtain ⟨rest, rfl⟩ := hl
  simp [Variable.named, hg, List.idxOf_append, hid]

theorem spells_resolve (id : String) :
    Spells globals [] [id] (fun v => [v]) (resolve globals id) := by
  intro seen v s' h
  simp only [resolve, List.contains_iff_mem] at h
  rw [slotted_concat]
  by_cases hg : id ∈ globals
  · rw [if_pos hg] at h
    cases h
    simp [Variable.named, hg]
  · rw [if_neg hg] at h
    cases hn : (slotted globals seen).idxOf? id with
    | some n =>
      rw [hn] at h
      cases h
      have hid : id ∈ slotted globals seen := List.isSome_idxOf?.mp (by simp [hn])
      have hi : (slotted globals seen).idxOf id = n := by simp [List.idxOf_eq_getD_idxOf?, hn]
      exact ⟨by simp [hid], fun l hl => by simp [named_of_longer hg hid hl, hi]⟩
    | none =>
      rw [hn] at h
      cases h
      have hid : id ∉ slotted globals seen := List.idxOf?_eq_none_iff.mp hn
      refine ⟨by simp [hid, hg], fun l hl => ?_⟩
      simp [named_of_longer hg (by simp) hl, List.idxOf_append, hid]

variable {found : List Variable} {ids : List String} {vars : α → List Variable}

theorem spells_pure {a : α} (h : vars a = found) : Spells globals found [] vars (pure a) := by
  rintro seen _ _ ⟨⟩
  simp [h]

theorem spells_throw (e : CompileError) : Spells globals found ids vars (throw e) := nofun

theorem Spells.bind {later : List String} {vars' : β → List Variable} {c : Compiling α}
    {f : α → Compiling β} (hc : Spells globals [] ids vars c)
    (hf : ∀ a, Spells globals (found ++ vars a) later vars' (f a)) :
    Spells globals found (ids ++ later) vars' (c >>= f) := by
  intro seen b s'' h
  obtain ⟨a, s', ha, hb⟩ := bind_eq_ok.mp h
  obtain ⟨rfl, hvars⟩ := hc ha
  obtain ⟨rfl, hvars'⟩ := hf a hb
  refine ⟨by rw [List.append_assoc], fun l hl => ?_⟩
  rw [hvars' l hl, hvars l ((slotted_mono _ _).trans hl)]
  simp

theorem spells_lift {x : Except CompileError β} {f : β → Compiling α}
    (h : ∀ b, x = .ok b → Spells globals found ids vars (f b)) :
    Spells globals found ids vars (liftM x >>= f) := by
  cases x with
  | error e => exact nofun
  | ok b => exact h b rfl

/-- A meaning names what its block names. -/
structure Meaning.Spelled (globals : List String) (m : Meaning) (n : Naming) : Prop where
  value : Spells globals [] n.value Expr.vars m.value
  body : Spells globals [] n.body Stmt.varsIn m.body

/-- Meanings and namings of the same slots. -/
abbrev SpelledSlots (globals : List String) :
    List (String × Meaning) → List (String × Naming) → Prop :=
  List.Forall₂ fun m n => m.1 = n.1 ∧ m.2.Spelled globals n.2

theorem SpelledSlots.lookup {slots : List (String × Meaning)} {named : List (String × Naming)}
    (h : SpelledSlots globals slots named) (slot : String) :
    Option.Rel (Meaning.Spelled globals) (slots.lookup slot) (named.lookup slot) := by
  induction h with
  | nil => exact .none
  | @cons m n ms ns hmn _ ih =>
    obtain ⟨key, m⟩ := m
    obtain ⟨_, n⟩ := n
    obtain ⟨rfl, hmn⟩ := hmn
    simp only [List.lookup_cons]
    split
    · exact .some hmn
    · exact ih

theorem reads_of_ruleOf (named : List (String × Naming)) {h : Head} {rule : Rule}
    (hr : ruleOf h = .ok rule) :
    ∃ reads : Head → List Read, rule.Reads reads ∧
      h.names named = (reads h).flatMap (Read.names named) := by
  simp only [ruleOf] at hr
  split at hr
  · next kind hkind =>
    cases hr
    exact ⟨kind.reads, kind.rule_reads, by simp only [Head.names, hkind]⟩
  · cases hr

section Follow

variable {slots : List (String × Meaning)} {named : List (String × Naming)}
  (hslots : SpelledSlots globals slots named)
include hslots

theorem spells_follow {r : Recipe α} {reads : List Read} (hr : r.Reads vars found reads) :
    Spells globals found (reads.flatMap (Read.names named)) vars (follow globals slots r) := by
  induction r generalizing found reads with
  | give a =>
    obtain ⟨rfl, ha⟩ := hr
    exact spells_pure ha
  | refuse e => exact spells_throw e
  | value slot empty next ih =>
    obtain ⟨rest, rfl, hnext⟩ := hr
    have hslot := SpelledSlots.lookup hslots slot
    simp only [follow, List.flatMap_cons, Read.names]
    generalize slots.lookup slot = m, named.lookup slot = n at hslot
    cases hslot with
    | none => exact ih _ (by simpa [Expr.vars] using hnext (.literal empty))
    | some h => exact h.value.bind fun e => ih e (hnext e)
  | body slot next ih =>
    obtain ⟨rest, rfl, hnext⟩ := hr
    have hslot := SpelledSlots.lookup hslots slot
    simp only [follow, List.flatMap_cons, Read.names]
    generalize slots.lookup slot = m, named.lookup slot = n at hslot
    cases hslot with
    | none => exact ih _ (by simpa [Stmt.varsIn] using hnext [])
    | some h => exact h.body.bind fun b => ih b (hnext b)
  | «variable» id next ih =>
    obtain ⟨rest, rfl, hnext⟩ := hr
    exact (spells_resolve id).bind fun v => ih v (hnext v)

theorem spells_valueOf (h : Head) :
    Spells globals [] (h.names named) Expr.vars (valueOf globals h slots) := by
  refine spells_lift fun rule hrule => ?_
  obtain ⟨reads, hreads, hnames⟩ := reads_of_ruleOf named hrule
  cases rule with
  | reporter recipe => exact hnames ▸ spells_follow hslots (hreads h)
  | hat trigger | statement recipe => exact spells_throw _

theorem spells_statementOf (h : Head) :
    Spells globals [] (h.names named) Stmt.vars (statementOf globals h slots) := by
  refine spells_lift fun rule hrule => ?_
  obtain ⟨reads, hreads, hnames⟩ := reads_of_ruleOf named hrule
  cases rule with
  | statement recipe => exact hnames ▸ spells_follow hslots (hreads h)
  | hat trigger | reporter recipe => exact spells_throw _

end Follow

mutual

theorem spelled_meaning : (b : Block) → (meaning globals b).Spelled globals b.naming
  | ⟨id, kind, fields, inputs, next⟩ => by
    have hslots := spelled_meanings inputs
    refine ⟨spells_valueOf hslots _, (spells_statementOf hslots _).bind fun s => ?_⟩
    rw [← List.append_nil (Block.namingNext next)]
    exact (spells_meaningNext next).bind fun rest => spells_pure rfl

theorem spelled_meanings : (inputs : List (String × Block)) →
    SpelledSlots globals (meanings globals inputs) (Block.namings inputs)
  | [] => .nil
  | (_, b) :: rest => .cons ⟨rfl, spelled_meaning b⟩ (spelled_meanings rest)

theorem spells_meaningNext : (next : Option Block) →
    Spells globals [] (Block.namingNext next) Stmt.varsIn (meaningNext globals next)
  | none => spells_pure rfl
  | some b => (spelled_meaning b).body

end

/-- Each script of a graph names what its handler does. -/
theorem spells_topLevels {blocks : List Block} {seen s' : List String} {handlers : List Handler}
    (h : topLevels globals blocks (slotted globals seen) = .ok (handlers, s')) :
    let names := (blocks.filterMap Block.script?).map fun s => s.2.naming.body
    s' = slotted globals (seen ++ names.flatten) ∧ ∀ l, s' <+: l →
      handlers.map (fun h => Stmt.varsIn h.body) =
        names.map fun ids => ids.map (Variable.named globals l) := by
  induction blocks generalizing seen handlers with
  | nil =>
    cases h
    simp
  | cons b rest ih =>
    obtain ⟨found, s₁, hfound, h⟩ := bind_eq_ok.mp h
    obtain ⟨later, s₂, hlater, h⟩ := bind_eq_ok.mp h
    cases h
    rcases topLevel_cases hfound with ⟨hb, rfl, rfl⟩ | ⟨first, trigger, body, hb, rfl, hbody⟩
    · simpa [List.filterMap_cons, hb] using ih hlater
    · obtain ⟨rfl, hvars⟩ := (spelled_meaning first).body hbody
      obtain ⟨rfl, hrest⟩ := ih hlater
      simp only [List.filterMap_cons, hb, List.map_cons, List.flatten_cons]
      refine ⟨by rw [List.append_assoc], fun l hl => ?_⟩
      have hfirst := hvars l ((slotted_mono _ _).trans hl)
      simpa [hfirst] using hrest l hl

end Compile

namespace Graph

variable {hasher : Hasher} {globals : List String} {g : Graph} {p : Procedure}

/-- The slots of a compiled graph are handed out to the ids that are not shared, once each, in the
order in which they first come up; every block that names a variable becomes the shared one of its
id, or else the one whose slot holds its id. -/
theorem compile_names (hp : g.compile hasher globals = .ok p) :
    p.locals = (g.names.flatten.filter fun id => !globals.contains id).eraseDups ∧
    (p.locals.Nodup ∧ ∀ id ∈ p.locals, id ∉ globals) ∧
    (p.handlers.map fun h => Stmt.varsIn h.body) =
      g.names.map (fun ids => ids.map (Variable.named globals p.locals)) ∧
    (∀ id ∈ g.names.flatten, id ∉ globals →
      ∃ n, Variable.named globals p.locals id = .slot n ∧ p.locals[n]? = some id) ∧
    ∀ h ∈ p.handlers, ∀ n, .slot n ∈ Stmt.varsIn h.body → n < p.locals.length := by
  have htop : Compile.topLevels globals g.blocks (slotted globals []) =
    .ok (p.handlers, p.locals) := topLevels_of_compile hp
  obtain ⟨hlocals, hvars⟩ := Compile.spells_topLevels htop
  rw [List.nil_append] at hlocals
  refine ⟨hlocals, ⟨hlocals ▸ nodup_slotted _, fun id hid => ?_⟩, hvars _ (List.prefix_refl _),
    fun id hid hg => ?_, fun h hh n hn => slot_lt_of_compile hp hh hn⟩
  · rw [hlocals] at hid
    exact (mem_slotted.mp hid).2
  · have hslot : id ∈ p.locals := hlocals ▸ mem_slotted.mpr ⟨hid, hg⟩
    exact ⟨p.locals.idxOf id, by simp [Variable.named, hg], List.getElem?_idxOf hslot⟩

/-- A script that sets `a` to `b`, and one that changes `b` by `g`. -/
def twoScripts : Graph :=
  let value (name : String) : Block := ⟨name, "data_variable", [("VARIABLE", .string name)], [], none⟩
  ⟨[⟨"one", "event_immediately", [], [],
      some ⟨"set", "data_setvariableto", [("VARIABLE", .string "a")], [("VALUE", value "b")], none⟩⟩,
    ⟨"two", "event_immediately", [], [], some ⟨"change", "data_changevariableby",
      [("VARIABLE", .string "b")], [("VALUE", value "g")], none⟩⟩]⟩

theorem compile_names_twoScripts : ∃ p, twoScripts.compile (fun _ => []) ["g"] = .ok p ∧
    p.locals = ["a", "b"] ∧ (p.handlers.map fun h => Stmt.varsIn h.body) =
      [[.slot 0, .slot 1], [.slot 1, .shared "g"]] := by
  have hp : twoScripts.compile (fun _ => []) ["g"] = .ok
      ⟨[⟨⟨"one", .immediately⟩, [.setVariable (.slot 0) (.variable (.slot 1))]⟩,
        ⟨⟨"two", .immediately⟩, [.changeVariable (.slot 1) (.variable (.shared "g"))]⟩],
        ["a", "b"], []⟩ := rfl
  obtain ⟨hlocals, -, hvars, -⟩ := compile_names hp
  exact ⟨_, hp, hlocals.trans (by decide), hvars.trans (by decide)⟩

end Graph

end Tabletop
