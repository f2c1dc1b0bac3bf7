import Tabletop.Proofs.Compile.Naming

/-! A grammar of graphs. What a block of each kind demands of its fields and slots is a table; from
it come the shape that a graph should have, and the faults of a graph that has another, in the order
in which they are met. A graph without faults is a well-shaped one. -/

namespace Tabletop

/-! ### Demands -/

/-- What blocks of a kind stand as; hats stand as nothing. -/
def BlockKind.place? : BlockKind → Option Place
  | eventImmediately | controlStartAsClone | eventWhenBroadcastReceived
  | eventWhenPropertyChanged | eventWhenPropertyBecomes | eventWhenAttached | eventWhenDetached
  | eventWhenSelected | eventWhenTouchingObject | extensionWhenDiceRoll
  | extensionWhenPhaseChanged | extensionWhenDoor => none
  | motionXPosition | motionYPosition | motionDirection | looksSize | looksText | looksVisible
  | soundSoundsMenu | tagsHasTag | eventBroadcastMenu | sensingTouchingObject | sensingDistanceTo
  | sensingOtherObject | sensingMyId | sensingOf | sensingTimer | sensingObjectMenu
  | operatorAdd | operatorSubtract | operatorMultiply | operatorDivide | operatorMod
  | operatorRandom | operatorGt | operatorLt | operatorEquals | operatorAnd | operatorOr
  | operatorNot | operatorJoin | operatorLetterOf | operatorLength | operatorContains
  | operatorRound | operatorMathOp | dataVariable | mathNumber | mathWholeNumber
  | mathPositiveNumber | mathAngle | textLiteral | logicBoolean => some .value
  | _ => some .statement

/-- What a field has to be. -/
inductive Check where
  /-- The field is there, with a text that is accepted. -/
  | required (field : String) (accepts : String → Bool)
  /-- The text of the field is accepted, a field that is not there counting as blank. -/
  | optional (field : String) (accepts : String → Bool)

namespace Check

/-- The field of a block is as it has to be. -/
def Met (h : Head) : Check → Prop
  | required field accepts => ∃ s, h.text? field = some s ∧ accepts s = true
  | optional field accepts => accepts (h.text field) = true

/-- What is wrong with the field of a block. -/
def faults (h : Head) : Check → List CompileError
  | required field accepts =>
    match h.text? field with
    | some s => if accepts s then [] else [.invalidField h.id field s]
    | none => [.missingField h.id field]
  | optional field accepts =>
    if accepts (h.text field) then [] else [.invalidField h.id field (h.text field)]

theorem faults_required {h : Head} {field s : String} (ht : h.text? field = some s)
    (accepts : String → Bool) : (required field accepts).faults h =
      if accepts s then [] else [.invalidField h.id field s] := by
  simp only [faults, ht]

theorem faults_optional (h : Head) (field : String) (accepts : String → Bool) :
    (optional field accepts).faults h =
      if accepts (h.text field) then [] else [.invalidField h.id field (h.text field)] := rfl

theorem faults_eq_nil {h : Head} {c : Check} : c.faults h = [] ↔ c.Met h := by
  cases c with
  | required field accepts =>
    simp only [faults, Met]
    cases h.text? field with
    | none => simp
    | some s => simp
  | optional field accepts => simp [faults, Met]

end Check

/-- One thing that a block has to have right: a field, or what the block is made of. -/
inductive Demand where
  | check (c : Check)
  | part (r : Read)

namespace BlockKind

/-- What the fields of a block of a kind have to be. -/
def checks (h : Head) : BlockKind → List Check
  | eventWhenBroadcastReceived => [.required "BROADCAST_OPTION" fun _ => true]
  | eventWhenPropertyChanged => [.required "PROPERTY" fun s => (TrackedProperty.ofName? s).isSome]
  | eventWhenPropertyBecomes =>
    [.required "PROPERTY" fun s => (TrackedProperty.ofName? s).isSome,
      .optional "VALUE" fun s =>
        ((TrackedProperty.ofName? (h.text "PROPERTY")).bind (·.literal? s)).isSome]
  | eventWhenSelected => [.required "STATE" fun s => (Hat.selected? s).isSome]
  | eventWhenTouchingObject => [.required "STATE" fun s => (Hat.phase? s).isSome]
  | extensionWhenDiceRoll =>
    [.optional "VALUE" fun s => Hat.isWildcard s || (Hat.finite? s).isSome]
  | extensionWhenPhaseChanged => [.required "PHASE_NAME" fun _ => true]
  | extensionWhenDoor => [.required "STATE" fun s => (Hat.doorState? s).isSome]
  | looksSetLayer => [.required "LAYER" fun s => (Rule.layer? s).isSome]
  | looksSetLocked => [.required "LOCKED" fun s => (Rule.truth? s).isSome]
  | soundSoundsMenu => [.required "SOUND_MENU" fun _ => true]
  | eventBroadcastTo => [.required "TARGET" (["SELF", "ATTACHMENTS", "OBJECT"].contains ·)]
  | eventBroadcastMenu => [.required "BROADCAST_OPTION" fun _ => true]
  | controlStop => [.required "STOP_OPTION" fun s => (Rule.stopScope? s).isSome]
  | sensingOf => [.required "PROPERTY" fun s => (ObjectProperty.ofName? s).isSome]
  | sensingObjectMenu => [.required "OBJECT" fun _ => true]
  | operatorMathOp => [.required "OPERATOR" fun s => (MathFn.ofName? s).isSome]
  | dataVariable | dataSetVariableTo | dataChangeVariableBy => [.required "VARIABLE" (· != "")]
  | logicBoolean => [.required "BOOL" fun s => (Rule.truth? s).isSome]
  | _ => []

/-- What a block of a kind demands, in the order in which it is compiled: its fields come before
its slots, except that the target of a broadcast comes after the message. -/
def demands (h : Head) : BlockKind → List Demand
  | eventBroadcastTo => .part (.value "BROADCAST_INPUT") ::
    ((eventBroadcastTo.checks h).map .check ++
      if h.text "TARGET" = "OBJECT" then [.part (.value "OBJECT")] else [])
  | k => (k.checks h).map .check ++ (k.reads h).map .part

theorem check_mem_demands {h : Head} {k : BlockKind} {c : Check} :
    .check c ∈ k.demands h ↔ c ∈ k.checks h := by
  cases k <;> simp [demands]

theorem part_mem_demands {h : Head} {k : BlockKind} {r : Read} :
    .part r ∈ k.demands h ↔ r ∈ k.reads h := by
  cases k <;> simp [demands, reads]

end BlockKind

/-! ### Well-shaped graphs -/

/-- A block without what hangs from it. -/
def Block.head (b : Block) : Head := ⟨b.id, b.kind, b.fields⟩

mutual

/-- A block can stand in a place: it is of a kind that stands there, and its fields and all that it
reads are as demanded. An empty slot is always in order. -/
inductive Block.Stands : Place → Block → Prop
  | mk {place : Place} {b : Block} {k : BlockKind} (known : BlockKind.ofTag? b.kind = some k)
    (fits : k.place? = some place) (fields : ∀ c ∈ k.checks b.head, c.Met b.head)
    (values : ∀ slot, .value slot ∈ k.reads b.head → ∀ v, b.inputs.lookup slot = some v →
      v.Stands .value)
    (bodies : ∀ slot, .body slot ∈ k.reads b.head → ∀ v, b.inputs.lookup slot = some v →
      v.IsChain) : b.Stands place

/-- A block and its successors are a chain of statements. -/
inductive Block.IsChain : Block → Prop
  | mk {b : Block} (first : b.Stands .statement) (rest : ∀ n, b.next = some n → n.IsChain) :
    b.IsChain

end

/-- Every top-level block is of a known kind, and every hat that has a successor has its fields as
demanded and a chain of statements below it. -/
structure Graph.WellShaped (g : Graph) : Prop where
  known : ∀ b ∈ g.blocks, (BlockKind.ofTag? b.kind).isSome
  fields : ∀ s ∈ g.scripts, ∀ k, BlockKind.ofTag? s.1.kind = some k →
    ∀ c ∈ k.checks s.1.head, c.Met s.1.head
  chains : ∀ s ∈ g.scripts, s.2.IsChain

/-! ### Faults -/

/-- The faults of a block as a value, and as a statement with its successors. -/
structure Faults where
  value : List CompileError
  body : List CompileError

def Read.faults (slots : List (String × Faults)) : Read → List CompileError
  | .variable _ => []
  | .value slot => ((slots.lookup slot).map Faults.value).getD []
  | .body slot => ((slots.lookup slot).map Faults.body).getD []

/-- The faults that keep a demand from being met. -/
def Demand.faults (h : Head) (slots : List (String × Faults)) : Demand → List CompileError
  | check c => c.faults h
  | part r => r.faults slots

/-- The faults of a block in a place, in the order of its demands. -/
def Head.faults (h : Head) (place : Place) (slots : List (String × Faults)) : List CompileError :=
  match BlockKind.ofTag? h.kind with
  | some k =>
    if k.place? = some place then (k.demands h).flatMap (Demand.faults h slots)
    else [.misplaced h.id h.kind place]
  | none => [.unknownKind h.id h.kind]

namespace Block

mutual

/-- The faults of a block, each where compilation meets it. -/
def faults : Block → Faults
  | ⟨id, kind, fields, inputs, next⟩ =>
    let h : Head := ⟨id, kind, fields⟩
    let slots := faultsIn inputs
    ⟨h.faults .value slots, h.faults .statement slots ++ faultsNext next⟩

def faultsIn : List (String × Block) → List (String × Faults)
  | [] => []
  | (slot, b) :: rest => (slot, faults b) :: faultsIn rest

def faultsNext : Option Block → List CompileError
  | none => []
  | some b => (faults b).body

end

/-- The faults of a top-level block. Below one that is no script nothing is looked at. -/
def topFaults (b : Block) : List CompileError :=
  match BlockKind.ofTag? b.kind with
  | some k =>
    match k.place?, b.next with
    | none, some first => (k.checks b.head).flatMap (Check.faults b.head) ++ first.faults.body
    | _, _ => []
  | none => [.unknownKind b.id b.kind]

end Block

/-- The faults of a graph, in the order in which it is compiled. -/
def Graph.faults (g : Graph) : List CompileError := g.blocks.flatMap Block.topFaults

/-! ### Graphs without faults -/

mutual

/-- Induction on what is below a block. -/
theorem Block.induct {P : Block → Prop} (step : ∀ b : Block, (∀ e ∈ b.inputs, P e.2) →
    (∀ n, b.next = some n → P n) → P b) : (b : Block) → P b
  | ⟨id, kind, fields, inputs, next⟩ =>
    step ⟨id, kind, fields, inputs, next⟩ (Block.induct_inputs step inputs)
      (Block.induct_next step next)

theorem Block.induct_inputs {P : Block → Prop} (step : ∀ b : Block, (∀ e ∈ b.inputs, P e.2) →
    (∀ n, b.next = some n → P n) → P b) : (inputs : List (String × Block)) → ∀ e ∈ inputs, P e.2
  | [] => nofun
  | (_, b) :: rest => List.forall_mem_cons.mpr ⟨Block.induct step b, Block.induct_inputs step rest⟩

theorem Block.induct_next {P : Block → Prop} (step : ∀ b : Block, (∀ e ∈ b.inputs, P e.2) →
    (∀ n, b.next = some n → P n) → P b) : (next : Option Block) → ∀ n, next = some n → P n
  | none => nofun
  | some b => fun _ h => Option.some.inj h ▸ Block.induct step b

end

namespace Block

theorem faults_eq (b : Block) : b.faults =
    ⟨b.head.faults .value (faultsIn b.inputs),
      b.head.faults .statement (faultsIn b.inputs) ++ faultsNext b.next⟩ := by
  cases b
  rfl

theorem lookup_faultsIn (inputs : List (String × Block)) (slot : String) :
    (faultsIn inputs).lookup slot = (inputs.lookup slot).map faults := by
  induction inputs with
  | nil => rfl
  | cons e rest ih =>
    obtain ⟨name, b⟩ := e
    simp only [faultsIn, List.lookup_cons]
    split
    · rfl
    · exact ih

theorem faultsNext_eq_nil {next : Option Block} :
    faultsNext next = [] ↔ ∀ n, next = some n → n.faults.body = [] := by
  cases next <;> simp [faultsNext]

theorem demand_faultless {h : Head} {inputs : List (String × Block)} {d : Demand} :
    d.faults h (faultsIn inputs) = [] ↔ (∀ c, d = .check c → c.Met h) ∧
      (∀ slot, d = .part (.value slot) → ∀ v, inputs.lookup slot = some v → v.faults.value = []) ∧
      ∀ slot, d = .part (.body slot) → ∀ v, inputs.lookup slot = some v → v.faults.body = [] := by
  cases d with
  | check c => simp [Demand.faults, Check.faults_eq_nil]
  | part r =>
    cases r with
    | «variable» id => simp [Demand.faults, Read.faults]
    | value slot =>
      simp only [Demand.faults, Read.faults, lookup_faultsIn]
      cases hv : inputs.lookup slot <;> simp [hv]
    | body slot =>
      simp only [Demand.faults, Read.faults, lookup_faultsIn]
      cases hv : inputs.lookup slot <;> simp [hv]

/-- Demands are faultless if the fields are as they have to be and what is read is faultless. -/
theorem demands_faultless {h : Head} {inputs : List (String × Block)} {k : BlockKind} :
    (k.demands h).flatMap (Demand.faults h (faultsIn inputs)) = [] ↔ (∀ c ∈ k.checks h, c.Met h) ∧
      (∀ slot, .value slot ∈ k.reads h → ∀ v, inputs.lookup slot = some v → v.faults.value = []) ∧
      ∀ slot, .body slot ∈ k.reads h → ∀ v, inputs.lookup slot = some v → v.faults.body = [] := by
  simp only [List.flatMap_eq_nil_iff, demand_faultless, ← BlockKind.check_mem_demands,
    ← BlockKind.part_mem_demands]
  constructor
  · intro hds
    exact ⟨fun c hc => (hds _ hc).1 c rfl, fun slot hd => (hds _ hd).2.1 slot rfl,
      fun slot hd => (hds _ hd).2.2 slot rfl⟩
  · rintro ⟨hfields, hvalues, hbodies⟩ d hd
    exact ⟨fun c h => hfields c (h ▸ hd), fun slot h => hvalues slot (h ▸ hd),
      fun slot h => hbodies slot (h ▸ hd)⟩

/-- What is faultless below a block being well shaped, a block is faultless in a place exactly if
it can stand there. -/
theorem head_faultless {b : Block} {place : Place}
    (hbelow : ∀ slot v, b.inputs.lookup slot = some v →
      (v.faults.value = [] ↔ v.Stands .value) ∧ (v.faults.body = [] ↔ v.IsChain)) :
    b.head.faults place (faultsIn b.inputs) = [] ↔ b.Stands place := by
  simp only [Head.faults]
  constructor
  · intro h
    split at h
    · next k hk =>
      split at h
      · next hplace =>
        obtain ⟨hfields, hvalues, hbodies⟩ := demands_faultless.mp h
        exact .mk hk hplace hfields
          (fun slot hr v hv => (hbelow slot v hv).1.mp (hvalues slot hr v hv))
          (fun slot hr v hv => (hbelow slot v hv).2.mp (hbodies slot hr v hv))
      · nomatch h
    · nomatch h
  · rintro @⟨_, _, k, hk, hplace, hfields, hvalues, hbodies⟩
    have hk : BlockKind.ofTag? b.head.kind = some k := hk
    rw [hk]
    simp only [hplace, if_true]
    exact demands_faultless.mpr ⟨hfields,
      fun slot hr v hv => (hbelow slot v hv).1.mpr (hvalues slot hr v hv),
      fun slot hr v hv => (hbelow slot v hv).2.mpr (hbodies slot hr v hv)⟩

/-- A block is faultless as a value, or with its successors as statements, exactly if it is well
shaped as such. -/
theorem faultless (b : Block) :
    (b.faults.value = [] ↔ b.Stands .value) ∧ (b.faults.body = [] ↔ b.IsChain) := by
  induction b using Block.induct with
  | step b hinputs hnext =>
    have hbelow : ∀ slot v, b.inputs.lookup slot = some v →
        (v.faults.value = [] ↔ v.Stands .value) ∧ (v.faults.body = [] ↔ v.IsChain) :=
      fun slot v hv => hinputs (slot, v) (Keyed.mem_of_lookup hv)
    rw [faults_eq]
    refine ⟨head_faultless hbelow, ?_⟩
    rw [List.append_eq_nil_iff, head_faultless hbelow, faultsNext_eq_nil]
    constructor
    · rintro ⟨hfirst, hrest⟩
      exact .mk hfirst fun n hn => (hnext n hn).2.mp (hrest n hn)
    · rintro ⟨hfirst, hrest⟩
      exact ⟨hfirst, fun n hn => (hnext n hn).2.mpr (hrest n hn)⟩

end Block

end Tabletop
