import Mathlib.Logic.Relation
import Tabletop.Proofs.Compile.Acceptance

/-! What compilation looks at. A graph is trimmed to what the rules of its blocks read; the trimmed
graph compiles as the graph does, so all that is in a compiled script is of a known kind, and
nothing is known of what was trimmed off. -/

namespace Tabletop

/-! ### Trimming -/

/-- Where the block in a slot stands, if what is read is that slot. -/
def Read.place? (slot : String) : Read → Option Place
  | .variable _ => none
  | .value name => if name = slot then some .value else none
  | .body name => if name = slot then some .statement else none

/-- Where the block in a slot stands, if the slot is read. -/
def Head.place? (h : Head) (slot : String) : Option Place :=
  match BlockKind.ofTag? h.kind with
  | some k => (k.reads h).findSome? (Read.place? slot)
  | none => none

namespace Block

mutual

/-- A block with what is read of it in a place: the slots that its kind reads, and its successors
if it is a statement. -/
def trimmed : Block → Place → Block
  | ⟨id, kind, fields, inputs, next⟩, place =>
    ⟨id, kind, fields, trimmedIn ⟨id, kind, fields⟩ inputs, match place with
      | .statement => trimmedNext next
      | .value => none⟩

/-- Of two blocks in one slot the first is read. -/
def trimmedIn (h : Head) : List (String × Block) → List (String × Block)
  | [] => []
  | (slot, b) :: rest =>
    match h.place? slot with
    | some place => (slot, b.trimmed place) :: Keyed.erase slot (trimmedIn h rest)
    | none => trimmedIn h rest

def trimmedNext : Option Block → Option Block
  | none => none
  | some b => some (b.trimmed .statement)

end

/-- A top-level block with what is read of it: of a script the chain, of any other block its kind
alone, so that it is left as it is. -/
def trimmedTop (b : Block) : Block :=
  match b.script? with
  | some (_, first) => ⟨b.id, b.kind, b.fields, [], some (first.trimmed .statement)⟩
  | none => b

/-- A block is in a slot of another or follows it. -/
def Child (b parent : Block) : Prop :=
  (∃ slot, (slot, b) ∈ parent.inputs) ∨ parent.next = some b

/-- A block lies below another, through slots and successors. -/
def Under (b root : Block) : Prop := Relation.TransGen Child b root

end Block

def Graph.trimmed (g : Graph) : Graph := ⟨g.blocks.map Block.trimmedTop⟩

/-! ### What is read -/

/-- A slot holds a value or statements, but not now one and now the other. -/
theorem BlockKind.reads_apart {h : Head} {k : BlockKind} {slot : String}
    (hv : .value slot ∈ k.reads h) : .body slot ∉ k.reads h := by
  cases k <;> simp +contextual [reads] at hv ⊢ <;> simp [hv]

theorem Read.place?_eq_some {slot : String} {r : Read} {place : Place} :
    r.place? slot = some place ↔
      (r = .value slot ∧ place = .value) ∨ (r = .body slot ∧ place = .statement) := by
  cases r with
  | «variable» id => simp [place?]
  | value name => simp [place?, eq_comm]
  | body name => simp [place?, eq_comm]

/-- A slot that is read has the place in which it is read. -/
theorem Head.place?_of_mem {h : Head} {k : BlockKind} (hk : BlockKind.ofTag? h.kind = some k)
    {slot : String} : (.value slot ∈ k.reads h → h.place? slot = some .value) ∧
      (.body slot ∈ k.reads h → h.place? slot = some .statement) := by
  have hread {r : Read} {place : Place} (hr : r ∈ k.reads h) (hp : r.place? slot = some place) :
      ∃ r' ∈ k.reads h, ∃ place', r'.place? slot = some place' ∧ h.place? slot = some place' := by
    simp only [place?, hk]
    cases hf : (k.reads h).findSome? (Read.place? slot) with
    | none => exact absurd (List.findSome?_eq_none_iff.mp hf r hr) (by simp [hp])
    | some place' =>
      obtain ⟨r', hr', hp'⟩ := List.exists_of_findSome?_eq_some hf
      exact ⟨r', hr', place', hp', rfl⟩
  constructor
  · intro hr
    obtain ⟨r', hr', place', hp', hplace⟩ := hread hr (Read.place?_eq_some.mpr (.inl ⟨rfl, rfl⟩))
    rcases Read.place?_eq_some.mp hp' with ⟨-, rfl⟩ | ⟨rfl, -⟩
    · exact hplace
    · exact absurd hr' (BlockKind.reads_apart hr)
  · intro hr
    obtain ⟨r', hr', place', hp', hplace⟩ := hread hr (Read.place?_eq_some.mpr (.inr ⟨rfl, rfl⟩))
    rcases Read.place?_eq_some.mp hp' with ⟨rfl, -⟩ | ⟨-, rfl⟩
    · exact absurd hr (BlockKind.reads_apart hr')
    · exact hplace

theorem Head.mem_of_place? {h : Head} {k : BlockKind} (hk : BlockKind.ofTag? h.kind = some k)
    {slot : String} {place : Place} (hp : h.place? slot = some place) :
    (.value slot ∈ k.reads h ∧ place = .value) ∨ (.body slot ∈ k.reads h ∧ place = .statement) := by
  simp only [place?, hk] at hp
  obtain ⟨r, hr, hp⟩ := List.exists_of_findSome?_eq_some hp
  rcases Read.place?_eq_some.mp hp with ⟨rfl, rfl⟩ | ⟨rfl, rfl⟩
  · exact .inl ⟨hr, rfl⟩
  · exact .inr ⟨hr, rfl⟩

namespace Block

theorem trimmed_eq (b : Block) (place : Place) : b.trimmed place =
    ⟨b.id, b.kind, b.fields, trimmedIn b.head b.inputs, match place with
      | .statement => trimmedNext b.next
      | .value => none⟩ := by
  cases b
  rfl

theorem trimmedNext_eq_some {next : Option Block} {b : Block} :
    trimmedNext next = some b ↔ ∃ n, next = some n ∧ b = n.trimmed .statement := by
  cases next <;> simp [trimmedNext, eq_comm]

theorem lookup_trimmedIn (h : Head) (inputs : List (String × Block)) (slot : String) :
    (trimmedIn h inputs).lookup slot =
      (h.place? slot).bind fun place => (inputs.lookup slot).map (·.trimmed place) := by
  induction inputs with
  | nil => simp [trimmedIn]
  | cons e rest ih =>
    obtain ⟨name, b⟩ := e
    simp only [trimmedIn, List.lookup_cons]
    by_cases hname : slot = name
    · subst hname
      cases hp : h.place? slot with
      | none => simpa [hp] using ih
      | some place => simp
    · have hne : (slot == name) = false := beq_false_of_ne hname
      cases hp : h.place? name with
      | none => simpa only [hne] using ih
      | some place => simpa only [hne, List.lookup_cons, Keyed.lookup_erase, if_neg hname] using ih

theorem mem_trimmedIn {h : Head} {inputs : List (String × Block)} {slot : String} {c : Block}
    (hc : (slot, c) ∈ trimmedIn h inputs) : ∃ place v, h.place? slot = some place ∧
      inputs.lookup slot = some v ∧ c = v.trimmed place := by
  induction inputs with
  | nil => nomatch hc
  | cons e rest ih =>
    obtain ⟨name, b⟩ := e
    simp only [trimmedIn] at hc
    split at hc
    · next place hp =>
      rcases List.mem_cons.mp hc with hc | hc
      · cases hc
        exact ⟨place, b, hp, by simp, rfl⟩
      · obtain ⟨hc, hne⟩ := Keyed.mem_erase.mp hc
        obtain ⟨place', v, hp', hv, rfl⟩ := ih hc
        exact ⟨place', v, hp', by simpa [List.lookup_cons, beq_false_of_ne hne] using hv, rfl⟩
    · next hp =>
      obtain ⟨place', v, hp', hv, rfl⟩ := ih hc
      have hne : slot ≠ name := by
        rintro rfl
        exact absurd hp' (by simp [hp])
      exact ⟨place', v, hp', by simpa [List.lookup_cons, beq_false_of_ne hne] using hv, rfl⟩

end Block

namespace Block

theorem script?_eq_some {b hat first : Block} : b.script? = some (hat, first) ↔ hat = b ∧
    ∃ k, BlockKind.ofTag? b.kind = some k ∧ (∃ reading, k.rule = .hat reading) ∧
      b.next = some first := by
  simp only [script?]
  cases BlockKind.ofTag? b.kind with
  | none => simp
  | some k =>
    rcases k.rule_cases with ⟨reading, hr, -⟩ | ⟨_, hr, -⟩ | ⟨_, hr, -⟩
    · cases b.next with
      | none => simp [hr, Rule.isHat]
      | some n => simp [hr, Rule.isHat, eq_comm]
    · simp [hr, Rule.isHat]
    · simp [hr, Rule.isHat]

theorem trimmedTop_of_script {b hat first : Block} (hs : b.script? = some (hat, first)) :
    b.trimmedTop = ⟨b.id, b.kind, b.fields, [], some (first.trimmed .statement)⟩ := by
  simp only [trimmedTop, hs]

theorem trimmedTop_of_none {b : Block} (hs : b.script? = none) : b.trimmedTop = b := by
  simp only [trimmedTop, hs]

/-- A top-level block is a script if it is one when it is trimmed. -/
theorem script?_trimmedTop (b : Block) : b.trimmedTop.script? =
    b.script?.map fun s => (b.trimmedTop, s.2.trimmed .statement) := by
  cases hs : b.script? with
  | none => simp [trimmedTop_of_none hs, hs]
  | some s =>
    obtain ⟨hat, first⟩ := s
    obtain ⟨-, k, hk, hr, -⟩ := script?_eq_some.mp hs
    rw [trimmedTop_of_script hs]
    exact script?_eq_some.mpr ⟨rfl, k, hk, hr, rfl⟩

end Block

/-! ### Compiling what was trimmed -/

namespace Compile

variable {α : Type} {globals : List String} {slots slots' : List (String × Meaning)}

/-- Two lists of slots are alike where a block reads them. -/
structure Alike (reads : List Read) (slots slots' : List (String × Meaning)) : Prop where
  value : ∀ slot, .value slot ∈ reads →
    (slots.lookup slot).map Meaning.value = (slots'.lookup slot).map Meaning.value
  body : ∀ slot, .body slot ∈ reads →
    (slots.lookup slot).map Meaning.body = (slots'.lookup slot).map Meaning.body

theorem follow_value (slot : String) (empty : Value) (next : Expr → Recipe α) :
    follow globals slots (.value slot empty next) =
      match (slots.lookup slot).map Meaning.value with
      | some c => do follow globals slots (next (← c))
      | none => follow globals slots (next (.literal empty)) := by
  simp only [follow]
  cases slots.lookup slot <;> rfl

theorem follow_body (slot : String) (next : List Stmt → Recipe α) :
    follow globals slots (.body slot next) =
      match (slots.lookup slot).map Meaning.body with
      | some c => do follow globals slots (next (← c))
      | none => follow globals slots (next []) := by
  simp only [follow]
  cases slots.lookup slot <;> rfl

/-- Following a recipe looks at the slots that it asks for alone. -/
theorem follow_alike {h : Head} {r : Recipe α} {ds : List Demand} {reads : List Read}
    (hr : r.Asks h ds) (hds : ∀ r, .part r ∈ ds → r ∈ reads) (hslots : Alike reads slots slots') :
    follow globals slots r = follow globals slots' r := by
  induction hr with
  | give a => rfl
  | met _ _ ih => exact ih fun r hr => hds r (List.mem_cons_of_mem _ hr)
  | refuse => rfl
  | @value slot empty next ds _ ih =>
    have ih (e : Expr) := ih e fun r hr => hds r (List.mem_cons_of_mem _ hr)
    rw [follow_value, follow_value, hslots.value slot (hds _ List.mem_cons_self)]
    simp only [ih]
  | @body slot next ds _ ih =>
    have ih (b : List Stmt) := ih b fun r hr => hds r (List.mem_cons_of_mem _ hr)
    rw [follow_body, follow_body, hslots.body slot (hds _ List.mem_cons_self)]
    simp only [ih]
  | «variable» _ ih =>
    have ih (v : Variable) := ih v fun r hr => hds r (List.mem_cons_of_mem _ hr)
    simp only [follow, ih]

theorem valueOf_alike {h : Head} (hslots : ∀ k, BlockKind.ofTag? h.kind = some k →
    Alike (k.reads h) slots slots') : valueOf globals h slots = valueOf globals h slots' := by
  cases hk : BlockKind.ofTag? h.kind with
  | none => rw [valueOf_unknown hk, valueOf_unknown hk]
  | some k =>
    rw [valueOf_eq hk, valueOf_eq hk]
    rcases k.rule_cases with ⟨_, hr, -⟩ | ⟨_, hr, -⟩ | ⟨recipe, hr, -, hasks⟩
    · simp only [hr]
    · simp only [hr]
    · simp only [hr]
      exact follow_alike (hasks h) (fun _ => BlockKind.part_mem_demands.mp) (hslots k hk)

theorem statementOf_alike {h : Head} (hslots : ∀ k, BlockKind.ofTag? h.kind = some k →
    Alike (k.reads h) slots slots') :
    statementOf globals h slots = statementOf globals h slots' := by
  cases hk : BlockKind.ofTag? h.kind with
  | none => rw [statementOf_unknown hk, statementOf_unknown hk]
  | some k =>
    rw [statementOf_eq hk, statementOf_eq hk]
    rcases k.rule_cases with ⟨_, hr, -⟩ | ⟨recipe, hr, -, hasks⟩ | ⟨_, hr, -⟩
    · simp only [hr]
    · simp only [hr]
      exact follow_alike (hasks h) (fun _ => BlockKind.part_mem_demands.mp) (hslots k hk)
    · simp only [hr]

/-- A block means in a place what it means there when it is trimmed. -/
theorem meaning_trimmed (b : Block) :
    (meaning globals (b.trimmed .value)).value = (meaning globals b).value ∧
    (meaning globals (b.trimmed .statement)).body = (meaning globals b).body := by
  induction b using Block.induct with
  | step b hinputs hnext =>
    have halike (k : BlockKind) (hk : BlockKind.ofTag? b.head.kind = some k) :
        Alike (k.reads b.head) (meanings globals (Block.trimmedIn b.head b.inputs))
          (meanings globals b.inputs) := by
      constructor
      · intro slot hr
        rw [lookup_meanings, lookup_meanings, Block.lookup_trimmedIn,
          (Head.place?_of_mem hk).1 hr]
        cases hv : b.inputs.lookup slot with
        | none => rfl
        | some v => exact congrArg some (hinputs _ (Keyed.mem_of_lookup hv)).1
      · intro slot hr
        rw [lookup_meanings, lookup_meanings, Block.lookup_trimmedIn,
          (Head.place?_of_mem hk).2 hr]
        cases hv : b.inputs.lookup slot with
        | none => rfl
        | some v => exact congrArg some (hinputs _ (Keyed.mem_of_lookup hv)).2
    have hrest : meaningNext globals (Block.trimmedNext b.next) = meaningNext globals b.next := by
      cases hn : b.next with
      | none => rfl
      | some n => exact (hnext n hn).2
    rw [meaning_eq b, Block.trimmed_eq, Block.trimmed_eq, meaning_eq, meaning_eq]
    refine ⟨valueOf_alike halike, ?_⟩
    show (do return (← statementOf globals b.head _) :: (← _)) = _
    rw [statementOf_alike halike, hrest]

theorem topLevel_of_hat (b : Block) {first : Block} {k : BlockKind} {reading : Hat.Reading}
    (hk : BlockKind.ofTag? b.kind = some k) (hr : k.rule = .hat reading)
    (hn : b.next = some first) : topLevel globals b = do
      let t ← liftM (reading b.head)
      let body ← (meaning globals first).body
      return some (Handler.mk ⟨b.id, t⟩ body) := by
  simp only [topLevel, ruleOf, hk, hn, hr]
  rfl

theorem topLevel_trimmed (b : Block) : topLevel globals b.trimmedTop = topLevel globals b := by
  cases hs : b.script? with
  | none => rw [Block.trimmedTop_of_none hs]
  | some s =>
    obtain ⟨hat, first⟩ := s
    obtain ⟨-, k, hk, ⟨reading, hr⟩, hn⟩ := Block.script?_eq_some.mp hs
    rw [Block.trimmedTop_of_script hs, topLevel_of_hat b hk hr hn,
      topLevel_of_hat ⟨b.id, b.kind, b.fields, [], some (first.trimmed .statement)⟩ hk hr rfl,
      (meaning_trimmed first).2]
    rfl

theorem topLevels_trimmed (blocks : List Block) :
    topLevels globals (blocks.map Block.trimmedTop) = topLevels globals blocks := by
  induction blocks with
  | nil => rfl
  | cons b rest ih => simp only [List.map_cons, topLevels, topLevel_trimmed, ih]

end Compile

/-! ### Known blocks -/

namespace Block

/-- In what is read of a well-shaped block, down to the leaves, all blocks are of known kinds. -/
theorem known_of_shape (b : Block) :
    (b.Stands .value → ∀ x, Relation.ReflTransGen Child x (b.trimmed .value) →
      (BlockKind.ofTag? x.kind).isSome) ∧
    (b.IsChain → ∀ x, Relation.ReflTransGen Child x (b.trimmed .statement) →
      (BlockKind.ofTag? x.kind).isSome) := by
  induction b using Block.induct with
  | step b hinputs hnext =>
    have hslots (place : Place) (hb : b.Stands place) (slot : String) (c : Block)
        (hc : (slot, c) ∈ trimmedIn b.head b.inputs) (x : Block)
        (hx : Relation.ReflTransGen Child x c) : (BlockKind.ofTag? x.kind).isSome := by
      obtain ⟨hk, -, -, hvalues, hbodies⟩ := hb
      obtain ⟨place', v, hplace, hv, rfl⟩ := mem_trimmedIn hc
      obtain ⟨ihvalue, ihbody⟩ := hinputs _ (Keyed.mem_of_lookup hv)
      rcases Head.mem_of_place? hk hplace with ⟨hr, rfl⟩ | ⟨hr, rfl⟩
      · exact ihvalue (hvalues slot hr v hv) x hx
      · exact ihbody (hbodies slot hr v hv) x hx
    have hself (place : Place) (hb : b.Stands place) : (BlockKind.ofTag? b.kind).isSome := by
      obtain ⟨hk, -⟩ := hb
      simp [hk]
    constructor
    · intro hb x hx
      rw [trimmed_eq] at hx
      rcases Relation.ReflTransGen.cases_tail hx with rfl | ⟨c, hx, ⟨slot, hc⟩ | hc⟩
      · exact hself _ hb
      · exact hslots _ hb slot c hc x hx
      · nomatch hc
    · rintro ⟨hfirst, hrest⟩ x hx
      rw [trimmed_eq] at hx
      rcases Relation.ReflTransGen.cases_tail hx with rfl | ⟨c, hx, ⟨slot, hc⟩ | hc⟩
      · exact hself _ hfirst
      · exact hslots _ hfirst slot c hc x hx
      · obtain ⟨n, hn, rfl⟩ := trimmedNext_eq_some.mp hc
        exact (hnext n hn).2 (hrest n hn) x hx

end Block

namespace Graph

variable {hasher : Hasher} {globals : List String} {g : Graph} {p : Procedure}

/-- Of a script of a trimmed graph only the chain is left. -/
theorem mem_scripts_trimmed {s : Block × Block} (hs : s ∈ g.trimmed.scripts) :
    s.1.inputs = [] ∧ s.1.next = some s.2 ∧
      ∃ t ∈ g.scripts, s.2 = t.2.trimmed .statement := by
  obtain ⟨_, htop, hbs⟩ := List.mem_filterMap.mp hs
  obtain ⟨b, hb, rfl⟩ := List.mem_map.mp htop
  rw [Block.script?_trimmedTop] at hbs
  obtain ⟨t, ht, rfl⟩ := Option.map_eq_some_iff.mp hbs
  rw [Block.trimmedTop_of_script ht]
  exact ⟨rfl, rfl, t, List.mem_filterMap.mpr ⟨b, hb, ht⟩, rfl⟩

/-- The trimmed graph compiles to the same scripts, or fails in the same way. -/
theorem compile_trimmed (hasher : Hasher) (globals : List String) (g : Graph) :
    (g.trimmed.compile hasher globals).map (fun p => (p.handlers, p.locals)) =
      (g.compile hasher globals).map fun p => (p.handlers, p.locals) := by
  simp only [compile, trimmed, Compile.topLevels_trimmed]
  cases h : (Compile.topLevels globals g.blocks).run [] <;> rfl

/-- All that a compiled graph reads below its hats is of a known kind, so no block is of another
where all is read. Of the rest nothing is known: a graph with anything else in its place compiles
to the same scripts. -/
theorem known_of_compile (hp : g.compile hasher globals = .ok p) :
    (∀ s ∈ g.trimmed.scripts, ∀ b : Block, b.Under s.1 → (BlockKind.ofTag? b.kind).isSome) ∧
    (g.trimmed = g → ∀ s ∈ g.scripts, ∀ b : Block, b.Under s.1 →
      (BlockKind.ofTag? b.kind).isSome) ∧
    ∀ g' : Graph, g'.trimmed = g.trimmed → ∃ p', g'.compile hasher globals = .ok p' ∧
      p'.handlers = p.handlers ∧ p'.locals = p.locals := by
  have hshape : g.WellShaped :=
    faults_eq_nil.mp ((g.compile_heeds hasher globals).ok_iff.mp ⟨p, hp⟩)
  have hknown : ∀ s ∈ g.trimmed.scripts, ∀ b : Block, b.Under s.1 →
      (BlockKind.ofTag? b.kind).isSome := by
    intro s hs b hb
    obtain ⟨hinputs, hnext, t, ht, hfirst⟩ := mem_scripts_trimmed hs
    obtain ⟨c, hbc, hc⟩ := Relation.TransGen.tail'_iff.mp hb
    rcases hc with ⟨slot, hc⟩ | hc
    · exact absurd hc (by simp [hinputs])
    · obtain rfl := Option.some.inj (hnext.symm.trans hc)
      exact (Block.known_of_shape t.2).2 (hshape.chains t ht) b (hfirst ▸ hbc)
  refine ⟨hknown, fun hg s hs => hknown s (hg.symm ▸ hs), fun g' hg' => ?_⟩
  have hsame := compile_trimmed hasher globals g'
  rw [hg', compile_trimmed, hp] at hsame
  cases hp' : g'.compile hasher globals with
  | error e =>
    rw [hp'] at hsame
    nomatch hsame
  | ok p' =>
    rw [hp'] at hsame
    obtain ⟨hhandlers, hlocals⟩ := Prod.mk.inj (Except.ok.inj hsame)
    exact ⟨p', rfl, hhandlers.symm, hlocals.symm⟩

/-- A script that moves its object, with a block in a slot that moving does not read. -/
def overloaded (unread : List (String × Block)) : Graph :=
  ⟨[⟨"start", "event_immediately", [], [], some ⟨"move", "motion_setx", [],
    ("X", ⟨"ten", "math_number", [("NUM", .string "10")], [], none⟩) :: unread, none⟩⟩]⟩

theorem known_of_compile_overloaded :
    (∀ s ∈ (overloaded []).scripts, ∀ b : Block, b.Under s.1 →
      (BlockKind.ofTag? b.kind).isSome) ∧
    ∃ p p', (overloaded []).compile (fun _ => []) [] = .ok p ∧
      (overloaded [("Y", ⟨"lost", "motion_teleport", [], [], none⟩)]).compile (fun _ => []) [] =
        .ok p' ∧ p'.handlers = p.handlers := by
  obtain ⟨p, hp⟩ := ((overloaded []).compile_heeds (fun _ => []) []).ok_iff.mpr (by decide)
  obtain ⟨-, hknown, hsame⟩ := known_of_compile hp
  obtain ⟨p', hp', hhandlers, -⟩ :=
    hsame (overloaded [("Y", ⟨"lost", "motion_teleport", [], [], none⟩)]) rfl
  exact ⟨hknown rfl, p, p', hp, hp', hhandlers⟩

/-- The block that moving does not read is dropped without an error, though there is no such
block. -/
theorem unknown_dropped : ∃ p s b,
    (overloaded [("Y", ⟨"lost", "motion_teleport", [], [], none⟩)]).compile (fun _ => []) [] =
      .ok p ∧
    s ∈ (overloaded [("Y", ⟨"lost", "motion_teleport", [], [], none⟩)]).scripts ∧
    Block.Under b s.1 ∧ BlockKind.ofTag? b.kind = none := by
  obtain ⟨p, hp⟩ := ((overloaded [("Y", ⟨"lost", "motion_teleport", [], [], none⟩)]).compile_heeds
    (fun _ => []) []).ok_iff.mpr (by decide)
  refine ⟨p, _, ⟨"lost", "motion_teleport", [], [], none⟩, hp, List.mem_singleton_self _, ?_,
    by decide⟩
  exact .tail (.single (.inl ⟨"Y", by simp⟩)) (.inr rfl)

end Graph

end Tabletop
