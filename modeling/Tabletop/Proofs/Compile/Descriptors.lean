import Tabletop.Proofs.Compile.Acceptance
import Tabletop.Proofs.Json.Codec
import Tabletop.Proofs.Json.Nesting

/-! Descriptors as texts. Each trigger keeps its members under keys of their own, and these tell it
from every other, so the text of a descriptor is read back as the descriptor, with its criteria in
their order. This needs that no criterion repeats a key and that the numbers to match are finite; of
every hat that compiles both hold. -/

namespace Tabletop

open Document (depthMembers depthMembers_le numbersMembers)

/-! ### Values -/

namespace Value

/-- The number in a value, if it is one. -/
def number? : Value → Option Float
  | number x => some x
  | _ => none

theorem toDocument_number {x : Float} (h : x.isFinite = true) :
    (number x).toDocument = .number (.double x) := by
  rw [toDocument, Document.ofFloat, if_pos h]

theorem depth_toDocument (v : Value) : v.toDocument.depth = 0 := by
  cases v with
  | number x => rw [toDocument, Document.ofFloat]; split <;> rfl
  | _ => rfl

variable {v : Value}

theorem decode_toDocument (h : ∀ x ∈ v.number?, x.isFinite = true) :
    decode v.toDocument = some v := by
  cases v with
  | number x => rw [toDocument_number (h x rfl)]; rfl
  | _ => rfl

theorem numbers_toDocument (h : ∀ x ∈ v.number?, x.isFinite = true) :
    v.toDocument.numbers = v.number?.toList.map Number.double := by
  cases v with
  | number x => rw [toDocument_number (h x rfl)]; rfl
  | _ => rfl

end Value

/-! ### Matches -/

namespace ValueMatch

/-- The number that a match wants, if it wants one. -/
def number? : ValueMatch → Option Float
  | exactly v => v.number?
  | _ => none

theorem depth_encode (m : ValueMatch) : m.encode.depth = 1 := by
  cases m with
  | exactly v => simp [encode, Document.depth, depthMembers, v.depth_toDocument]
  | _ => rfl

variable {m : ValueMatch}

theorem decode_encode (h : ∀ x ∈ m.number?, x.isFinite = true) : decode m.encode = some m := by
  cases m with
  | exactly v =>
    have hv : Value.decode v.toDocument = some v := Value.decode_toDocument h
    have htag : ofTag .exactly (some v.toDocument) = some (exactly v) := by
      rw [ofTag, hv, Option.map_some]
    exact htag
  | _ => rfl

theorem numbers_encode (h : ∀ x ∈ m.number?, x.isFinite = true) :
    m.encode.numbers = m.number?.toList.map Number.double := by
  cases m with
  | exactly v =>
    have hv : v.toDocument.numbers = v.number?.toList.map Number.double :=
      Value.numbers_toDocument h
    simp [encode, Document.numbers, Document.numbersMembers, hv, number?]
  | _ => rfl

end ValueMatch

/-! ### Triggers -/

namespace Trigger

/-- The criteria of a signal by their keys; other triggers have none. -/
def criteria : Trigger → List (String × ValueMatch)
  | signal _ criteria => criteria
  | _ => []

/-- What a trigger asks of the values that come with it. -/
def wanted : Trigger → List ValueMatch
  | propertyChanged _ m => [m]
  | signal _ criteria => criteria.map (·.2)
  | _ => []

/-- The numbers that a trigger wants. -/
def numbers (t : Trigger) : List Float := t.wanted.filterMap ValueMatch.number?

/-- A trigger as a text can tell it. -/
structure Proper (t : Trigger) : Prop where
  keys : (Keyed.keys t.criteria).Nodup
  finite : ∀ x ∈ t.numbers, x.isFinite = true

theorem Proper.wanted {t : Trigger} (h : t.Proper) {m : ValueMatch} (hm : m ∈ t.wanted) :
    ∀ x ∈ m.number?, x.isFinite = true :=
  fun x hx => h.finite x (List.mem_filterMap.mpr ⟨m, hm, hx⟩)

/-- The hat, the label and the rest have keys of their own. -/
theorem keys_members (hat : String) (t : Trigger) :
    (Keyed.keys (("hatId", .string hat) :: t.members)).Nodup := by
  cases t with
  | collision phase => cases phase <;> simp [members, Keyed.keys]
  | _ => simp [members, Keyed.keys]

theorem without_cons {k : String} {d : Document} {members : List (String × Document)}
    (h : (Keyed.keys ((k, d) :: members)).Nodup) : without k ((k, d) :: members) = members := by
  rw [without, List.filter_cons_of_neg (by simp), List.filter_eq_self]
  intro m hm
  have hkey : m.1 ∈ Keyed.keys members := List.mem_map_of_mem hm
  exact bne_iff_ne.mpr fun hmk => (List.nodup_cons.mp h).1 (hmk ▸ hkey)

theorem entries_criteria {criteria : List (String × ValueMatch)}
    (hkeys : (Keyed.keys criteria).Nodup)
    (hdecode : ∀ c ∈ criteria, ValueMatch.decode c.2.encode = some c.2) :
    Decode.entries ValueMatch.decode (.object (criteria.map fun c => (c.1, c.2.encode))) =
      some criteria := by
  have hall : List.Forall₂ (fun m c => m.1 = c.1 ∧ ValueMatch.decode m.2 = some c.2)
      (criteria.map fun c => (c.1, c.2.encode)) criteria :=
    List.forall₂_map_left_iff.mpr (List.forall₂_same.mpr fun c hc => ⟨rfl, hdecode c hc⟩)
  exact Decode.entriesFrom_eq hall hkeys

/-- The members behind the label tell the rest of a trigger. -/
theorem ofLabel_members {t : Trigger} (h : t.Proper) :
    ofLabel t.label (.object t.members.tail) = some t := by
  cases t with
  | immediately | startAsClone | broadcast | selectionChanged => rfl
  | collision phase => cases phase <;> rfl
  | propertyChanged property m =>
    have hproperty : Decode.emptyName properties (.string property.shown) = some property := by
      cases property <;> rfl
    have hm := ValueMatch.decode_encode (h.wanted (List.mem_singleton_self m))
    show ((Decode.emptyName properties (.string property.shown)).bind fun p =>
      (ValueMatch.decode m.encode).bind fun m => some (propertyChanged p m)) = _
    rw [hproperty, hm]
    rfl
  | signal name criteria =>
    have hkeys : (Keyed.keys criteria).Nodup := h.keys
    have hcriteria := entries_criteria hkeys fun c hc =>
      ValueMatch.decode_encode (h.wanted (List.mem_map_of_mem hc))
    show ((Decode.entries ValueMatch.decode (.object _)).bind fun criteria =>
      some (signal name criteria)) = _
    rw [hcriteria]
    rfl

theorem depth_encode_le (hat : String) (t : Trigger) :
    (Document.object (("hatId", .string hat) :: t.members)).depth ≤ 3 := by
  refine Nat.succ_le_succ (depthMembers_le.mpr ?_)
  cases t with
  | signal name criteria =>
    have hcriteria : (Document.object (criteria.map fun c => (c.1, c.2.encode))).depth ≤ 2 := by
      refine Nat.succ_le_succ (depthMembers_le.mpr (List.forall_mem_map.mpr fun c _ => ?_))
      exact (c.2.depth_encode).le
    simp [members, Document.depth] at hcriteria ⊢
    omega
  | propertyChanged property m => simp [members, Document.depth, m.depth_encode]
  | collision phase => cases phase <;> simp [members, Document.depth]
  | _ => simp [members, Document.depth]

theorem numbers_criteria {criteria : List (String × ValueMatch)}
    (h : ∀ c ∈ criteria, ∀ x ∈ c.2.number?, x.isFinite = true) :
    numbersMembers (criteria.map fun c => (c.1, c.2.encode)) =
      ((criteria.map (·.2)).filterMap ValueMatch.number?).map Number.double := by
  induction criteria with
  | nil => rfl
  | cons c rest ih =>
    obtain ⟨hc, hrest⟩ := List.forall_mem_cons.mp h
    rw [List.map_cons, numbersMembers, ih hrest, ValueMatch.numbers_encode hc, List.map_cons,
      List.filterMap_cons]
    cases c.2.number? <;> rfl

/-- The text has the numbers that the trigger wants, and no others. -/
theorem numbers_encode {t : Trigger} (h : t.Proper) (hat : String) :
    (Document.object (("hatId", .string hat) :: t.members)).numbers =
      t.numbers.map Number.double := by
  cases t with
  | signal name criteria =>
    have hcriteria := numbers_criteria fun c hc => h.wanted (List.mem_map_of_mem hc)
    simp [members, Document.numbers, numbersMembers, hcriteria, numbers, wanted]
  | propertyChanged property m =>
    have hm := ValueMatch.numbers_encode (h.wanted (List.mem_singleton_self m))
    cases hn : m.number? <;>
      simp [members, Document.numbers, numbersMembers, hm, numbers, wanted, hn]
  | collision phase => cases phase <;> rfl
  | immediately | startAsClone | broadcast | selectionChanged => rfl

end Trigger

/-! ### Descriptors -/

namespace Descriptor

variable {d : Descriptor}

theorem decode_encode (h : d.trigger.Proper) : decode d.encode = some d := by
  obtain ⟨hat, t⟩ := d
  have hkeys := t.keys_members hat
  have hlabel : (Keyed.keys (("kind", .string t.label) :: t.members.tail)).Nodup :=
    (List.nodup_cons.mp hkeys).2
  have hname : Decode.nameOrPlace (Trigger.labels.map fun label => (label, label))
      (.string t.label) = some t.label := by
    cases t <;> rfl
  rw [encode, decode, Decode.only_of_mem hkeys List.mem_cons_self, Trigger.without_cons hkeys]
  show ((Decode.only "kind" (("kind", .string t.label) :: t.members.tail)).bind fun label =>
    (Decode.nameOrPlace _ label).bind fun label => (Trigger.ofLabel label (.object
      (Trigger.without "kind" (("kind", .string t.label) :: t.members.tail)))).bind fun t =>
        some (Descriptor.mk hat t)) = _
  rw [Decode.only_of_mem hlabel List.mem_cons_self, Trigger.without_cons hlabel, Option.bind_some,
    hname, Option.bind_some, Trigger.ofLabel_members h, Option.bind_some]

theorem read_compact (h : d.trigger.Proper)
    (hnumbers : ∀ x ∈ d.trigger.numbers, (Number.double x).ReadsBack) :
    format.read d.encode.compact = .ok d := by
  refine Format.read_compact (Json.fits_any _) (fun n hn => ?_) ?_ (decode_encode h)
  · rw [encode, Trigger.numbers_encode h] at hn
    obtain ⟨x, hx, rfl⟩ := List.mem_map.mp hn
    exact hnumbers x hx
  · exact (Trigger.depth_encode_le d.hat d.trigger).trans (by decide)

end Descriptor

/-! ### Hats -/

namespace Hat

theorem ok_of_bind {α β : Type} {x : Except CompileError α} {f : α → Except CompileError β} {b : β}
    (h : x >>= f = .ok b) : ∃ a, x = .ok a ∧ f a = .ok b := by
  cases x with
  | error e => cases h
  | ok a => exact ⟨a, rfl, h⟩

theorem finite_of_finite? {s : String} {x : Float} (hx : finite? s = some x) :
    x.isFinite = true :=
  (Option.filter_eq_some_iff.mp hx).2

theorem finite_of_literal? {p : TrackedProperty} {s : String} {v : Value}
    (hv : p.literal? s = some v) : ∀ x ∈ v.number?, x.isFinite = true := by
  intro x hx
  cases v with
  | number y =>
    obtain rfl : y = x := Option.some.inj hx
    cases p with
    | x | y | rotation | scale =>
      simp only [TrackedProperty.literal?] at hv
      split at hv
      · split at hv
        · next hfinite =>
          cases hv
          exact hfinite
        · nomatch hv
      · nomatch hv
    | visible | locked | attachedTo =>
      simp only [TrackedProperty.literal?] at hv
      split at hv <;> cases hv
    | layer | text | name => cases hv
  | _ => nomatch hx

theorem proper_pair {name k₁ k₂ : String} {m₁ m₂ : ValueMatch} (hk : k₁ ≠ k₂)
    (h₁ : ∀ x ∈ m₁.number?, x.isFinite = true) (h₂ : ∀ x ∈ m₂.number?, x.isFinite = true) :
    (Trigger.signal name [(k₁, m₁), (k₂, m₂)]).Proper := by
  refine ⟨by simp [Trigger.criteria, Keyed.keys, hk], fun x hx => ?_⟩
  obtain ⟨m, hm, hxm⟩ := List.mem_filterMap.mp hx
  simp only [Trigger.wanted, List.map_cons, List.map_nil, List.mem_cons, List.not_mem_nil,
    or_false] at hm
  rcases hm with rfl | rfl
  · exact h₁ x hxm
  · exact h₂ x hxm

variable {h : Head} {t : Trigger}

theorem proper_propertyBecomes (ht : propertyBecomes h = .ok t) : t.Proper := by
  obtain ⟨p, -, ht⟩ := ok_of_bind ht
  split at ht
  · next v hv =>
    cases ht
    refine ⟨.nil, fun x hx => ?_⟩
    obtain ⟨m, hm, hx⟩ := List.mem_filterMap.mp hx
    obtain rfl := List.mem_singleton.mp hm
    exact finite_of_literal? hv x hx
  · nomatch ht

theorem proper_diceRoll (ht : diceRoll h = .ok t) : t.Proper := by
  have hdie : ∀ x ∈ (if isWildcard (h.text "DIE") then ValueMatch.any
      else .exactly (.text (Text.trim (h.text "DIE")))).number?, x.isFinite = true := by
    split <;> nofun
  simp only [diceRoll] at ht
  split at ht
  · cases ht
    exact proper_pair (by decide) hdie nofun
  · split at ht
    · next n hn =>
      cases ht
      refine proper_pair (by decide) hdie ?_
      rintro x ⟨⟩
      exact finite_of_finite? hn
    · cases ht

theorem proper_phaseChanged (ht : phaseChanged h = .ok t) : t.Proper := by
  obtain ⟨name, -, ht⟩ := ok_of_bind ht
  cases ht
  refine proper_pair (by decide) nofun ?_
  split
  · nofun
  · split
    · next n hn =>
      rintro x ⟨⟩
      exact finite_of_finite? hn
    · nofun

end Hat

open Hat in
/-- What hats start at is proper. -/
theorem BlockKind.proper {k : BlockKind} {reading : Hat.Reading} {h : Head} {t : Trigger}
    (hk : k.rule = .hat reading) (ht : reading h = .ok t) : t.Proper := by
  cases k with
  | eventImmediately | controlStartAsClone | eventWhenAttached | eventWhenDetached =>
    cases hk
    cases ht
    exact ⟨.nil, nofun⟩
  | eventWhenBroadcastReceived | eventWhenPropertyChanged | eventWhenSelected
  | eventWhenTouchingObject =>
    cases hk
    obtain ⟨a, -, ht⟩ := ok_of_bind ht
    cases ht
    exact ⟨.nil, nofun⟩
  | extensionWhenDoor =>
    cases hk
    obtain ⟨state, -, ht⟩ := ok_of_bind ht
    cases ht
    exact ⟨List.nodup_singleton _, nofun⟩
  | eventWhenPropertyBecomes =>
    cases hk
    exact proper_propertyBecomes ht
  | extensionWhenDiceRoll =>
    cases hk
    exact proper_diceRoll ht
  | extensionWhenPhaseChanged =>
    cases hk
    exact proper_phaseChanged ht
  | _ => cases hk

namespace Descriptor

theorem proper_of_compile {hasher : Hasher} {globals : List String} {g : Graph} {p : Procedure}
    (hp : g.compile hasher globals = .ok p) {d : Descriptor} (hd : d ∈ p.descriptors) :
    d.trigger.Proper := by
  obtain ⟨handler, hhandler, rfl⟩ := List.mem_map.mp hd
  have hscripts := (Compile.forall₂_topLevels (Graph.topLevels_of_compile hp)).flip
  have hproper : List.Forall₂ (fun (handler : Handler) (script : Block × Block) =>
      handler.descriptor.trigger.Proper ∧ handler.Of script) p.handlers g.scripts := by
    refine hscripts.imp fun handler script hof => ⟨?_, hof⟩
    obtain ⟨k, reading, -, hk, hread⟩ := hof.trigger
    exact k.proper hk hread
  exact ((List.forall₂_and_left _ _).mp hproper).1 handler hhandler

/-- A proper descriptor comes back from its text, with its criteria in their order, and compiling
gives only proper ones. -/
theorem read_own_text : (∀ d : Descriptor, d.trigger.Proper →
      (∀ x ∈ d.trigger.numbers, (Number.double x).ReadsBack) →
      format.read d.encode.compact = .ok d) ∧
    ∀ (hasher : Hasher) (globals : List String) (g : Graph) (p : Procedure),
      g.compile hasher globals = .ok p → ∀ d ∈ p.descriptors, d.trigger.Proper :=
  ⟨fun _ => read_compact, fun _ _ _ _ hp _ => proper_of_compile hp⟩

/-- A script for a die that shows six. -/
def sixes : Block := ⟨"hat", "extension_whendiceroll",
  [("DIE", .string "d6"), ("VALUE", .string "6")], [],
  some ⟨"show", "looks_show", [], [], none⟩⟩

def six : Descriptor :=
  ⟨"hat", .signal "diceRoll" [("die", .exactly (.text "d6")), ("value", .exactly (.number 6.0))]⟩

theorem compile_sixes : Graph.compile (fun _ => []) [] ⟨[sixes]⟩ =
    .ok ⟨[⟨six, [.effect (.setVisible true)]⟩], [], []⟩ := by
  have hread : Hat.diceRoll sixes.head = .ok six.trigger := by
    have hdie : Hat.isWildcard "d6" = false := by decide +kernel
    have hwildcard : Hat.isWildcard "6" = false := by decide +kernel
    have hvalue : Hat.finite? "6" = some 6.0 := by decide +kernel
    have htrim : Text.trim "d6" = "d6" := by decide +kernel
    have hd : sixes.head.text "DIE" = "d6" := by rfl
    have hv : sixes.head.text "VALUE" = "6" := by rfl
    simp only [Hat.diceRoll, hd, hv, hdie, hwildcard, hvalue, htrim]
    rfl
  show Except.bind (Except.bind (Except.bind (Except.bind (Hat.diceRoll sixes.head) _) _) _) _ = _
  rw [hread]
  rfl

theorem read_own_text_six : format.read six.encode.compact = .ok six := by
  have htext : (Number.double 6.0).text = "6.0" := by decide +kernel
  have hsix : (Number.double 6.0).ReadsBack := by
    rw [Number.ReadsBack, htext]
    rfl
  obtain ⟨hread, hproper⟩ := read_own_text
  refine hread six (hproper _ _ _ _ compile_sixes six List.mem_cons_self) ?_
  exact List.forall_mem_singleton.mpr hsix

end Descriptor

end Tabletop
