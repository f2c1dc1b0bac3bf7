import Tabletop.Graph.Stored
import Tabletop.Proofs.Graph.Inflate
import Tabletop.Proofs.Keyed

/-! Slots have names of their own in every graph that is read. In the nested form the last block of
a slot counts; in the flat form a second one is refused. -/

namespace Tabletop

namespace Block

open FlatGraph

mutual

/-- No block has two slots of one name. -/
def DistinctSlots : Block → Prop
  | ⟨_, _, _, inputs, next⟩ =>
    (Keyed.keys inputs).Nodup ∧ DistinctInputs inputs ∧ DistinctNext next

def DistinctInputs : List (String × Block) → Prop
  | [] => True
  | (_, b) :: rest => b.DistinctSlots ∧ DistinctInputs rest

def DistinctNext : Option Block → Prop
  | none => True
  | some b => b.DistinctSlots

end

/-! ### The nested form -/

theorem distinctInputs_put {slot : String} {b : Block} (hb : b.DistinctSlots)
    {inputs : List (String × Block)} (h : DistinctInputs inputs) :
    DistinctInputs (Keyed.put slot b inputs) := by
  induction inputs with
  | nil => exact ⟨hb, trivial⟩
  | cons e rest ih =>
    simp only [Keyed.put]
    split
    · exact ⟨hb, h.2⟩
    · exact ⟨h.1, ih h.2⟩

theorem decodeNextIn_cons {k : String} {d : Document} {rest : List (String × Document)}
    {next : Option Block} (h : decodeNextIn ((k, d) :: rest) = some next) :
    next = none ∨ (∃ b, decode d = some b ∧ next = some b) ∨ decodeNextIn rest = some next := by
  by_cases hd : d = .null
  · subst hd
    simp only [decodeNextIn] at h
    split at h
    · cases h
      exact .inl rfl
    · exact .inr (.inr h)
  · rw [decodeNextIn] at h
    · split at h
      · obtain ⟨b, hb, hn⟩ := Option.bind_eq_some_iff.mp h
        exact .inr (.inl ⟨b, hb, (Option.some.inj hn).symm⟩)
      · exact .inr (.inr h)
    · exact hd

theorem decodeNextAt_cons {k : String} {ks : List String} {d : Document} {ds : List Document}
    {next : Option Block} (h : decodeNextAt (k :: ks) (d :: ds) = some next) :
    next = none ∨ (∃ b, decode d = some b ∧ next = some b) ∨ decodeNextAt ks ds = some next := by
  by_cases hd : d = .null
  · subst hd
    simp only [decodeNextAt] at h
    split at h
    · cases h
      exact .inl rfl
    · exact .inr (.inr h)
  · rw [decodeNextAt] at h
    · split at h
      · obtain ⟨b, hb, hn⟩ := Option.bind_eq_some_iff.mp h
        exact .inr (.inl ⟨b, hb, (Option.some.inj hn).symm⟩)
      · exact .inr (.inr h)
    · exact hd

mutual

theorem distinctSlots_of_decode : {d : Document} → {b : Block} → decode d = some b → b.DistinctSlots
  | .object members, b, h => by
    simp only [decode, Option.bind_eq_bind, Option.bind_eq_some_iff, Option.pure_def,
      Option.some.injEq] at h
    obtain ⟨f, -, id, -, kind, -, fields, -, inputs, hin, next, hnext, rfl⟩ := h
    obtain ⟨hkeys, hin⟩ := distinctInputs_of_decodeIn hin
    exact ⟨hkeys, hin, distinctNext_of_decodeIn hnext⟩
  | .array items, b, h => by
    simp only [decode, Option.bind_eq_bind, Option.bind_eq_some_iff, Option.pure_def,
      Option.some.injEq] at h
    obtain ⟨f, -, id, -, kind, -, fields, -, inputs, hin, next, hnext, rfl⟩ := h
    obtain ⟨hkeys, hin⟩ := distinctInputs_of_decodeAt hin
    exact ⟨hkeys, hin, distinctNext_of_decodeAt hnext⟩
  | .null, _, h => by simp [decode] at h
  | .bool _, _, h => by simp [decode] at h
  | .number _, _, h => by simp [decode] at h
  | .string _, _, h => by simp [decode] at h

theorem distinctInputs_of_decodeIn : {members : List (String × Document)} →
    {inputs : List (String × Block)} → decodeInputsIn members = some inputs →
    (Keyed.keys inputs).Nodup ∧ DistinctInputs inputs
  | [], inputs, h => by
    cases h
    exact ⟨.nil, trivial⟩
  | (k, d) :: rest, inputs, h => by
    simp only [decodeInputsIn] at h
    split at h
    · exact distinctInputs_of_decode h
    · exact distinctInputs_of_decodeIn h

theorem distinctInputs_of_decodeAt : {declared : List String} → {items : List Document} →
    {inputs : List (String × Block)} → decodeInputsAt declared items = some inputs →
    (Keyed.keys inputs).Nodup ∧ DistinctInputs inputs
  | k :: ks, d :: ds, inputs, h => by
    simp only [decodeInputsAt] at h
    split at h
    · exact distinctInputs_of_decode h
    · exact distinctInputs_of_decodeAt h
  | [], _, inputs, h => by
    simp only [decodeInputsAt] at h
    cases h
    exact ⟨.nil, trivial⟩
  | _ :: _, [], inputs, h => by
    simp only [decodeInputsAt] at h
    cases h
    exact ⟨.nil, trivial⟩

theorem distinctInputs_of_decode : {d : Document} → {inputs : List (String × Block)} →
    decodeInputs d = some inputs → (Keyed.keys inputs).Nodup ∧ DistinctInputs inputs
  | .object members, _, h =>
    distinctInputs_of_decodeSlots (show (Keyed.keys []).Nodup from List.nodup_nil) trivial h
  | .null, _, h => by simp [decodeInputs] at h
  | .bool _, _, h => by simp [decodeInputs] at h
  | .number _, _, h => by simp [decodeInputs] at h
  | .string _, _, h => by simp [decodeInputs] at h
  | .array _, _, h => by simp [decodeInputs] at h

theorem distinctInputs_of_decodeSlots {seen : List (String × Block)} (hkeys : (Keyed.keys seen).Nodup)
    (hseen : DistinctInputs seen) : {members : List (String × Document)} →
    {inputs : List (String × Block)} → decodeSlots seen members = some inputs →
    (Keyed.keys inputs).Nodup ∧ DistinctInputs inputs
  | [], inputs, h => by
    cases h
    exact ⟨hkeys, hseen⟩
  | (slot, d) :: rest, inputs, h => by
    simp only [decodeSlots, Option.bind_eq_bind, Option.bind_eq_some_iff] at h
    obtain ⟨b, hb, h⟩ := h
    exact distinctInputs_of_decodeSlots (Keyed.nodup_keys_put slot b hkeys)
      (distinctInputs_put (distinctSlots_of_decode hb) hseen) h

theorem distinctNext_of_decodeIn : {members : List (String × Document)} → {next : Option Block} →
    decodeNextIn members = some next → DistinctNext next
  | [], next, h => by
    cases h
    trivial
  | (k, d) :: rest, next, h => by
    obtain rfl | ⟨b, hb, rfl⟩ | h := decodeNextIn_cons h
    · trivial
    · exact distinctSlots_of_decode hb
    · exact distinctNext_of_decodeIn h

theorem distinctNext_of_decodeAt : {declared : List String} → {items : List Document} →
    {next : Option Block} → decodeNextAt declared items = some next → DistinctNext next
  | k :: ks, d :: ds, next, h => by
    obtain rfl | ⟨b, hb, rfl⟩ | h := decodeNextAt_cons h
    · trivial
    · exact distinctSlots_of_decode hb
    · exact distinctNext_of_decodeAt h
  | [], _, next, h => by
    simp only [decodeNextAt] at h
    cases h
    trivial
  | _ :: _, [], next, h => by
    simp only [decodeNextAt] at h
    cases h
    trivial

end

/-! ### The flat form -/

section

variable {nodes : List FlatNode}

theorem SpansInputs.keys_eq {slots : List (String × FlatNode)} {inputs : List (String × Block)}
    (h : SpansInputs nodes slots inputs) : Keyed.keys inputs = Keyed.keys slots := by
  induction slots generalizing inputs with
  | nil =>
    cases inputs with
    | nil => rfl
    | cons e rest => exact h.elim
  | cons s slots ih =>
    cases inputs with
    | nil => exact h.elim
    | cons e rest =>
      obtain ⟨hs, -, hrest⟩ := h
      simp only [Keyed.keys, List.map_cons, hs] at ih ⊢
      rw [ih hrest]

theorem nodup_keys_slotsOf {known : List String} (hl : Linked known nodes) (id : String) :
    (Keyed.keys (slotsOf nodes id)).Nodup := by
  refine List.pairwise_map.mpr (hl.apart.filterMap _ fun m n hmn s hs t ht heq => ?_)
  have hlink {n : FlatNode} {s : String × FlatNode} (h : s ∈ slotsOf [n] id) :
      n.link = some (.input id s.1) := by
    obtain ⟨hn, hlink⟩ := mem_slotsOf.mp h
    rwa [List.mem_singleton.mp hn] at hlink
  have hone {n : FlatNode} : n ∈ [n] := List.mem_singleton_self n
  exact hmn _ (hlink (List.mem_filterMap.mpr ⟨m, hone, hs⟩))
    (heq ▸ hlink (List.mem_filterMap.mpr ⟨n, hone, ht⟩))

mutual

theorem Spans.distinctSlots {known : List String} (hl : Linked known nodes) {n : FlatNode} :
    {b : Block} → Spans nodes n b → b.DistinctSlots
  | ⟨_, _, _, _, _⟩, ⟨_, _, _, hin, hnext⟩ =>
    ⟨hin.keys_eq ▸ nodup_keys_slotsOf hl _, hin.distinctInputs hl, hnext.distinctNext hl⟩

theorem SpansInputs.distinctInputs {known : List String} (hl : Linked known nodes)
    {slots : List (String × FlatNode)} : {inputs : List (String × Block)} →
    SpansInputs nodes slots inputs → DistinctInputs inputs
  | [], _ => trivial
  | (_, b) :: rest, h => by
    cases slots with
    | nil => exact h.elim
    | cons s slots => exact ⟨h.2.1.distinctSlots hl, h.2.2.distinctInputs hl⟩

theorem SpansNext.distinctNext {known : List String} (hl : Linked known nodes)
    {next : Option FlatNode} : {b : Option Block} → SpansNext nodes next b → DistinctNext b
  | none, _ => trivial
  | some b, h => by
    cases next with
    | none => exact h.elim
    | some n => exact Spans.distinctSlots hl (b := b) h

end

end

end Block

namespace Graph

theorem exists_of_mapM {α β : Type} {f : α → Option β} {l : List α} {r : List β}
    (h : l.mapM f = some r) : ∀ b ∈ r, ∃ a ∈ l, f a = some b := by
  induction l generalizing r with
  | nil =>
    cases h
    nofun
  | cons a l ih =>
    simp only [List.mapM_cons, Option.bind_eq_bind, Option.bind_eq_some_iff, Option.pure_def,
      Option.some.injEq] at h
    obtain ⟨b, hb, r, hr, rfl⟩ := h
    intro b' hb'
    obtain rfl | hb' := List.mem_cons.mp hb'
    · exact ⟨a, .head _, hb⟩
    · obtain ⟨a', ha', hf⟩ := ih hr b' hb'
      exact ⟨a', .tail _ ha', hf⟩

/-- No block of the forest has two slots of one name. -/
def DistinctSlots (g : Graph) : Prop := ∀ b ∈ g.blocks, b.DistinctSlots

theorem distinctSlots_of_decode {d : Document} {g : Graph} (h : decode d = some g) :
    g.DistinctSlots := by
  simp only [decode, Option.bind_eq_bind, Option.bind_eq_some_iff, Option.pure_def,
    Option.some.injEq] at h
  obtain ⟨f, -, blocks, hblocks, rfl⟩ := h
  intro b hb
  simp only [Decode.Fields.get] at hblocks
  split at hblocks
  · next d _ =>
    cases d with
    | array items =>
      obtain ⟨d, -, hd⟩ := exists_of_mapM hblocks b hb
      exact Block.distinctSlots_of_decode hd
    | _ => cases hblocks
  · cases hblocks
    nomatch hb

theorem distinctSlots_of_toGraph {f : FlatGraph} {g : Graph} (h : f.toGraph = .ok g) :
    g.DistinctSlots := by
  have hf := (FlatGraph.toGraph_eq_ok.mp h).1
  rw [FlatGraph.toGraph_of_isForest hf] at h
  cases h
  intro b hb
  obtain ⟨n, -, hspans⟩ := (FlatGraph.mem_forest hf.ids).mp hb
  exact hspans.distinctSlots hf.links

end Graph

/-- Whatever graph a stored one stands for, its slots have names of their own. -/
theorem StoredGraph.distinctSlots {d : Document} {s : StoredGraph} (hs : decode d = some s)
    {g : Graph} (hg : s.toGraph = .ok g) : g.DistinctSlots := by
  cases s with
  | flat f => exact Graph.distinctSlots_of_toGraph hg
  | nested g' =>
    cases hg
    simp only [decode, Decode.either, Option.bind_eq_bind, Option.pure_def] at hs
    cases hf : FlatGraph.decode d with
    | some f => simp [hf] at hs
    | none =>
      rw [hf] at hs
      obtain ⟨g', hg', hs⟩ := Option.bind_eq_some_iff.mp hs
      cases hs
      exact Graph.distinctSlots_of_decode hg'

end Tabletop
