import Tabletop.Proofs.Graph.Spans

/-! Which flat graphs have a nested form, and why the others have none. Ids come first, then the
links in their order, then what no top-level record leads to. -/

namespace Tabletop

namespace Block

open FlatGraph

variable {nodes : List FlatNode} {P : FlatNode → Prop}

mutual

/-- What a block is made of hangs from its record, directly or not. -/
theorem Spans.exists_mem (hP : ∀ m, P m → ∀ n ∈ nodes, n.parent? = some m.id → P n) {n : FlatNode}
    (hn : P n) : {b : Block} → Spans nodes n b → ∀ id ∈ b.ids, ∃ m, P m ∧ m.id = id
  | ⟨_, _, _, _, _⟩, ⟨hid, _, _, hin, hnext⟩, id, h => by
    simp only [ids, List.mem_cons, List.mem_append] at h
    rcases h with rfl | h | h
    · exact ⟨n, hn, hid⟩
    · refine hin.exists_mem hP (fun s hs => ?_) id h
      obtain ⟨hm, hlink⟩ := mem_slotsOf.mp hs
      exact hP n hn s.2 hm (by simp [FlatNode.parent?, hlink, ParentLink.parent])
    · refine hnext.exists_mem hP (fun m hm => ?_) id h
      obtain ⟨hm, hlink⟩ := mem_of_successor? hm
      exact hP n hn m hm (by simp [FlatNode.parent?, hlink, ParentLink.parent])

theorem SpansInputs.exists_mem (hP : ∀ m, P m → ∀ n ∈ nodes, n.parent? = some m.id → P n)
    {slots : List (String × FlatNode)} (hs : ∀ s ∈ slots, P s.2) :
    {inputs : List (String × Block)} → SpansInputs nodes slots inputs →
      ∀ id ∈ idsInputs inputs, ∃ m, P m ∧ m.id = id
  | [], _, id, h => nomatch h
  | (_, b) :: rest, hspans, id, h => by
    cases slots with
    | nil => exact hspans.elim
    | cons s slots =>
      obtain ⟨-, hb, hrest⟩ := hspans
      rcases List.mem_append.mp h with h | h
      · exact hb.exists_mem hP (hs s (by simp)) id h
      · exact hrest.exists_mem hP (fun s hs' => hs s (by simp [hs'])) id h

theorem SpansNext.exists_mem (hP : ∀ m, P m → ∀ n ∈ nodes, n.parent? = some m.id → P n)
    {next : Option FlatNode} (hs : ∀ m, next = some m → P m) :
    {b : Option Block} → SpansNext nodes next b → ∀ id ∈ idsNext b, ∃ m, P m ∧ m.id = id
  | none, _, id, h => nomatch h
  | some b, hspans, id, h => by
    cases next with
    | none => exact hspans.elim
    | some m => exact Spans.exists_mem hP (hs m rfl) hspans id h

end

theorem Spans.id_mem {n : FlatNode} {b : Block} (h : Spans nodes n b) : n.id ∈ b.ids := by
  obtain ⟨id, kind, fields, inputs, next⟩ := b
  simp [ids, h.1]

theorem SpansInputs.id_mem {s : String × FlatNode} {slots : List (String × FlatNode)}
    (hs : s ∈ slots) {inputs : List (String × Block)} (h : SpansInputs nodes slots inputs) :
    s.2.id ∈ idsInputs inputs := by
  induction slots generalizing inputs with
  | nil => nomatch hs
  | cons s' slots ih =>
    cases inputs with
    | nil => exact h.elim
    | cons e rest =>
      obtain ⟨-, hb, hrest⟩ := h
      refine List.mem_append.mpr ?_
      rcases List.mem_cons.mp hs with rfl | hs
      · exact .inl hb.id_mem
      · exact .inr (ih hs hrest)

theorem SpansNext.id_mem {n : FlatNode} {b : Option Block} (h : SpansNext nodes (some n) b) :
    n.id ∈ idsNext b := by
  cases b with
  | none => exact h.elim
  | some b => exact Spans.id_mem (b := b) h

mutual

/-- A block that is spanned is closed: what hangs from a part of it is a part of it. -/
theorem Spans.closed {known : List String} (hl : Linked known nodes) {m : FlatNode} (hm : m ∈ nodes)
    {id : String} (hp : m.parent? = some id) {n : FlatNode} :
    {b : Block} → Spans nodes n b → id ∈ b.ids → m.id ∈ b.ids
  | ⟨_, _, _, _, _⟩, ⟨hid, _, _, hin, hnext⟩, h => by
    simp only [ids, List.mem_cons, List.mem_append] at h ⊢
    rcases h with rfl | h | h
    · obtain ⟨link, hlink, hparent⟩ := Option.map_eq_some_iff.mp hp
      subst hid
      cases link with
      | next parent =>
        cases hparent
        rw [hl.successor? hm hlink] at hnext
        exact .inr (.inr hnext.id_mem)
      | input parent slot =>
        cases hparent
        exact .inr (.inl (hin.id_mem (mem_slotsOf.mpr ⟨hm, hlink⟩)))
    · exact .inr (.inl (hin.closed hl hm hp h))
    · exact .inr (.inr (hnext.closed hl hm hp h))

theorem SpansInputs.closed {known : List String} (hl : Linked known nodes) {m : FlatNode}
    (hm : m ∈ nodes) {id : String} (hp : m.parent? = some id) {slots : List (String × FlatNode)} :
    {inputs : List (String × Block)} → SpansInputs nodes slots inputs → id ∈ idsInputs inputs →
      m.id ∈ idsInputs inputs
  | [], _, h => nomatch h
  | (_, b) :: rest, hspans, h => by
    cases slots with
    | nil => exact hspans.elim
    | cons s slots =>
      obtain ⟨-, hb, hrest⟩ := hspans
      refine List.mem_append.mpr ?_
      rcases List.mem_append.mp h with h | h
      · exact .inl (hb.closed hl hm hp h)
      · exact .inr (hrest.closed hl hm hp h)

theorem SpansNext.closed {known : List String} (hl : Linked known nodes) {m : FlatNode}
    (hm : m ∈ nodes) {id : String} (hp : m.parent? = some id) {next : Option FlatNode} :
    {b : Option Block} → SpansNext nodes next b → id ∈ idsNext b → m.id ∈ idsNext b
  | none, _, h => nomatch h
  | some b, hspans, h => by
    cases next with
    | none => exact hspans.elim
    | some n => exact Spans.closed hl hm hp (b := b) hspans h

end

end Block

namespace FlatGraph

open Block

/-- The ids of the records. -/
abbrev known (f : FlatGraph) : List String := f.nodes.map (·.id)

/-- The records without a link. -/
def tops (f : FlatGraph) : List FlatNode := f.nodes.filter (·.link.isNone)

/-- The records of a forest: each is known by its id, hangs in a place of its own, and has one
without a link above it. -/
structure IsForest (f : FlatGraph) : Prop where
  ids : f.known.Nodup
  links : Linked f.known f.nodes
  rooted : ∀ n ∈ f.nodes, ∃ depth, Hangs f.nodes depth n

/-- Why records are those of no forest, with the first record at fault: ids come first, then links,
then what hangs from nothing. -/
inductive Refused (f : FlatGraph) : GraphError → Prop where
  | duplicate {earlier later : List FlatNode} {n : FlatNode} : f.nodes = earlier ++ n :: later →
    (earlier.map (·.id)).Nodup → n.id ∈ earlier.map (·.id) → Refused f (.duplicateId n.id)
  | link {earlier later : List FlatNode} {n : FlatNode} {e : GraphError} : f.known.Nodup →
    f.nodes = earlier ++ n :: later → Linked f.known earlier → Offends f.known earlier n e →
    Refused f e
  | unreachable {earlier later : List FlatNode} {n : FlatNode} : f.known.Nodup →
    Linked f.known f.nodes → f.nodes = earlier ++ n :: later →
    (∀ m ∈ earlier, ∃ depth, Hangs f.nodes depth m) → (∀ depth, ¬Hangs f.nodes depth n) →
    Refused f (.unreachable n.id)

variable {f : FlatGraph}

theorem linked_nil (ids : List String) : Linked ids [] := ⟨by simp, .nil⟩

theorem mem_tops {n : FlatNode} : n ∈ f.tops ↔ n ∈ f.nodes ∧ n.link = none := by
  simp [tops]

theorem hangs_top {n : FlatNode} (hn : n ∈ f.tops) : Hangs f.nodes 0 n :=
  .top (mem_tops.mp hn).1 (mem_tops.mp hn).2

/-- However many levels are allowed beyond the number of records, from a top-level record the same
is built. -/
theorem spans_top (hids : f.known.Nodup) {n : FlatNode} (hn : n ∈ f.tops) {depth : Nat}
    (hd : f.nodes.length ≤ depth) : Spans f.nodes n (build f.nodes depth n) :=
  spans_build hids depth (hangs_top hn) (by omega)

/-- Each top-level block of the forest spans what hangs from its record. -/
theorem spans_forest (hids : f.known.Nodup) :
    List.Forall₂ (Spans f.nodes) f.tops (forest f.nodes).blocks :=
  List.forall₂_map_right_iff.mpr (List.forall₂_same.mpr fun _ hn => spans_top hids hn (Nat.le_refl _))

/-- The blocks of the forest are those built from the records without a link. -/
theorem mem_forest (hids : f.known.Nodup) {b : Block} :
    b ∈ (forest f.nodes).blocks ↔ ∃ n ∈ f.tops, Spans f.nodes n b := by
  simp only [forest, List.mem_map]
  constructor
  · rintro ⟨n, hn, rfl⟩
    exact ⟨n, hn, spans_top hids hn (Nat.le_refl _)⟩
  · rintro ⟨n, hn, hb⟩
    exact ⟨n, hn, (spans_top hids hn (Nat.le_refl _)).unique hb⟩

/-- The forest has a record exactly if one without a link stands above it. -/
theorem mem_ids_forest (hids : f.known.Nodup) (hl : Linked f.known f.nodes) {n : FlatNode}
    (hn : n ∈ f.nodes) : n.id ∈ (forest f.nodes).ids ↔ ∃ depth, Hangs f.nodes depth n := by
  simp only [Graph.ids, List.mem_flatMap]
  constructor
  · rintro ⟨b, hb, hid⟩
    obtain ⟨top, htop, hspans⟩ := (mem_forest hids).mp hb
    obtain ⟨m, ⟨depth, hm⟩, hmid⟩ := hspans.exists_mem (P := fun m => ∃ depth, Hangs f.nodes depth m)
      (fun m ⟨depth, hm⟩ n hn hp => ⟨depth + 1, .under hm hn hp⟩) ⟨0, hangs_top htop⟩ n.id hid
    exact ⟨depth, eq_of_id hids hm.mem hn hmid ▸ hm⟩
  · rintro ⟨depth, hn⟩
    induction hn with
    | top hn hlink =>
      have hspans := spans_top hids (mem_tops.mpr ⟨hn, hlink⟩) (Nat.le_refl _)
      exact ⟨_, (mem_forest hids).mpr ⟨_, mem_tops.mpr ⟨hn, hlink⟩, hspans⟩, hspans.id_mem⟩
    | under hm hn hp ih =>
      obtain ⟨b, hb, hid⟩ := ih hm.mem
      obtain ⟨top, -, hspans⟩ := (mem_forest hids).mp hb
      exact ⟨b, hb, hspans.closed hl hn hp hid⟩

/-! ### The three readings -/

theorem repeatedId?_of_nodup (hids : f.known.Nodup) : repeatedId? [] f.nodes = none :=
  repeatedId?_eq_none.mpr ⟨hids, by simp⟩

theorem toGraph_of_linked (hids : f.known.Nodup) (hl : Linked f.known f.nodes) :
    f.toGraph = (f.nodes.find? fun n => !(forest f.nodes).ids.contains n.id).elim
      (.ok (forest f.nodes)) fun n => .error (.unreachable n.id) := by
  have hbad : badLink? f.known [] f.nodes = none := (badLink?_eq_none (linked_nil _)).mpr hl
  rw [toGraph, repeatedId?_of_nodup hids]
  simp only [hbad]
  cases f.nodes.find? fun n => !(forest f.nodes).ids.contains n.id <;> rfl

theorem toGraph_of_isForest (h : f.IsForest) : f.toGraph = .ok (forest f.nodes) := by
  have hall : f.nodes.find? (fun n => !(forest f.nodes).ids.contains n.id) = none := by
    refine List.find?_eq_none.mpr fun n hn => ?_
    simpa using (mem_ids_forest h.ids h.links hn).mpr (h.rooted n hn)
  rw [toGraph_of_linked h.ids h.links, hall, Option.elim_none]

theorem toGraph_of_refused {e : GraphError} (h : f.Refused e) : f.toGraph = .error e := by
  cases h with
  | @duplicate earlier later n hnodes hearlier hid =>
    have hfirst : repeatedId? [] earlier = none := repeatedId?_eq_none.mpr ⟨hearlier, by simp⟩
    rw [toGraph, repeatedId?_eq_some.mpr ⟨earlier, n, later, hnodes, rfl, .inr hid, hfirst⟩]
  | @link earlier later n e hids hnodes hl he =>
    have hbad : badLink? f.known [] f.nodes = some e :=
      (badLink?_eq_some (linked_nil _)).mpr ⟨earlier, n, later, hnodes, hl, he⟩
    rw [toGraph, repeatedId?_of_nodup hids]
    simp only [hbad]
  | @unreachable earlier later n hids hl hnodes hin hout =>
    have hmem (m : FlatNode) (hm : m ∈ earlier ++ n :: later) : m ∈ f.nodes := hnodes ▸ hm
    have hfound : f.nodes.find? (fun n => !(forest f.nodes).ids.contains n.id) = some n := by
      refine List.find?_eq_some_iff_append.mpr ⟨?_, earlier, later, hnodes, fun m hm => ?_⟩
      · have : n.id ∉ (forest f.nodes).ids := fun h => by
          obtain ⟨depth, hn⟩ := (mem_ids_forest hids hl (hmem n (by simp))).mp h
          exact hout depth hn
        simpa using this
      · simpa using (mem_ids_forest hids hl (hmem m (by simp [hm]))).mpr (hin m hm)
    rw [toGraph_of_linked hids hl, hfound, Option.elim_some]

theorem isForest_or_refused (f : FlatGraph) : f.IsForest ∨ ∃ e, f.Refused e := by
  cases hrep : repeatedId? [] f.nodes with
  | some id =>
    obtain ⟨earlier, n, later, hnodes, rfl, hid, hfirst⟩ := repeatedId?_eq_some.mp hrep
    exact .inr ⟨_, .duplicate hnodes (repeatedId?_eq_none.mp hfirst).1 (by simpa using hid)⟩
  | none =>
    have hids : f.known.Nodup := (repeatedId?_eq_none.mp hrep).1
    cases hbad : badLink? f.known [] f.nodes with
    | some e =>
      obtain ⟨earlier, n, later, hnodes, hl, he⟩ := (badLink?_eq_some (linked_nil _)).mp hbad
      exact .inr ⟨e, .link hids hnodes hl he⟩
    | none =>
      have hl : Linked f.known f.nodes := (badLink?_eq_none (linked_nil _)).mp hbad
      cases hfind : f.nodes.find? fun n => !(forest f.nodes).ids.contains n.id with
      | none =>
        refine .inl ⟨hids, hl, fun n hn => (mem_ids_forest hids hl hn).mp ?_⟩
        simpa using List.find?_eq_none.mp hfind n hn
      | some n =>
        obtain ⟨hout, earlier, later, hnodes, hin⟩ := List.find?_eq_some_iff_append.mp hfind
        have hmem (m : FlatNode) (hm : m ∈ earlier ++ n :: later) : m ∈ f.nodes := hnodes ▸ hm
        refine .inr ⟨_, .unreachable hids hl hnodes (fun m hm => ?_) fun depth hn => ?_⟩
        · exact (mem_ids_forest hids hl (hmem m (by simp [hm]))).mp (by simpa using hin m hm)
        · have := (mem_ids_forest hids hl (hmem n (by simp))).mpr ⟨depth, hn⟩
          simp [this] at hout

theorem toGraph_eq_error {e : GraphError} : f.toGraph = .error e ↔ f.Refused e := by
  refine ⟨fun h => ?_, toGraph_of_refused⟩
  obtain hf | ⟨e', he'⟩ := f.isForest_or_refused
  · rw [toGraph_of_isForest hf] at h
    cases h
  · rw [toGraph_of_refused he'] at h
    cases h
    exact he'

theorem toGraph_eq_ok {g : Graph} :
    f.toGraph = .ok g ↔ f.IsForest ∧ List.Forall₂ (Spans f.nodes) f.tops g.blocks := by
  constructor
  · intro h
    obtain hf | ⟨e, he⟩ := f.isForest_or_refused
    · rw [toGraph_of_isForest hf] at h
      cases h
      exact ⟨hf, spans_forest hf.ids⟩
    · rw [toGraph_of_refused he] at h
      cases h
  · rintro ⟨hf, hspans⟩
    have hunique : Relator.RightUnique (Spans f.nodes) := fun _ _ _ h h' => h.unique h'
    have : (forest f.nodes).blocks = g.blocks :=
      List.right_unique_forall₂' hunique (spans_forest hf.ids) hspans
    rw [toGraph_of_isForest hf, ← show forest f.nodes = g from congrArg Graph.mk this]

/-- Every list of records is the list of a forest, which is then given, or is refused for its first
fault. The walk down from a top-level record ends, however far it may go. -/
theorem toGraph_decides (f : FlatGraph) :
    ((∃ g, f.toGraph = .ok g) ↔ f.IsForest) ∧
      (∀ g, f.toGraph = .ok g → List.Forall₂ (Spans f.nodes) f.tops g.blocks) ∧
      (∀ e, f.toGraph = .error e ↔ f.Refused e) ∧
      (f.known.Nodup → ∀ n ∈ f.tops, ∀ depth, f.nodes.length ≤ depth →
        Spans f.nodes n (build f.nodes depth n)) :=
  ⟨⟨fun ⟨_, h⟩ => (toGraph_eq_ok.mp h).1, fun h => ⟨_, toGraph_of_isForest h⟩⟩,
    fun _ h => (toGraph_eq_ok.mp h).2, fun _ => toGraph_eq_error,
    fun hids _ hn _ hd => spans_top hids hn hd⟩

end FlatGraph

end Tabletop
