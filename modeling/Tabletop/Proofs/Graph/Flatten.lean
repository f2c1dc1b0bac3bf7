import Tabletop.Proofs.Graph.Slots

/-! The flat form of a nested graph, and the way back. In the flat form of a block, what hangs from
any of its parts stands in the order of that part's slots, its successor last; so the records span
the block, and inflating them gives it back. -/

namespace Tabletop

namespace Block

open FlatGraph

/-- The record of a block that hangs at `link`. -/
def record (link : Option ParentLink) (b : Block) : FlatNode := ⟨b.id, b.kind, b.fields, link⟩

/-- The records of the blocks in the slots of a parent. -/
def inputRecords (parent : String) (inputs : List (String × Block)) : List FlatNode :=
  inputs.map fun e => e.2.record (some (.input parent e.1))

/-- The record of the successor of a parent. -/
def nextRecords (parent : String) (next : Option Block) : List FlatNode :=
  next.toList.map (record (some (.next parent)))

/-! ### Ids -/

mutual

theorem map_id_flatten : (b : Block) → (link : Option ParentLink) →
    (b.flatten link).map (·.id) = b.ids
  | ⟨id, _, _, inputs, next⟩, _ => by
    simp only [flatten, ids, List.map_cons, List.map_append, map_id_flattenInputs inputs id,
      map_id_flattenNext next id]

theorem map_id_flattenInputs : (inputs : List (String × Block)) → (parent : String) →
    (flattenInputs parent inputs).map (·.id) = idsInputs inputs
  | [], _ => rfl
  | (slot, b) :: rest, parent => by
    simp only [flattenInputs, idsInputs, List.map_append, map_id_flatten b,
      map_id_flattenInputs rest parent]

theorem map_id_flattenNext : (next : Option Block) → (parent : String) →
    (flattenNext parent next).map (·.id) = idsNext next
  | none, _ => rfl
  | some b, _ => map_id_flatten b _

end

/-! ### What hangs from outside -/

mutual

/-- From a block that is not part of `b`, only `b` itself can hang. -/
theorem children_flatten {id : String} : (b : Block) → (link : Option ParentLink) → id ∉ b.ids →
    children (b.flatten link) id =
      if link.map (·.parent) = some id then [b.record link] else []
  | ⟨i, kind, fields, inputs, next⟩, link, h => by
    simp only [ids, List.mem_cons, List.mem_append, not_or] at h
    obtain ⟨hi, hin, hnext⟩ := h
    rw [flatten, ← List.singleton_append, children_append, children_append,
      children_flattenInputs inputs i hin, children_flattenNext next i hnext,
      if_neg (Ne.symm hi), if_neg (Ne.symm hi)]
    by_cases hl : link.map (·.parent) = some id <;>
      simp [children, FlatNode.parent?, record, hl]

theorem children_flattenInputs {id : String} : (inputs : List (String × Block)) →
    (parent : String) → id ∉ idsInputs inputs →
    children (flattenInputs parent inputs) id = if parent = id then inputRecords parent inputs else []
  | [], _, _ => by simp [flattenInputs, children, inputRecords]
  | (slot, b) :: rest, parent, h => by
    simp only [idsInputs, List.mem_append, not_or] at h
    rw [flattenInputs, children_append, children_flatten b _ h.1,
      children_flattenInputs rest parent h.2]
    by_cases hp : parent = id <;> simp [hp, inputRecords, ParentLink.parent]

theorem children_flattenNext {id : String} : (next : Option Block) → (parent : String) →
    id ∉ idsNext next →
    children (flattenNext parent next) id = if parent = id then nextRecords parent next else []
  | none, _, _ => by simp [flattenNext, children, nextRecords]
  | some b, parent, h => by
    rw [flattenNext, children_flatten b _ h]
    by_cases hp : parent = id <;> simp [hp, nextRecords, ParentLink.parent]

end

/-- What hangs from a block itself: what is in its slots, and then its successor. -/
theorem children_self {id kind : String} {fields : List (String × Json)}
    {inputs : List (String × Block)} {next : Option Block} {link : Option ParentLink}
    (hlink : link.map (·.parent) ≠ some id)
    (hids : (ids ⟨id, kind, fields, inputs, next⟩).Nodup) :
    children (flatten link ⟨id, kind, fields, inputs, next⟩) id =
      inputRecords id inputs ++ nextRecords id next := by
  simp only [ids, List.nodup_cons, List.mem_append, not_or] at hids
  rw [flatten, ← List.singleton_append, children_append, children_append,
    children_flattenInputs inputs id hids.1.1, children_flattenNext next id hids.1.2, if_pos rfl,
    if_pos rfl]
  simp [children, FlatNode.parent?, hlink]

/-! ### The records span the block -/

section

variable {nodes : List FlatNode}

theorem find?_inputRecords (parent : String) (inputs : List (String × Block)) :
    (inputRecords parent inputs).find? (·.link == some (.next parent)) = none := by
  simp [inputRecords, record]

theorem slots_inputRecords (parent : String) (inputs : List (String × Block)) :
    (inputRecords parent inputs).filterMap FlatNode.slot? =
      inputs.map fun e => (e.1, e.2.record (some (.input parent e.1))) := by
  simp [inputRecords, record, FlatNode.slot?, List.filterMap_map, Function.comp_def]

theorem slots_nextRecords (parent : String) (next : Option Block) :
    (nextRecords parent next).filterMap FlatNode.slot? = [] := by
  cases next <;> simp [nextRecords, record, FlatNode.slot?]

mutual

/-- Where what hangs from each part of a block is as in the block's own records, they span it. -/
theorem spans_record : (b : Block) → (link : Option ParentLink) → b.ids.Nodup →
    (∀ id ∈ b.ids, link.map (·.parent) ≠ some id) →
    (∀ id ∈ b.ids, children nodes id = children (b.flatten link) id) →
    Spans nodes (b.record link) b
  | ⟨id, kind, fields, inputs, next⟩, link, hids, hlink, hnodes => by
    have hself : children nodes id = inputRecords id inputs ++ nextRecords id next := by
      rw [hnodes id (by simp [ids]), children_self (hlink id (by simp [ids])) hids]
    simp only [ids, List.nodup_cons, List.mem_append, not_or] at hids
    obtain ⟨⟨hin, hnext⟩, happ⟩ := hids
    obtain ⟨hinputs, hsucc, hdisj⟩ := List.nodup_append.mp happ
    have hpart (i : String) (hi : i ∈ idsInputs inputs ∨ i ∈ idsNext next) :
        children nodes i =
          children (flattenInputs id inputs) i ++ children (flattenNext id next) i := by
      have hne : ¬link.map (·.parent) = some i := hlink i (by simp [ids, hi])
      rw [hnodes i (by simp [ids, hi]), flatten, ← List.singleton_append, children_append,
        children_append]
      simp [children, FlatNode.parent?, hne]
    refine ⟨rfl, rfl, rfl, ?_, ?_⟩
    · rw [slotsOf_eq, show (record link ⟨id, kind, fields, inputs, next⟩).id = id from rfl, hself,
        List.filterMap_append, slots_inputRecords, slots_nextRecords, List.append_nil]
      refine spansInputs_records inputs id hinputs hin fun i hi => ?_
      have hi' : i ∉ idsNext next := fun h => hdisj i hi i h rfl
      rw [hpart i (.inl hi), children_flattenNext next id hi',
        if_neg fun h => hin (by rwa [h]), List.append_nil]
    · rw [successor?_eq, show (record link ⟨id, kind, fields, inputs, next⟩).id = id from rfl,
        hself, List.find?_append, find?_inputRecords, Option.none_or]
      refine spansNext_records next id hsucc hnext fun i hi => ?_
      have hi' : i ∉ idsInputs inputs := fun h => hdisj i h i hi rfl
      rw [hpart i (.inr hi), children_flattenInputs inputs id hi',
        if_neg fun h => hnext (by rwa [h]), List.nil_append]

theorem spansInputs_records : (inputs : List (String × Block)) → (parent : String) →
    (idsInputs inputs).Nodup → parent ∉ idsInputs inputs →
    (∀ id ∈ idsInputs inputs, children nodes id = children (flattenInputs parent inputs) id) →
    SpansInputs nodes (inputs.map fun e => (e.1, e.2.record (some (.input parent e.1)))) inputs
  | [], _, _, _, _ => trivial
  | (slot, b) :: rest, parent, hids, hp, hnodes => by
    simp only [idsInputs, List.mem_append, not_or] at hp hnodes hids
    obtain ⟨hb, hrest, hdisj⟩ := List.nodup_append.mp hids
    have hne (i : String) (hi : i ∈ b.ids ∨ i ∈ idsInputs rest) : parent ≠ i := by
      rintro rfl
      exact hi.elim hp.1 hp.2
    refine ⟨rfl, spans_record b _ hb (fun i hi => ?_) fun i hi => ?_,
      spansInputs_records rest parent hrest hp.2 fun i hi => ?_⟩
    · simpa [ParentLink.parent] using hne i (.inl hi)
    · have hi' : i ∉ idsInputs rest := fun h => hdisj i hi i h rfl
      rw [hnodes i (.inl hi), flattenInputs, children_append, children_flattenInputs rest _ hi',
        if_neg (hne i (.inl hi)), List.append_nil]
    · have hi' : i ∉ b.ids := fun h => hdisj i h i hi rfl
      rw [hnodes i (.inr hi), flattenInputs, children_append, children_flatten b _ hi',
        if_neg (by simpa [ParentLink.parent] using hne i (.inr hi)), List.nil_append]

theorem spansNext_records : (next : Option Block) → (parent : String) → (idsNext next).Nodup →
    parent ∉ idsNext next →
    (∀ id ∈ idsNext next, children nodes id = children (flattenNext parent next) id) →
    SpansNext nodes ((nextRecords parent next).find? (·.link == some (.next parent))) next
  | none, _, _, _, _ => trivial
  | some b, parent, hids, hp, hnodes => by
    have hfind : (nextRecords parent (some b)).find? (·.link == some (.next parent)) =
        some (b.record (some (.next parent))) := by
      simp [nextRecords, record]
    rw [hfind]
    refine spans_record b _ hids (fun i hi => ?_) hnodes
    rintro ⟨⟩
    exact hp hi

end

end

/-! ### Links -/

mutual

theorem link_flatten {n : FlatNode} : (b : Block) → (link : Option ParentLink) →
    n ∈ b.flatten link → n.link = link ∨ ∃ l, n.link = some l ∧ l.parent ∈ b.ids
  | ⟨id, kind, fields, inputs, next⟩, link, h => by
    simp only [flatten, List.mem_cons, List.mem_append] at h
    rcases h with rfl | h | h
    · exact .inl rfl
    · obtain ⟨slot, -, hl⟩ | ⟨l, hl, hp⟩ := link_flattenInputs inputs id h
      · exact .inr ⟨_, hl, by simp [ids, ParentLink.parent]⟩
      · exact .inr ⟨l, hl, by simp [ids, hp]⟩
    · obtain hl | ⟨l, hl, hp⟩ := link_flattenNext next id h
      · exact .inr ⟨_, hl, by simp [ids, ParentLink.parent]⟩
      · exact .inr ⟨l, hl, by simp [ids, hp]⟩

theorem link_flattenInputs {n : FlatNode} : (inputs : List (String × Block)) → (parent : String) →
    n ∈ flattenInputs parent inputs → (∃ slot ∈ Keyed.keys inputs,
      n.link = some (.input parent slot)) ∨ ∃ l, n.link = some l ∧ l.parent ∈ idsInputs inputs
  | (slot, b) :: rest, parent, h => by
    rcases List.mem_append.mp h with h | h
    · obtain hl | ⟨l, hl, hp⟩ := link_flatten b _ h
      · exact .inl ⟨slot, by simp [Keyed.keys], hl⟩
      · exact .inr ⟨l, hl, by simp [idsInputs, hp]⟩
    · obtain ⟨s, hs, hl⟩ | ⟨l, hl, hp⟩ := link_flattenInputs rest parent h
      · exact .inl ⟨s, List.mem_cons_of_mem _ hs, hl⟩
      · exact .inr ⟨l, hl, by simp [idsInputs, hp]⟩

theorem link_flattenNext {n : FlatNode} : (next : Option Block) → (parent : String) →
    n ∈ flattenNext parent next →
      n.link = some (.next parent) ∨ ∃ l, n.link = some l ∧ l.parent ∈ idsNext next
  | some b, _, h => link_flatten b _ h

end

/-- The links of the records of a block that are no link of the block itself lead into it. -/
theorem parent_mem_of_flatten {n : FlatNode} {b : Block} {link : Option ParentLink}
    (h : n ∈ b.flatten link) {l : ParentLink} (hl : n.link = some l) (hne : link ≠ some l) :
    l.parent ∈ b.ids := by
  obtain h | ⟨l', hl', hp⟩ := link_flatten b link h
  · exact absurd (h.symm.trans hl) hne
  · cases hl.symm.trans hl'
    exact hp

mutual

theorem apart_flatten : (b : Block) → (link : Option ParentLink) → b.ids.Nodup → b.DistinctSlots →
    (∀ id ∈ b.ids, link.map (·.parent) ≠ some id) →
    (b.flatten link).Pairwise fun m n => ∀ l, m.link = some l → n.link ≠ some l
  | ⟨id, kind, fields, inputs, next⟩, link, hids, ⟨hslots, hin, hnext⟩, hlink => by
    simp only [ids, List.nodup_cons, List.mem_append, not_or] at hids
    obtain ⟨⟨hidin, hidnext⟩, happ⟩ := hids
    obtain ⟨hinputs, hsucc, hdisj⟩ := List.nodup_append.mp happ
    refine List.pairwise_cons.mpr ⟨fun n hn l hl hnl => ?_, List.pairwise_append.mpr
      ⟨apart_flattenInputs inputs id hinputs hslots hin hidin,
        apart_flattenNext next id hsucc hnext hidnext, fun m hm n hn l hml hnl => ?_⟩⟩
    · -- the block itself hangs from outside, all else from within
      have hout (hp : l.parent ∈ id :: (idsInputs inputs ++ idsNext next)) : False :=
        hlink _ hp (by rw [show link = some l from hl]; rfl)
      rcases List.mem_append.mp hn with hn | hn
      · obtain ⟨slot, -, h⟩ | ⟨l', h, hp⟩ := link_flattenInputs inputs id hn <;>
          cases hnl.symm.trans h
        · exact hout (by simp [ParentLink.parent])
        · exact hout (by simp [hp])
      · obtain h | ⟨l', h, hp⟩ := link_flattenNext next id hn <;> cases hnl.symm.trans h
        · exact hout (by simp [ParentLink.parent])
        · exact hout (by simp [hp])
    · obtain ⟨slot, -, h⟩ | ⟨l', h, hp⟩ := link_flattenInputs inputs id hm <;>
        obtain h' | ⟨l'', h', hp'⟩ := link_flattenNext next id hn <;>
        cases hml.symm.trans h <;> cases hnl.symm.trans h'
      · exact hidnext hp'
      · exact hidin hp
      · exact hdisj _ hp _ hp' rfl

theorem apart_flattenInputs : (inputs : List (String × Block)) → (parent : String) →
    (idsInputs inputs).Nodup → (Keyed.keys inputs).Nodup → DistinctInputs inputs →
    parent ∉ idsInputs inputs → (flattenInputs parent inputs).Pairwise
      fun m n => ∀ l, m.link = some l → n.link ≠ some l
  | [], _, _, _, _, _ => .nil
  | (slot, b) :: rest, parent, hids, hkeys, ⟨hb, hrest⟩, hp => by
    simp only [idsInputs, List.mem_append, not_or] at hp hids
    obtain ⟨hbids, hrestids, hdisj⟩ := List.nodup_append.mp hids
    obtain ⟨hslot, hkeys⟩ := List.nodup_cons.mp hkeys
    refine List.pairwise_append.mpr ⟨apart_flatten b _ hbids hb fun i hi => ?_,
      apart_flattenInputs rest parent hrestids hkeys hrest hp.2, fun m hm n hn l hml hnl => ?_⟩
    · rintro ⟨⟩
      exact hp.1 hi
    · obtain h | ⟨l', h, hl⟩ := link_flatten b _ hm <;>
        obtain ⟨s, hs, h'⟩ | ⟨l'', h', hl'⟩ := link_flattenInputs rest parent hn <;>
        cases hml.symm.trans h <;> cases hnl.symm.trans h'
      · exact hslot hs
      · exact hp.2 hl'
      · exact hp.1 hl
      · exact hdisj _ hl _ hl' rfl

theorem apart_flattenNext : (next : Option Block) → (parent : String) → (idsNext next).Nodup →
    DistinctNext next → parent ∉ idsNext next → (flattenNext parent next).Pairwise
      fun m n => ∀ l, m.link = some l → n.link ≠ some l
  | none, _, _, _, _ => .nil
  | some b, parent, hids, hb, hp => apart_flatten b _ hids hb fun i hi => by
    rintro ⟨⟩
    exact hp hi

end

/-- Of the records of a block, only its own can be at the top. -/
theorem tops_flatten (b : Block) (link : Option ParentLink) :
    (b.flatten link).filter (·.link.isNone) = if link.isNone then [b.record link] else [] := by
  obtain ⟨id, kind, fields, inputs, next⟩ := b
  have hbelow : (flattenInputs id inputs ++ flattenNext id next).filter (·.link.isNone) = [] := by
    refine List.filter_eq_nil_iff.mpr fun n hn => ?_
    rcases List.mem_append.mp hn with hn | hn
    · obtain ⟨s, -, h⟩ | ⟨l, h, -⟩ := link_flattenInputs inputs id hn <;> simp [h]
    · obtain h | ⟨l, h, -⟩ := link_flattenNext next id hn <;> simp [h]
  simp only [flatten, List.filter_cons, hbelow]
  cases link <;> simp [record]

end Block

namespace Graph

open FlatGraph Block

theorem known_ofGraph (g : Graph) : (FlatGraph.ofGraph g).known = g.ids := by
  simp only [known, FlatGraph.ofGraph, List.map_flatMap, map_id_flatten, ids]

theorem tops_ofGraph (g : Graph) : (FlatGraph.ofGraph g).tops = g.blocks.map (record none) := by
  simp only [tops, FlatGraph.ofGraph, List.filter_flatMap, tops_flatten, Option.isNone_none,
    if_true]
  exact List.map_eq_flatMap.symm

/-- What hangs from a part of a top-level block is in the records of this block. -/
theorem children_ofGraph {blocks : List Block} (hids : (blocks.flatMap Block.ids).Nodup) {b : Block}
    (hb : b ∈ blocks) {id : String} (hid : id ∈ b.ids) :
    children (blocks.flatMap (Block.flatten none)) id = children (b.flatten none) id := by
  have hother (c : Block) (hc : id ∉ c.ids) : children (c.flatten none) id = [] := by
    simp [children_flatten c none hc]
  induction blocks with
  | nil => nomatch hb
  | cons c rest ih =>
    rw [List.flatMap_cons] at hids
    obtain ⟨-, hrest, hdisj⟩ := List.nodup_append.mp hids
    rw [List.flatMap_cons, children_append]
    rcases List.mem_cons.mp hb with rfl | hb
    · have : children (rest.flatMap (Block.flatten none)) id = [] := by
        rw [children, List.filter_flatMap]
        refine List.flatMap_eq_nil_iff.mpr fun c hc => hother c fun h => ?_
        exact hdisj id hid id (List.mem_flatMap.mpr ⟨c, hc, h⟩) rfl
      rw [this, List.append_nil]
    · have hc : id ∉ c.ids := fun h => hdisj id h id (List.mem_flatMap.mpr ⟨b, hb, hid⟩) rfl
      rw [hother c hc, List.nil_append, ih hrest hb]

theorem spans_ofGraph {g : Graph} (hids : g.ids.Nodup) :
    List.Forall₂ (Spans (FlatGraph.ofGraph g).nodes) (FlatGraph.ofGraph g).tops g.blocks := by
  rw [tops_ofGraph]
  refine List.forall₂_map_left_iff.mpr (List.forall₂_same.mpr fun b hb => ?_)
  refine spans_record b none ?_ (by simp) fun id hid => children_ofGraph hids hb hid
  exact (List.nodup_flatMap.mp hids).1 b hb

theorem linked_ofGraph {g : Graph} (hids : g.ids.Nodup) (hslots : g.DistinctSlots) :
    Linked g.ids (FlatGraph.ofGraph g).nodes where
  parents n hn link hlink := by
    obtain ⟨b, hb, hn⟩ := List.mem_flatMap.mp hn
    exact List.mem_flatMap.mpr ⟨b, hb, parent_mem_of_flatten hn hlink (by simp)⟩
  apart := by
    obtain ⟨hall, hdisj⟩ := List.nodup_flatMap.mp hids
    refine List.pairwise_flatMap.mpr ⟨fun b hb => ?_, hdisj.imp fun hbc m hm n hn l hml hnl => ?_⟩
    · exact apart_flatten b none (hall b hb) (hslots b hb) (by simp)
    · exact hbc (parent_mem_of_flatten hm hml (by simp)) (parent_mem_of_flatten hn hnl (by simp))

theorem isForest_ofGraph {g : Graph} (hids : g.ids.Nodup) (hslots : g.DistinctSlots) :
    (FlatGraph.ofGraph g).IsForest := by
  have hknown : (FlatGraph.ofGraph g).known.Nodup := known_ofGraph g ▸ hids
  have hl : Linked (FlatGraph.ofGraph g).known (FlatGraph.ofGraph g).nodes :=
    known_ofGraph g ▸ linked_ofGraph hids hslots
  refine ⟨hknown, hl, fun n hn => ?_⟩
  have hg : forest (FlatGraph.ofGraph g).nodes = g := by
    have hunique : Relator.RightUnique (Spans (FlatGraph.ofGraph g).nodes) :=
      fun _ _ _ h h' => h.unique h'
    exact congrArg Graph.mk (List.right_unique_forall₂' hunique (spans_forest hknown)
      (spans_ofGraph hids))
  rw [← mem_ids_forest hknown hl hn, hg, ← known_ofGraph]
  exact List.mem_map_of_mem hn

/-- A graph whose blocks have ids of their own comes back from its flat form. -/
theorem toGraph_of_nodup {g : Graph} (hids : g.ids.Nodup) (hslots : g.DistinctSlots) :
    (FlatGraph.ofGraph g).toGraph = .ok g :=
  toGraph_eq_ok.mpr ⟨isForest_ofGraph hids hslots, spans_ofGraph hids⟩

/-- Flattening loses nothing: a graph whose blocks have ids of their own comes back from its flat
form as it was, and one in which an id repeats is refused for the first block with an id of an
earlier one. That slots have names of their own holds of every graph that is read
(`StoredGraph.distinctSlots`). -/
theorem toGraph_ofGraph (g : Graph) (hslots : g.DistinctSlots) :
    (g.ids.Nodup → (FlatGraph.ofGraph g).toGraph = .ok g) ∧
      (¬g.ids.Nodup → ∃ earlier id later, g.ids = earlier ++ id :: later ∧ earlier.Nodup ∧
        id ∈ earlier ∧ (FlatGraph.ofGraph g).toGraph = .error (.duplicateId id)) := by
  constructor
  · exact fun hids => toGraph_of_nodup hids hslots
  · intro hids
    rw [← known_ofGraph] at hids ⊢
    cases h : repeatedId? [] (FlatGraph.ofGraph g).nodes with
    | none => exact absurd (repeatedId?_eq_none.mp h).1 hids
    | some id =>
      obtain ⟨earlier, n, later, hnodes, rfl, hmem, hfirst⟩ := repeatedId?_eq_some.mp h
      refine ⟨earlier.map (·.id), n.id, later.map (·.id), by simp [known, hnodes],
        (repeatedId?_eq_none.mp hfirst).1, by simpa using hmem, ?_⟩
      rw [toGraph, h]

/-- A hat, the wait below it with a reporter in its slot, what follows the wait, and a second block
that stands alone under the id `stray`. -/
def waiting (stray : String) : Graph := ⟨[
  ⟨"hat", "event_immediately", [], [], some ⟨"wait", "control_wait", [],
    [("DURATION", ⟨"sum", "operator_add", [("A", .null), ("B", .bool true)], [], none⟩)],
    some ⟨"hide", "looks_hide", [], [], none⟩⟩⟩,
  ⟨stray, "looks_show", [], [], none⟩]⟩

theorem toGraph_ofGraph_waiting :
    (FlatGraph.ofGraph (waiting "show")).toGraph = .ok (waiting "show") ∧
      ∃ id, (FlatGraph.ofGraph (waiting "sum")).toGraph = .error (.duplicateId id) := by
  have hslots (stray : String) : (waiting stray).DistinctSlots := by
    simp [waiting, DistinctSlots, Block.DistinctSlots, DistinctInputs, DistinctNext, Keyed.keys]
  refine ⟨(toGraph_ofGraph _ (hslots _)).1 (by decide), ?_⟩
  obtain ⟨-, id, -, -, -, -, h⟩ := (toGraph_ofGraph _ (hslots "sum")).2 (by decide)
  exact ⟨id, h⟩

end Graph

end Tabletop
