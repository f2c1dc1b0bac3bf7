import Tabletop.Proofs.Graph.Codec
import Tabletop.Proofs.Graph.Flatten
import Tabletop.Scene.Object

/-! What a graph comes back as from the record that is stored of it. The record holds the flat form,
and its value has the members of every object in the order of their keys; so the fields of a block
come back in that order, and everything else as it was. -/

namespace Tabletop

open Json (sortMembers)

/-! ### Fields in the order of their keys -/

namespace Block

mutual

/-- A block with its fields in the order of their keys, and so in its slots and behind it. -/
def sorted : Block → Block
  | ⟨id, kind, fields, inputs, next⟩ =>
    ⟨id, kind, sortMembers fields, sortedInputs inputs, sortedNext next⟩

def sortedInputs : List (String × Block) → List (String × Block)
  | [] => []
  | (slot, b) :: rest => (slot, b.sorted) :: sortedInputs rest

def sortedNext : Option Block → Option Block
  | none => none
  | some b => some b.sorted

end

end Block

/-- A record with its fields in the order of their keys. -/
def FlatNode.sorted (n : FlatNode) : FlatNode := { n with fields := sortMembers n.fields }

/-- A graph with the fields of each block in the order of their keys. -/
def Graph.sorted (g : Graph) : Graph := ⟨g.blocks.map Block.sorted⟩

namespace Block

mutual

theorem flatten_sorted : (b : Block) → (link : Option ParentLink) →
    b.sorted.flatten link = (b.flatten link).map FlatNode.sorted
  | ⟨id, kind, fields, inputs, next⟩, link => by
    simp only [sorted, flatten, List.map_cons, List.map_append, flattenInputs_sorted inputs id,
      flattenNext_sorted next id, FlatNode.sorted]

theorem flattenInputs_sorted : (inputs : List (String × Block)) → (parent : String) →
    flattenInputs parent (sortedInputs inputs) =
      (flattenInputs parent inputs).map FlatNode.sorted
  | [], _ => rfl
  | (slot, b) :: rest, parent => by
    simp only [sortedInputs, flattenInputs, List.map_append, flatten_sorted b,
      flattenInputs_sorted rest parent]

theorem flattenNext_sorted : (next : Option Block) → (parent : String) →
    flattenNext parent (sortedNext next) = (flattenNext parent next).map FlatNode.sorted
  | none, _ => rfl
  | some b, _ => flatten_sorted b _

end

theorem keys_sortedInputs (inputs : List (String × Block)) :
    Keyed.keys (sortedInputs inputs) = Keyed.keys inputs := by
  induction inputs with
  | nil => rfl
  | cons e rest ih => exact congrArg (e.1 :: ·) ih

mutual

theorem distinctSlots_sorted : {b : Block} → b.DistinctSlots → b.sorted.DistinctSlots
  | ⟨_, _, _, inputs, _⟩, ⟨hkeys, hinputs, hnext⟩ =>
    ⟨keys_sortedInputs inputs ▸ hkeys, distinctInputs_sorted hinputs, distinctNext_sorted hnext⟩

theorem distinctInputs_sorted : {inputs : List (String × Block)} → DistinctInputs inputs →
    DistinctInputs (sortedInputs inputs)
  | [], _ => trivial
  | (_, _) :: _, ⟨hb, hrest⟩ => ⟨distinctSlots_sorted hb, distinctInputs_sorted hrest⟩

theorem distinctNext_sorted : {next : Option Block} → DistinctNext next →
    DistinctNext (sortedNext next)
  | none, _ => trivial
  | some b, hb => distinctSlots_sorted (b := b) hb

end

end Block

namespace Graph

theorem ofGraph_sorted (g : Graph) : FlatGraph.ofGraph g.sorted =
    ⟨(FlatGraph.ofGraph g).nodes.map FlatNode.sorted⟩ := by
  simp only [FlatGraph.ofGraph, sorted, List.flatMap_map, List.map_flatMap, Block.flatten_sorted]

theorem ids_sorted (g : Graph) : g.sorted.ids = g.ids := by
  rw [← known_ofGraph, ← known_ofGraph, ofGraph_sorted, FlatGraph.known, List.map_map]
  rfl

theorem distinctSlots_sorted {g : Graph} (h : g.DistinctSlots) : g.sorted.DistinctSlots := by
  rw [DistinctSlots, sorted, List.forall_mem_map]
  exact fun b hb => Block.distinctSlots_sorted (h b hb)

end Graph

/-! ### What is stored -/

namespace FlatGraph

variable {f : FlatGraph}

theorem stored_encode (f : FlatGraph) : f.encode.stored =
    .object [("nodes", .array (f.nodes.map fun n => n.encode.stored))] := by
  have harray := Document.stored_array (f.nodes.map FlatNode.encode)
  rw [List.map_map] at harray
  rw [encode, Document.stored_object]
  exact congrArg (fun d => Document.object [("nodes", d)]) harray

/-- The flat form is told from the nested one, also through its value. -/
theorem decode_stored (h : ∀ n ∈ f.nodes, Tidy n.fields) :
    StoredGraph.decode f.encode.stored = some (.flat ⟨f.nodes.map FlatNode.sorted⟩) := by
  rw [stored_encode, StoredGraph.decode_eq_flat]
  refine ⟨_, rfl, ?_⟩
  rw [List.forall₂_map_left_iff, List.forall₂_map_right_iff, List.forall₂_same]
  exact fun n hn => FlatNode.decode_stored (h n hn)

end FlatGraph

namespace BehaviorRecord

theorem encloses_toJson (r : BehaviorRecord) :
    Encloses r.toJson r.version r.graph.encode.stored := by
  set members := [("lastModified", Document.ofNat r.version), ("graph", r.graph.encode)]
  have hkeys : Keyed.keys members = shape.declared := rfl
  have hnodup : (Keyed.keys members).Nodup := hkeys ▸ by decide
  have hdeclared : ∀ k ∈ Keyed.keys members, k ∈ shape.declared := fun k hk => hkeys ▸ hk
  obtain ⟨f, hf, hfound⟩ := Document.fields_stored hnodup hdeclared
  exact ⟨f, hf, Decode.Fields.need_eq (hfound "lastModified") rfl, hfound "graph"⟩

/-- The record in the value that stores one has the fields of each block in order. -/
theorem ofJson_toJson (version : Nat) {g : Graph}
    (hfields : ∀ n ∈ (FlatGraph.ofGraph g).nodes, Tidy n.fields) :
    ofJson (ofGraph version g).toJson = .ok ⟨version, .flat (.ofGraph g.sorted)⟩ := by
  have hdecode := decode_of_encloses (encloses_toJson (ofGraph version g))
  have hgraph : StoredGraph.decode (ofGraph version g).graph.encode.stored =
      some (.flat (.ofGraph g.sorted)) := by
    rw [Graph.ofGraph_sorted]
    exact FlatGraph.decode_stored hfields
  rw [ofJson, hdecode, hgraph]
  rfl

/-- A record that is stored in the metadata of an object is read with its version and in the flat
form, and stands for the graph that it was made of, but for the order of the fields in a block. -/
theorem ofJson_withMetadata (o : SceneObject) (key : String) (version : Nat) {g : Graph}
    (hids : g.ids.Nodup) (hslots : g.DistinctSlots)
    (hfields : ∀ n ∈ (FlatGraph.ofGraph g).nodes, Tidy n.fields) :
    ((o.withMetadata key (ofGraph version g).toJson).stored? key).map ofJson =
        some (.ok ⟨version, .flat (.ofGraph g.sorted)⟩) ∧
      (FlatGraph.ofGraph g.sorted).toGraph = .ok g.sorted ∧
      ∀ n ∈ (FlatGraph.ofGraph g).nodes, (sortMembers n.fields).Perm n.fields := by
  refine ⟨?_, ?_, fun n hn => Json.perm_sortMembers (hfields n hn).keys⟩
  · rw [SceneObject.stored?, SceneObject.withMetadata, Json.lookup_insertMember_self,
      Option.map_some, ofJson_toJson version hfields]
  · exact Graph.toGraph_of_nodup (g.ids_sorted.symm ▸ hids) (Graph.distinctSlots_sorted hslots)

/-- A block whose fields do not stand in the order of their keys. -/
def greeting : Graph :=
  ⟨[⟨"say", "looks_settext", [("TEXT", .string "hi"), ("SIZE", .number (.double 1.5))], [], none⟩]⟩

/-- The greeting with its fields in order, and the graph without blocks. -/
theorem ofJson_withMetadata_greeting :
    let cup : SceneObject := { id := "cup" }
    let said : FlatNode := ⟨"say", "looks_settext",
      [("SIZE", .number (.double 1.5)), ("TEXT", .string "hi")], none⟩
    ((cup.withMetadata "behavior" (ofGraph 42 greeting).toJson).stored? "behavior").map ofJson =
        some (.ok ⟨42, .flat ⟨[said]⟩⟩) ∧
      ((cup.withMetadata "behavior" (ofGraph 7 ⟨[]⟩).toJson).stored? "behavior").map ofJson =
        some (.ok ⟨7, .flat ⟨[]⟩⟩) ∧
      (FlatGraph.mk []).toGraph = .ok ⟨[]⟩ := by
  have htidy : ∀ n ∈ (FlatGraph.ofGraph greeting).nodes, Tidy n.fields :=
    List.forall_mem_singleton.mpr ⟨by decide, by simp [Json.Canonical]⟩
  have hslots : greeting.DistinctSlots :=
    List.forall_mem_singleton.mpr ⟨List.nodup_nil, trivial, trivial⟩
  have hempty := ofJson_withMetadata { id := "cup" } "behavior" 7 (g := ⟨[]⟩) List.nodup_nil nofun
    nofun
  exact ⟨(ofJson_withMetadata _ _ 42 (by decide) hslots htidy).1, hempty.1, hempty.2.1⟩

end BehaviorRecord

end Tabletop
