import Tabletop.Proofs.Graph.Record
import Tabletop.Proofs.Graph.Text

/-! The hash of a graph against the forms that the graph is kept in. The flat form keeps every order
and so the hash. A stored record does not keep the order of the fields in a block, and the hash
covers that order: it is the same where every block has its fields in the order of their keys, and
nowhere else is the same text hashed. -/

namespace Tabletop

/-- In every block the fields stand in the order of their keys. -/
def Graph.InOrder (g : Graph) : Prop :=
  ∀ n ∈ (FlatGraph.ofGraph g).nodes, Json.Sorted n.fields

theorem FlatNode.sorted_eq_self {n : FlatNode} : n.sorted = n ↔ Json.Sorted n.fields := by
  constructor
  · intro h
    have hfields : Json.sortMembers n.fields = n.fields := congrArg FlatNode.fields h
    exact hfields ▸ Json.sorted_sortMembers n.fields
  · intro h
    rw [FlatNode.sorted, Json.sortMembers_of_sorted h]

namespace Graph

variable {g : Graph}

theorem sorted_eq_self (hids : g.ids.Nodup) (hslots : g.DistinctSlots) :
    g.sorted = g ↔ g.InOrder := by
  constructor
  · intro h n hn
    have hflat := congrArg FlatGraph.nodes (ofGraph_sorted g)
    rw [h] at hflat
    have hnodes := hflat.symm.trans (List.map_id _).symm
    exact FlatNode.sorted_eq_self.mp (List.map_inj_left.mp hnodes n hn)
  · intro h
    -- the two have one flat form, and each comes back from it
    have hflat : FlatGraph.ofGraph g.sorted = FlatGraph.ofGraph g := by
      rw [ofGraph_sorted, List.map_congr_left fun n hn => FlatNode.sorted_eq_self.mpr (h n hn),
        List.map_id']
    have hback := toGraph_of_nodup (g.ids_sorted.symm ▸ hids) (distinctSlots_sorted hslots)
    rw [hflat, toGraph_of_nodup hids hslots] at hback
    exact (Except.ok.inj hback).symm

/-- The hash of a graph is that of the graph from its flat form, for any set of shared variables. From
the record that an object stores of it, of whatever version, a graph comes back with the same hash if
all fields are in order; if they are not, what is hashed of the two differs. -/
theorem hash_of_forms (hasher : Hasher) (globals : List String) (o : SceneObject) (key : String)
    (version : Nat) (hids : g.ids.Nodup) (hslots : g.DistinctSlots)
    (hfields : ∀ n ∈ (FlatGraph.ofGraph g).nodes, Tidy n.fields) :
    (∃ inflated, (FlatGraph.ofGraph g).toGraph = .ok inflated ∧
      hasher (inflated.hashed globals) = hasher (g.hashed globals)) ∧
    ∃ raw record inflated,
      (o.withMetadata key (BehaviorRecord.ofGraph version g).toJson).stored? key = some raw ∧
      BehaviorRecord.ofJson raw = .ok record ∧ record.graph.toGraph = .ok inflated ∧
      (g.InOrder → hasher (inflated.hashed globals) = hasher (g.hashed globals)) ∧
      (¬g.InOrder → inflated.hashed globals ≠ g.hashed globals) := by
  refine ⟨⟨g, toGraph_of_nodup hids hslots, rfl⟩, _, _, g.sorted,
    Json.lookup_insertMember_self _ _ _, BehaviorRecord.ofJson_toJson version hfields,
    toGraph_of_nodup (g.ids_sorted.symm ▸ hids) (distinctSlots_sorted hslots), ?_, ?_⟩
  · intro horder
    rw [(sorted_eq_self hids hslots).mpr horder]
  · intro horder heq
    exact horder ((sorted_eq_self hids hslots).mp (hashed_inj heq).1)

/-- A hat that listens to a property, with its fields in either order. -/
def listening (fields : List (String × Json)) : Graph :=
  ⟨[⟨"hat", "event_whenpropertybecomes", fields, [], none⟩]⟩

def becomesVisible : List (String × Json) :=
  [("PROPERTY", .string "visible"), ("VALUE", .string "true")]

theorem ids_listening (fields : List (String × Json)) : (listening fields).ids.Nodup :=
  List.nodup_singleton _

theorem distinctSlots_listening (fields : List (String × Json)) :
    (listening fields).DistinctSlots :=
  List.forall_mem_singleton.mpr ⟨List.nodup_nil, trivial, trivial⟩

theorem tidy_listening {fields : List (String × Json)} (h : Tidy fields) :
    ∀ n ∈ (FlatGraph.ofGraph (listening fields)).nodes, Tidy n.fields :=
  List.forall_mem_singleton.mpr h

theorem tidy_becomesVisible : Tidy becomesVisible ∧ Tidy becomesVisible.reverse :=
  ⟨⟨by decide, by simp [becomesVisible, Json.Canonical]⟩,
    ⟨by decide, by simp [becomesVisible, Json.Canonical]⟩⟩

theorem hash_of_forms_listening :
    (∃ raw record inflated,
      (SceneObject.withMetadata { id := "cup" } "behavior"
        (BehaviorRecord.ofGraph 7 (listening becomesVisible)).toJson).stored? "behavior" =
          some raw ∧
      BehaviorRecord.ofJson raw = .ok record ∧ record.graph.toGraph = .ok inflated ∧
      Digest.sha256 (inflated.hashed ["score"]) =
        Digest.sha256 ((listening becomesVisible).hashed ["score"])) ∧
    ∃ inflated, (FlatGraph.ofGraph (listening becomesVisible.reverse)).toGraph = .ok inflated ∧
      Digest.sha256 (inflated.hashed ["score"]) =
        Digest.sha256 ((listening becomesVisible.reverse).hashed ["score"]) := by
  have hforms (fields : List (String × Json)) (h : Tidy fields) :=
    hash_of_forms Digest.sha256 ["score"] { id := "cup" } "behavior" 7 (ids_listening fields)
      (distinctSlots_listening fields) (tidy_listening h)
  obtain ⟨-, raw, record, inflated, hraw, hrecord, hinflated, hhash, -⟩ :=
    hforms _ tidy_becomesVisible.1
  have horder : (listening becomesVisible).InOrder := List.forall_mem_singleton.mpr
    (by decide : becomesVisible.Pairwise (·.1 < ·.1))
  exact ⟨⟨raw, record, inflated, hraw, hrecord, hinflated, hhash horder⟩,
    (hforms _ tidy_becomesVisible.2).1⟩

/-- With its fields the other way round, the same hat is stored so that another hash comes back. -/
theorem rehashed_listening : ¬∀ (globals : List String) (version : Nat) (g : Graph),
    Names.Sorted globals → g.ids.Nodup → g.DistinctSlots →
    (∀ n ∈ (FlatGraph.ofGraph g).nodes, Tidy n.fields) →
    ∀ record inflated, BehaviorRecord.ofJson (BehaviorRecord.ofGraph version g).toJson = .ok record →
      record.graph.toGraph = .ok inflated →
      Digest.sha256 (inflated.hashed globals) = Digest.sha256 (g.hashed globals) := by
  intro h
  have hids := ids_listening becomesVisible.reverse
  have hslots := distinctSlots_listening becomesVisible.reverse
  have hfields := tidy_listening tidy_becomesVisible.2
  have heq := h [] 7 (listening becomesVisible.reverse) .nil hids hslots hfields _ _
    (BehaviorRecord.ofJson_toJson 7 hfields)
    (toGraph_of_nodup ((ids_sorted _).symm ▸ hids) (distinctSlots_sorted hslots))
  have hdiffer : Digest.sha256 ((listening becomesVisible.reverse).sorted.hashed []) ≠
      Digest.sha256 ((listening becomesVisible.reverse).hashed []) := by decide +kernel
  exact hdiffer heq

end Graph

end Tabletop
