import Tabletop.Graph.Stored
import Tabletop.Proofs.Json.Fields

/-! Which graph an object is read as. It is the flat form where all that stands under `nodes` reads
as records. Where it does not, the nested form is tried, which passes `nodes` over, and which is
without blocks where the object has no `blocks`. -/

namespace Tabletop

variable {members : List (String × Document)}

/-- The records of a flat graph are those that an object has in the list under `nodes`, each of
which can be read. -/
def FlatGraph.WrittenIn (members : List (String × Document)) (f : FlatGraph) : Prop :=
  ∃ items, Decode.only "nodes" members = some (.array items) ∧
    List.Forall₂ (fun d n => FlatNode.decode d = some n) items f.nodes

/-- The blocks of a graph are those that an object has in the list under `blocks`, each of which can
be read, or there are none and the object has no such member. -/
def Graph.WrittenIn (members : List (String × Document)) (g : Graph) : Prop :=
  "blocks" ∉ Keyed.keys members ∧ g.blocks = [] ∨
    ∃ items, Decode.only "blocks" members = some (.array items) ∧
      List.Forall₂ (fun d b => Block.decode d = some b) items g.blocks

theorem FlatGraph.decode_eq_some {f : FlatGraph} :
    FlatGraph.decode (.object members) = some f ↔ f.WrittenIn members := by
  have hdecode : FlatGraph.decode (.object members) =
      ((Decode.only "nodes" members).bind (Decode.list FlatNode.decode)).map FlatGraph.mk := by
    rw [← Decode.need_one, Option.map_bind]
    simp only [Function.comp_def, Option.map_eq_bind]
    rfl
  rw [hdecode, Option.map_eq_some_iff]
  constructor
  · rintro ⟨nodes, h, rfl⟩
    obtain ⟨d, hd, hlist⟩ := Option.bind_eq_some_iff.mp h
    obtain ⟨items, rfl, hitems⟩ := Decode.list_eq_some.mp hlist
    exact ⟨items, hd, hitems⟩
  · rintro ⟨items, hd, hitems⟩
    have hlist := Decode.list_eq_some.mpr ⟨items, rfl, hitems⟩
    exact ⟨f.nodes, Option.bind_eq_some_iff.mpr ⟨_, hd, hlist⟩, rfl⟩

theorem Graph.decode_eq_some {g : Graph} :
    Graph.decode (.object members) = some g ↔ g.WrittenIn members := by
  have hdecode : Graph.decode (.object members) =
      (if "blocks" ∈ Keyed.keys members then
        (Decode.only "blocks" members).bind (Decode.list Block.decode)
      else some []).map Graph.mk := by
    rw [← Decode.get_one, Option.map_bind]
    simp only [Function.comp_def, Option.map_eq_bind]
    rfl
  rw [hdecode, Option.map_eq_some_iff]
  constructor
  · rintro ⟨blocks, h, rfl⟩
    split at h
    · obtain ⟨d, hd, hlist⟩ := Option.bind_eq_some_iff.mp h
      obtain ⟨items, rfl, hitems⟩ := Decode.list_eq_some.mp hlist
      exact .inr ⟨items, hd, hitems⟩
    · next hk =>
      cases h
      exact .inl ⟨hk, rfl⟩
  · rintro (⟨hk, hnone⟩ | ⟨items, hd, hitems⟩)
    · exact ⟨[], if_neg hk, hnone ▸ rfl⟩
    · refine ⟨g.blocks, ?_, rfl⟩
      rw [if_pos (Keyed.mem_keys.mpr ⟨_, Decode.mem_of_only hd⟩), hd, Option.bind_some]
      exact Decode.list_eq_some.mpr ⟨items, rfl, hitems⟩

namespace StoredGraph

theorem decode_object (members : List (String × Document)) : decode (.object members) =
    ((FlatGraph.decode (.object members)).map flat <|>
      (Graph.decode (.object members)).map nested) := by
  simp only [Option.map_eq_bind]
  rfl

theorem decode_eq_flat {f : FlatGraph} :
    decode (.object members) = some (.flat f) ↔ f.WrittenIn members := by
  rw [decode_object, ← FlatGraph.decode_eq_some]
  cases FlatGraph.decode (.object members) with
  | some f' => simp
  | none => cases Graph.decode (.object members) <;> simp

theorem decode_eq_nested {g : Graph} : decode (.object members) = some (.nested g) ↔
    (∀ f : FlatGraph, ¬f.WrittenIn members) ∧ g.WrittenIn members := by
  simp only [← FlatGraph.decode_eq_some]
  rw [decode_object, ← Graph.decode_eq_some]
  cases FlatGraph.decode (.object members) with
  | some f' => simp
  | none => cases Graph.decode (.object members) <;> simp

end StoredGraph

namespace BehaviorRecord

/-- A stored value holds a version that can be read, and beside it this as its graph. -/
def Encloses (raw : Json) (version : Nat) (d : Document) : Prop :=
  ∃ f, Decode.fields shape.declared (.ofJson raw) = some f ∧
    f.need "lastModified" Decode.count = some version ∧ f.found.lookup "graph" = some d

theorem decode_of_encloses {raw : Json} {version : Nat} {d : Document}
    (h : Encloses raw version d) :
    decode (.ofJson raw) = (StoredGraph.decode d).map (BehaviorRecord.mk version) := by
  obtain ⟨f, hfields, hversion, hgraph⟩ := h
  have hneed : f.need "graph" StoredGraph.decode = StoredGraph.decode d := by
    rw [Decode.Fields.need, hgraph]
    rfl
  simp only [decode, hfields, Option.bind_eq_bind, Option.bind_some, hversion, hneed,
    Option.map_eq_bind]
  rfl

theorem mem_ofMembers {k : String} {j : Json} {rest : List (String × Json)} (h : (k, j) ∈ rest) :
    (k, Document.ofJson j) ∈ Document.ofMembers rest := by
  induction rest with
  | nil => nomatch h
  | cons m rest ih =>
    rcases List.mem_cons.mp h with rfl | h
    · exact List.mem_cons_self ..
    · exact List.mem_cons_of_mem _ (ih h)

/-- A record that reads has the version by which it is stamped. -/
theorem version_of_stamp {raw : Json} {n : Nat} (hstamp : RecordStamp.ofJson raw = .version n)
    {r : BehaviorRecord} (h : decode (.ofJson raw) = some r) : r.version = n := by
  simp only [RecordStamp.ofJson] at hstamp
  split at hstamp
  · next n' hmember =>
    cases hstamp
    cases raw with
    | object rest =>
      have hmem := mem_ofMembers (Keyed.mem_of_lookup hmember)
      simp only [decode, Document.ofJson, Option.bind_eq_bind, Option.bind_eq_some_iff,
        Option.pure_def, Option.some.injEq] at h
      obtain ⟨f, hf, version, hversion, g, -, rfl⟩ := h
      obtain ⟨found, hfound, rfl⟩ := Option.map_eq_some_iff.mp hf
      obtain ⟨hfilter, hkeys⟩ := Decode.declaredMembers_eq_some.mp hfound
      have hlookup : found.lookup "lastModified" = some (.number (.integer n)) :=
        (Keyed.lookup_eq_some hkeys).mpr (hfilter ▸ List.mem_filter.mpr
          ⟨hmem, show shape.declared.contains "lastModified" = true by decide⟩)
      rw [Decode.Fields.need, hlookup] at hversion
      exact (Option.some.inj hversion).symm
    | _ => cases hmember
  · cases hstamp

end BehaviorRecord

end Tabletop
