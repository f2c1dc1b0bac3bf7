import Mathlib.Data.List.Nodup
import Mathlib.Data.List.Perm.Subperm
import Tabletop.Proofs.Graph.Links

/-! A block against the records that it is made of. Walking down from a top-level record, every
record is met at one depth only, so the walk ends within as many levels as there are records; what
it builds is the one block that spans what hangs from the record. -/

namespace Tabletop

/-- The id of the block that a record hangs from. -/
def FlatNode.parent? (n : FlatNode) : Option String := n.link.map (·.parent)

/-- The slot that a record is in. -/
def FlatNode.slot? (n : FlatNode) : Option (String × FlatNode) :=
  match n.link with
  | some (.input _ slot) => some (slot, n)
  | _ => none

namespace FlatGraph

/-- The records that hang from a block, in their order. -/
def children (nodes : List FlatNode) (id : String) : List FlatNode :=
  nodes.filter (·.parent? == some id)

/-- A record hangs so many links below one without a link. -/
inductive Hangs (nodes : List FlatNode) : Nat → FlatNode → Prop where
  | top {n : FlatNode} : n ∈ nodes → n.link = none → Hangs nodes 0 n
  | under {depth : Nat} {m n : FlatNode} : Hangs nodes depth m → n ∈ nodes →
    n.parent? = some m.id → Hangs nodes (depth + 1) n

end FlatGraph

namespace Block

open FlatGraph

mutual

/-- A block is that of a record, its slots and its successor are those that hang from it, and so on
all the way down. -/
def Spans (nodes : List FlatNode) : FlatNode → Block → Prop
  | n, ⟨id, kind, fields, inputs, next⟩ => n.id = id ∧ n.kind = kind ∧ n.fields = fields ∧
    SpansInputs nodes (slotsOf nodes n.id) inputs ∧ SpansNext nodes (successor? nodes n.id) next

def SpansInputs (nodes : List FlatNode) :
    List (String × FlatNode) → List (String × Block) → Prop
  | [], [] => True
  | s :: slots, (slot, b) :: rest => s.1 = slot ∧ Spans nodes s.2 b ∧ SpansInputs nodes slots rest
  | _, _ => False

def SpansNext (nodes : List FlatNode) : Option FlatNode → Option Block → Prop
  | none, none => True
  | some n, some b => Spans nodes n b
  | _, _ => False

end

end Block

namespace FlatGraph

open Block

variable {nodes : List FlatNode} {n : FlatNode} {b : Block}

/-! ### What hangs from a block -/

theorem children_append (l₁ l₂ : List FlatNode) (id : String) :
    children (l₁ ++ l₂) id = children l₁ id ++ children l₂ id := by
  simp [children]

theorem slotsOf_eq (nodes : List FlatNode) (id : String) :
    slotsOf nodes id = (children nodes id).filterMap FlatNode.slot? := by
  rw [slotsOf, children, List.filterMap_filter]
  refine List.filterMap_congr fun n _ => ?_
  rcases n with ⟨i, kind, fields, _ | _ | ⟨parent, slot⟩⟩ <;>
    simp [FlatNode.parent?, FlatNode.slot?, ParentLink.parent]

theorem successor?_eq (nodes : List FlatNode) (id : String) :
    successor? nodes id = (children nodes id).find? (·.link == some (.next id)) := by
  rw [successor?, children, List.find?_filter]
  congr 1
  funext n
  rw [Bool.eq_iff_iff]
  rcases n with ⟨i, kind, fields, _ | _ | _⟩ <;> simp [FlatNode.parent?, ParentLink.parent]

theorem mem_slotsOf {id slot : String} :
    (slot, n) ∈ slotsOf nodes id ↔ n ∈ nodes ∧ n.link = some (.input id slot) := by
  simp only [slotsOf, List.mem_filterMap]
  constructor
  · rintro ⟨m, hm, h⟩
    split at h
    · next parent s hlink =>
      split at h <;> cases h
      next hid => exact ⟨hm, hid ▸ hlink⟩
    · cases h
  · rintro ⟨hn, hlink⟩
    exact ⟨n, hn, by simp [hlink]⟩

theorem mem_of_successor? {id : String} (h : successor? nodes id = some n) :
    n ∈ nodes ∧ n.link = some (.next id) :=
  ⟨List.mem_of_find?_eq_some h, by simpa using List.find?_some h⟩

theorem Linked.successor? {ids : List String} (hl : Linked ids nodes) {id : String} (hn : n ∈ nodes)
    (hlink : n.link = some (.next id)) : successor? nodes id = some n := by
  cases h : FlatGraph.successor? nodes id with
  | none => exact absurd hlink (by simpa using List.find?_eq_none.mp h n hn)
  | some m =>
    obtain ⟨hm, hmlink⟩ := mem_of_successor? h
    rw [hl.eq_of_link hm hn hmlink hlink]

/-! ### Depths -/

theorem Hangs.mem {depth : Nat} (h : Hangs nodes depth n) : n ∈ nodes := by
  cases h <;> assumption

theorem Hangs.slot {depth : Nat} (h : Hangs nodes depth n) {slot : String} {m : FlatNode}
    (hm : (slot, m) ∈ slotsOf nodes n.id) : Hangs nodes (depth + 1) m := by
  obtain ⟨hm, hlink⟩ := mem_slotsOf.mp hm
  exact .under h hm (by simp [FlatNode.parent?, hlink, ParentLink.parent])

theorem Hangs.successor {depth : Nat} (h : Hangs nodes depth n) {m : FlatNode}
    (hm : successor? nodes n.id = some m) : Hangs nodes (depth + 1) m := by
  obtain ⟨hm, hlink⟩ := mem_of_successor? hm
  exact .under h hm (by simp [FlatNode.parent?, hlink, ParentLink.parent])

/-- There is a record at every depth above one. -/
theorem Hangs.above {depth : Nat} (h : Hangs nodes depth n) :
    ∀ d ≤ depth, ∃ m, Hangs nodes d m := by
  induction h with
  | top hn hlink =>
    intro d hd
    obtain rfl := Nat.le_zero.mp hd
    exact ⟨_, .top hn hlink⟩
  | under hm hn hp ih =>
    intro d hd
    rcases Nat.lt_or_eq_of_le hd with hd | rfl
    · exact ih d (by omega)
    · exact ⟨_, .under hm hn hp⟩

section

variable (hids : (nodes.map (·.id)).Nodup)

include hids

theorem eq_of_id {m : FlatNode} (hm : m ∈ nodes) (hn : n ∈ nodes) (h : m.id = n.id) : m = n :=
  List.inj_on_of_nodup_map hids hm hn h

theorem Hangs.depth_unique {d depth : Nat} (h : Hangs nodes depth n) (h' : Hangs nodes d n) :
    d = depth := by
  induction h generalizing d with
  | top hn hlink =>
    cases h' with
    | top => rfl
    | under _ _ hp => simp [FlatNode.parent?, hlink] at hp
  | under hm hn hp ih =>
    cases h' with
    | top _ hlink => simp [FlatNode.parent?, hlink] at hp
    | under hm' _ hp' =>
      obtain rfl := eq_of_id hids hm'.mem hm.mem (Option.some.inj (hp'.symm.trans hp))
      rw [ih hm']

/-- No record hangs deeper than there are records: those above it are as many as its depth. -/
theorem Hangs.lt {depth : Nat} (h : Hangs nodes depth n) : depth < nodes.length := by
  have hex (d : Nat) : ∃ m, d ≤ depth → Hangs nodes d m := by
    by_cases hd : d ≤ depth
    · obtain ⟨m, hm⟩ := h.above d hd
      exact ⟨m, fun _ => hm⟩
    · exact ⟨n, fun hd' => absurd hd' hd⟩
  choose at_ hat using hex
  have hmem (d : Nat) (hd : d ∈ List.range (depth + 1)) : Hangs nodes d (at_ d) :=
    hat d (by have := List.mem_range.mp hd; omega)
  have hnodup : ((List.range (depth + 1)).map at_).Nodup := by
    refine List.Nodup.map_on (fun d hd d' hd' heq => ?_) List.nodup_range
    exact (hmem d' hd').depth_unique hids (heq ▸ hmem d hd)
  have hsub : (List.range (depth + 1)).map at_ ⊆ nodes := by
    intro m hm
    obtain ⟨d, hd, rfl⟩ := List.mem_map.mp hm
    exact (hmem d hd).mem
  have := (hnodup.subperm hsub).length_le
  rw [List.length_map, List.length_range] at this
  omega

end

/-! ### Building -/

theorem spansInputs_map {build : FlatNode → Block} {slots : List (String × FlatNode)}
    (h : ∀ s ∈ slots, Spans nodes s.2 (build s.2)) :
    SpansInputs nodes slots (slots.map fun s => (s.1, build s.2)) := by
  induction slots with
  | nil => simp [SpansInputs]
  | cons s rest ih =>
    exact ⟨rfl, h s (by simp), ih fun s hs => h s (by simp [hs])⟩

/-- Within the levels that are left below a record, all that hangs from it is built. -/
theorem spans_build (hids : (nodes.map (·.id)).Nodup) (depth : Nat) {d : Nat}
    (hn : Hangs nodes d n) (hd : nodes.length ≤ d + depth) :
    Spans nodes n (build nodes depth n) := by
  induction depth generalizing d n with
  | zero =>
    have := hn.lt hids
    omega
  | succ depth ih =>
    refine ⟨rfl, rfl, rfl, spansInputs_map fun s hs => ?_, ?_⟩
    · exact ih (hn.slot hs) (by omega)
    · cases h : successor? nodes n.id with
      | none => trivial
      | some m => exact ih (hn.successor h) (by omega)

end FlatGraph

namespace Block

open FlatGraph

variable {nodes : List FlatNode}

mutual

theorem Spans.unique {n : FlatNode} :
    {b b' : Block} → Spans nodes n b → Spans nodes n b' → b = b'
  | ⟨_, _, _, _, _⟩, ⟨_, _, _, _, _⟩, ⟨hi, hk, hf, hin, hnext⟩, ⟨hi', hk', hf', hin', hnext'⟩ => by
    subst hi hk hf hi' hk' hf'
    rw [hin.unique hin', hnext.unique hnext']

theorem SpansInputs.unique {slots : List (String × FlatNode)} :
    {inputs inputs' : List (String × Block)} → SpansInputs nodes slots inputs →
      SpansInputs nodes slots inputs' → inputs = inputs'
  | [], [], _, _ => rfl
  | (slot, b) :: rest, (slot', b') :: rest', h, h' => by
    cases slots with
    | nil => exact h.elim
    | cons s slots =>
      obtain ⟨hs, hb, hrest⟩ := h
      obtain ⟨hs', hb', hrest'⟩ := h'
      rw [← hs, ← hs', hb.unique hb', hrest.unique hrest']
  | [], _ :: _, h, h' => by cases slots <;> first | exact h.elim | exact h'.elim
  | _ :: _, [], h, h' => by cases slots <;> first | exact h.elim | exact h'.elim

theorem SpansNext.unique {next : Option FlatNode} :
    {b b' : Option Block} → SpansNext nodes next b → SpansNext nodes next b' → b = b'
  | none, none, _, _ => rfl
  | some b, some b', h, h' => by
    cases next with
    | none => exact h.elim
    | some n =>
      have hb : Spans nodes n b := h
      rw [hb.unique h']
  | none, some _, h, h' => by cases next <;> first | exact h.elim | exact h'.elim
  | some _, none, h, h' => by cases next <;> first | exact h.elim | exact h'.elim

end

end Block

end Tabletop
