import Tabletop.Proofs.Graph.Flatten

/-! Flat graphs whose records come in any order, against the flat form of what they are inflated to.
Inflating puts the records in preorder: none is lost, none comes twice, and each comes after the one
that it hangs from. -/

namespace Tabletop

namespace FlatGraph

variable {nodes : List FlatNode} {known known' : List String} {n : FlatNode}

/-! ### Parents first -/

/-- Each record hangs from a block that is known, from one before it, or from none. -/
def ParentsFirst (known : List String) : List FlatNode → Prop
  | [] => True
  | n :: rest => (∀ id, n.parent? = some id → id ∈ known) ∧ ParentsFirst (n.id :: known) rest

theorem ParentsFirst.mono (h : ParentsFirst known nodes) (hk : known ⊆ known') :
    ParentsFirst known' nodes := by
  induction nodes generalizing known known' with
  | nil => trivial
  | cons n rest ih => exact ⟨fun id hid => hk (h.1 id hid), ih h.2 (List.cons_subset_cons _ hk)⟩

theorem ParentsFirst.append {later : List FlatNode} (h : ParentsFirst known nodes)
    (h' : ParentsFirst known later) : ParentsFirst known (nodes ++ later) := by
  induction nodes generalizing known with
  | nil => exact h'
  | cons n rest ih => exact ⟨h.1, ih h.2 (h'.mono (List.subset_cons_self ..))⟩

theorem ParentsFirst.mem {earlier later : List FlatNode}
    (h : ParentsFirst known (earlier ++ n :: later)) {id : String} (hid : n.parent? = some id) :
    id ∈ known ∨ id ∈ earlier.map (·.id) := by
  induction earlier generalizing known with
  | nil => exact .inl (h.1 id hid)
  | cons m rest ih =>
    rcases ih h.2 with hk | hr
    · rcases List.mem_cons.mp hk with rfl | hk
      · exact .inr (List.mem_cons_self ..)
      · exact .inl hk
    · exact .inr (List.mem_cons_of_mem _ hr)

end FlatGraph

namespace Block

open FlatGraph

mutual

/-- A block is flattened from the top down. -/
theorem parentsFirst_flatten {known : List String} : (b : Block) → (link : Option ParentLink) →
    (∀ id, link.map (·.parent) = some id → id ∈ known) → ParentsFirst known (b.flatten link)
  | ⟨_, _, _, inputs, next⟩, _, h =>
    ⟨h, (parentsFirst_flattenInputs inputs (List.mem_cons_self ..)).append
      (parentsFirst_flattenNext next (List.mem_cons_self ..))⟩

theorem parentsFirst_flattenInputs {known : List String} {parent : String} :
    (inputs : List (String × Block)) → parent ∈ known →
    ParentsFirst known (flattenInputs parent inputs)
  | [], _ => trivial
  | (_, b) :: rest, h =>
    (parentsFirst_flatten b _ fun _ hid => Option.some.inj hid ▸ h).append
      (parentsFirst_flattenInputs rest h)

theorem parentsFirst_flattenNext {known : List String} {parent : String} :
    (next : Option Block) → parent ∈ known → ParentsFirst known (flattenNext parent next)
  | none, _ => trivial
  | some b, h => parentsFirst_flatten b _ fun _ hid => Option.some.inj hid ▸ h

end

end Block

theorem Graph.parentsFirst (g : Graph) : FlatGraph.ParentsFirst [] (FlatGraph.ofGraph g).nodes := by
  simp only [FlatGraph.ofGraph]
  induction g.blocks with
  | nil => trivial
  | cons b rest ih =>
    exact (Block.parentsFirst_flatten b none fun _ hid => by cases hid).append ih

/-! ### Nothing is invented -/

namespace Block

open FlatGraph

variable {nodes : List FlatNode}

mutual

/-- A block that is spanned is flattened to records among those that it spans. -/
theorem Spans.flatten_subset {n : FlatNode} (hn : n ∈ nodes) :
    {b : Block} → Spans nodes n b → b.flatten n.link ⊆ nodes
  | ⟨_, _, _, _, _⟩, ⟨hid, hkind, hfields, hin, hnext⟩ => by
    subst hid hkind hfields
    refine List.cons_subset.mpr ⟨hn, List.append_subset.mpr ⟨?_, ?_⟩⟩
    · exact hin.flatten_subset fun _ _ hs => mem_slotsOf.mp hs
    · exact hnext.flatten_subset fun _ hm => mem_of_successor? hm

theorem SpansInputs.flatten_subset {parent : String} {slots : List (String × FlatNode)}
    (hs : ∀ slot m, (slot, m) ∈ slots → m ∈ nodes ∧ m.link = some (.input parent slot)) :
    {inputs : List (String × Block)} → SpansInputs nodes slots inputs →
      flattenInputs parent inputs ⊆ nodes
  | [], _ => List.nil_subset _
  | (_, b) :: rest, h => by
    cases slots with
    | nil => exact h.elim
    | cons s slots =>
      obtain ⟨rfl, hb, hrest⟩ := h
      obtain ⟨hm, hlink⟩ := hs s.1 s.2 (List.mem_cons_self ..)
      refine List.append_subset.mpr ⟨?_, ?_⟩
      · exact hlink ▸ hb.flatten_subset hm
      · exact hrest.flatten_subset fun slot m hm => hs slot m (List.mem_cons_of_mem _ hm)

theorem SpansNext.flatten_subset {parent : String} {next : Option FlatNode}
    (hs : ∀ m, next = some m → m ∈ nodes ∧ m.link = some (.next parent)) :
    {b : Option Block} → SpansNext nodes next b → flattenNext parent b ⊆ nodes
  | none, _ => List.nil_subset _
  | some b, h => by
    cases next with
    | none => exact h.elim
    | some m =>
      obtain ⟨hm, hlink⟩ := hs m rfl
      have hb : Spans nodes m b := h
      have hsub := hb.flatten_subset hm
      rwa [hlink] at hsub

end

end Block

namespace FlatGraph

variable {nodes : List FlatNode} {a a' n : FlatNode}

/-! ### Nothing comes twice -/

/-- A record is, or hangs below, another one. -/
inductive Below (nodes : List FlatNode) (a : FlatNode) : FlatNode → Prop where
  | self : Below nodes a a
  | under {m n : FlatNode} : Below nodes a m → n ∈ nodes → n.parent? = some m.id → Below nodes a n

theorem Below.hangs {depth : Nat} (h : Below nodes a n) (ha : Hangs nodes depth a) :
    ∃ more, Hangs nodes (depth + more) n := by
  induction h with
  | self => exact ⟨0, ha⟩
  | under _ hn hp ih =>
    obtain ⟨more, hm⟩ := ih
    exact ⟨more + 1, .under hm hn hp⟩

/-- Above a record there is one record at each depth. -/
theorem Below.eq_of_depth (hids : (nodes.map (·.id)).Nodup) {depth : Nat} (ha : Hangs nodes depth a)
    (ha' : Hangs nodes depth a') (h : Below nodes a n) (h' : Below nodes a' n) : a = a' := by
  -- A record cannot hang below one of its own depth.
  have hself {a a' : FlatNode} (ha : Hangs nodes depth a) (ha' : Hangs nodes depth a')
      (h : Below nodes a' a) : a = a' := by
    cases h with
    | self => rfl
    | under h hn hp =>
      obtain ⟨more, hm⟩ := h.hangs ha'
      have := ha.depth_unique hids (.under hm hn hp)
      omega
  induction h with
  | self => exact hself ha ha' h'
  | under h hn hp ih =>
    cases h' with
    | self => exact (hself ha' ha (.under h hn hp)).symm
    | under h' _ hp' =>
      obtain ⟨_, hm⟩ := h.hangs ha
      obtain ⟨_, hm'⟩ := h'.hangs ha'
      have heq := eq_of_id hids hm'.mem hm.mem (Option.some.inj (hp'.symm.trans hp))
      exact ih (heq ▸ h')

end FlatGraph

namespace Block

open FlatGraph

variable {nodes : List FlatNode}

theorem Spans.exists_below {n : FlatNode} {b : Block} (h : Spans nodes n b) {id : String}
    (hid : id ∈ b.ids) : ∃ m, Below nodes n m ∧ m.id = id :=
  h.exists_mem (fun _ hm _ hn hp => .under hm hn hp) .self id hid

/-- Records of one depth span blocks that have no id in common. -/
theorem Spans.disjoint (hids : (nodes.map (·.id)).Nodup) {depth : Nat} {m n : FlatNode}
    (hm : Hangs nodes depth m) (hn : Hangs nodes depth n) (hne : m ≠ n) {b c : Block}
    (hb : Spans nodes m b) (hc : Spans nodes n c) {id : String} (hid : id ∈ b.ids) :
    id ∉ c.ids := by
  intro hid'
  obtain ⟨x, hx, rfl⟩ := hb.exists_below hid
  obtain ⟨y, hy, heq⟩ := hc.exists_below hid'
  obtain ⟨_, hx'⟩ := hx.hangs hm
  obtain ⟨_, hy'⟩ := hy.hangs hn
  obtain rfl := eq_of_id hids hx'.mem hy'.mem heq.symm
  exact hne (hx.eq_of_depth hids hm hn hy)

/-- The id of a record is none of those that hang below it. -/
theorem Spans.notMem_of_below (hids : (nodes.map (·.id)).Nodup) {depth : Nat} {m n : FlatNode}
    (hm : Hangs nodes depth m) (hn : Hangs nodes (depth + 1) n) {b : Block} (hb : Spans nodes n b) :
    m.id ∉ b.ids := by
  intro hid
  obtain ⟨x, hx, heq⟩ := hb.exists_below hid
  obtain ⟨more, hx'⟩ := hx.hangs hn
  obtain rfl := eq_of_id hids hx'.mem hm.mem heq
  have := hx'.depth_unique hids hm
  omega

theorem SpansInputs.exists_spans {slots : List (String × FlatNode)} {id : String} :
    {inputs : List (String × Block)} → SpansInputs nodes slots inputs → id ∈ idsInputs inputs →
      ∃ s ∈ slots, ∃ b : Block, Spans nodes s.2 b ∧ id ∈ b.ids
  | [], _, hid => by cases hid
  | (_, b) :: rest, h, hid => by
    cases slots with
    | nil => exact h.elim
    | cons s slots =>
      obtain ⟨-, hb, hrest⟩ := h
      rcases List.mem_append.mp hid with hid | hid
      · exact ⟨s, List.mem_cons_self .., b, hb, hid⟩
      · obtain ⟨s', hs', hspans⟩ := hrest.exists_spans hid
        exact ⟨s', List.mem_cons_of_mem _ hs', hspans⟩

theorem SpansNext.exists_spans {next : Option FlatNode} {id : String} :
    {b : Option Block} → SpansNext nodes next b → id ∈ idsNext b →
      ∃ m, next = some m ∧ ∃ b : Block, Spans nodes m b ∧ id ∈ b.ids
  | none, _, hid => by cases hid
  | some b, h, hid => by
    cases next with
    | none => exact h.elim
    | some m => exact ⟨m, rfl, b, h, hid⟩

/-- No record is in two slots of a block. -/
theorem nodup_slotsOf (hids : (nodes.map (·.id)).Nodup) (id : String) :
    ((slotsOf nodes id).map (·.2)).Nodup := by
  have hnodes : nodes.Nodup := .of_map _ hids
  refine List.pairwise_map.mpr (List.Pairwise.filterMap _ (fun m n hmn s hs t ht heq => ?_) hnodes)
  have hone {n : FlatNode} {s : String × FlatNode} (h : s ∈ slotsOf [n] id) : s.2 = n :=
    List.mem_singleton.mp (mem_slotsOf.mp h).1
  have hmem {n : FlatNode} : n ∈ [n] := List.mem_singleton_self n
  exact hmn ((hone (List.mem_filterMap.mpr ⟨m, hmem, hs⟩)).symm.trans
    (heq.trans (hone (List.mem_filterMap.mpr ⟨n, hmem, ht⟩))))

mutual

/-- What is spanned has each id once. -/
theorem Spans.nodup_ids (hids : (nodes.map (·.id)).Nodup) {depth : Nat} {n : FlatNode}
    (hn : Hangs nodes depth n) : {b : Block} → Spans nodes n b → b.ids.Nodup
  | ⟨_, _, _, _, _⟩, ⟨hid, _, _, hin, hnext⟩ => by
    subst hid
    have hslot (s : String × FlatNode) (hs : s ∈ slotsOf nodes n.id) :
        Hangs nodes (depth + 1) s.2 := hn.slot hs
    refine List.nodup_cons.mpr ⟨fun h => ?_, List.nodup_append.mpr ⟨hin.nodup_ids hids hslot
      (nodup_slotsOf hids _), hnext.nodup_ids hids fun m hm => hn.successor hm, ?_⟩⟩
    · rcases List.mem_append.mp h with h | h
      · obtain ⟨s, hs, b, hb, hid⟩ := hin.exists_spans h
        exact hb.notMem_of_below hids hn (hslot s hs) hid
      · obtain ⟨m, hm, b, hb, hid⟩ := hnext.exists_spans h
        exact hb.notMem_of_below hids hn (hn.successor hm) hid
    · rintro id hid _ hid' rfl
      obtain ⟨s, hs, b, hb, hid⟩ := hin.exists_spans hid
      obtain ⟨m, hm, c, hc, hid'⟩ := hnext.exists_spans hid'
      refine hb.disjoint hids (hslot s hs) (hn.successor hm) (fun heq => ?_) hc hid hid'
      have hlink := (mem_slotsOf.mp hs).2
      rw [heq, (mem_of_successor? hm).2] at hlink
      nomatch hlink

theorem SpansInputs.nodup_ids (hids : (nodes.map (·.id)).Nodup) {depth : Nat}
    {slots : List (String × FlatNode)} (hs : ∀ s ∈ slots, Hangs nodes (depth + 1) s.2)
    (hslots : (slots.map (·.2)).Nodup) :
    {inputs : List (String × Block)} → SpansInputs nodes slots inputs → (idsInputs inputs).Nodup
  | [], _ => List.nodup_nil
  | (_, b) :: rest, h => by
    cases slots with
    | nil => exact h.elim
    | cons s slots =>
      obtain ⟨-, hb, hrest⟩ := h
      obtain ⟨hnew, hslots⟩ := List.nodup_cons.mp hslots
      have hhead := hs s (List.mem_cons_self ..)
      refine List.nodup_append.mpr ⟨hb.nodup_ids hids hhead,
        hrest.nodup_ids hids (fun s' hs' => hs s' (List.mem_cons_of_mem _ hs')) hslots, ?_⟩
      rintro id hid _ hid' rfl
      obtain ⟨s', hs', c, hc, hid'⟩ := hrest.exists_spans hid'
      refine hb.disjoint hids hhead (hs s' (List.mem_cons_of_mem _ hs')) (fun heq => ?_) hc hid hid'
      exact hnew (List.mem_map.mpr ⟨s', hs', heq.symm⟩)

theorem SpansNext.nodup_ids (hids : (nodes.map (·.id)).Nodup) {depth : Nat}
    {next : Option FlatNode} (hs : ∀ m, next = some m → Hangs nodes (depth + 1) m) :
    {b : Option Block} → SpansNext nodes next b → (idsNext b).Nodup
  | none, _ => List.nodup_nil
  | some b, h => by
    cases next with
    | none => exact h.elim
    | some m =>
      have hb : Spans nodes m b := h
      exact hb.nodup_ids hids (hs m rfl)

end

end Block

namespace FlatGraph

open Block

variable {f : FlatGraph} {g : Graph}

theorem ofGraph_subset (h : f.toGraph = .ok g) : (ofGraph g).nodes ⊆ f.nodes := by
  obtain ⟨hf, -⟩ := toGraph_eq_ok.mp h
  rw [toGraph_of_isForest hf] at h
  cases h
  intro n hn
  obtain ⟨b, hb, hn⟩ := List.mem_flatMap.mp hn
  obtain ⟨top, htop, hspans⟩ := (mem_forest hf.ids).mp hb
  obtain ⟨htop, hlink⟩ := mem_tops.mp htop
  exact hspans.flatten_subset htop (hlink.symm ▸ hn)

theorem nodup_ids_of_toGraph (h : f.toGraph = .ok g) : g.ids.Nodup := by
  obtain ⟨hf, -⟩ := toGraph_eq_ok.mp h
  rw [toGraph_of_isForest hf] at h
  cases h
  have htops : f.tops.Nodup := (List.Nodup.of_map _ hf.ids).filter _
  refine List.nodup_flatMap.mpr ⟨fun b hb => ?_, List.pairwise_map.mpr ?_⟩
  · obtain ⟨top, htop, hspans⟩ := (mem_forest hf.ids).mp hb
    exact hspans.nodup_ids hf.ids (hangs_top htop)
  · refine htops.imp_of_mem fun {m n} hm hn hne id hid hid' => ?_
    exact (spans_top hf.ids hm (Nat.le_refl _)).disjoint hf.ids (hangs_top hm) (hangs_top hn) hne
      (spans_top hf.ids hn (Nat.le_refl _)) hid hid'

/-- Inflating and flattening again only rearranges the records of a flat graph: all come back, each
once, and none before the one it hangs from. Inflating these gives the same nested form. -/
theorem ofGraph_toGraph (h : f.toGraph = .ok g) :
    (ofGraph g).nodes.Perm f.nodes ∧
      (∀ earlier n later, (ofGraph g).nodes = earlier ++ n :: later →
        ∀ link, n.link = some link → ∃ m ∈ earlier, m.id = link.parent) ∧
      (ofGraph g).toGraph = .ok g := by
  obtain ⟨hf, hspans⟩ := toGraph_eq_ok.mp h
  have hids := nodup_ids_of_toGraph h
  have hsub := ofGraph_subset h
  have hknown : ((ofGraph g).nodes.map (·.id)).Nodup := by
    rwa [show (ofGraph g).nodes.map (·.id) = g.ids from Graph.known_ofGraph g]
  refine ⟨(List.perm_ext_iff_of_nodup (.of_map _ hknown) (.of_map _ hf.ids)).mpr fun n =>
    ⟨fun hn => hsub hn, fun hn => ?_⟩, fun earlier n later heq link hlink => ?_, ?_⟩
  · have hid : n.id ∈ g.ids := by
      rw [toGraph_of_isForest hf] at h
      cases h
      exact (mem_ids_forest hf.ids hf.links hn).mpr (hf.rooted n hn)
    obtain ⟨m, hm, hmid⟩ := List.mem_map.mp (Graph.known_ofGraph g ▸ hid)
    exact eq_of_id hf.ids (hsub hm) hn hmid ▸ hm
  · have hfirst : ParentsFirst [] (earlier ++ n :: later) := heq ▸ g.parentsFirst
    have hparent : n.parent? = some link.parent := by rw [FlatNode.parent?, hlink]; rfl
    rcases hfirst.mem hparent with hnone | hmem
    · nomatch hnone
    · exact List.mem_map.mp hmem
  · exact toGraph_eq_ok.mpr
      ⟨Graph.isForest_ofGraph hids (Graph.distinctSlots_of_toGraph h), Graph.spans_ofGraph hids⟩

/-- The records of `Graph.waiting`, in an order that has what hangs from a block before it. -/
def scrambled : FlatGraph := ⟨[
  ⟨"hide", "looks_hide", [], some (.next "wait")⟩,
  ⟨"sum", "operator_add", [("A", .null), ("B", .bool true)], some (.input "wait" "DURATION")⟩,
  ⟨"hat", "event_immediately", [], none⟩,
  ⟨"wait", "control_wait", [], some (.next "hat")⟩,
  ⟨"show", "looks_show", [], none⟩]⟩

theorem ofGraph_toGraph_scrambled :
    scrambled.toGraph = .ok (Graph.waiting "show") ∧
      (ofGraph (Graph.waiting "show")).nodes.map (·.id) = ["hat", "wait", "sum", "hide", "show"] ∧
      (ofGraph (Graph.waiting "show")).nodes.Perm scrambled.nodes := by
  have h : scrambled.toGraph = .ok (Graph.waiting "show") := rfl
  exact ⟨h, rfl, (ofGraph_toGraph h).1⟩

end FlatGraph

end Tabletop
