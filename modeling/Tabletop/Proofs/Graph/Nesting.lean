import Tabletop.Proofs.Graph.Codec
import Tabletop.Proofs.Graph.Flatten
import Tabletop.Proofs.Graph.Preorder
import Tabletop.Proofs.Json.Nesting

/-! Which texts of graphs are read back. In the nested text every block of a chain stands within the
one before it, so a chain that is long enough takes it deeper than texts are read; the flat text is
as deep as the fields of the blocks, whatever hangs from what. -/

namespace Tabletop

open Document (depthItems depthMembers numbersItems numbersMembers)
open Json (Fits)

/-! ### Documents of graphs -/

/-- A member that may be left out. -/
theorem mem_unless {p : Prop} [Decidable p] {m m' : String × Document} :
    m ∈ (if p then [] else [m']) ↔ ¬p ∧ m = m' := by
  by_cases hp : p <;> simp [hp]

/-- What blocks and records need. -/
theorem mem_keys_of_named {members : List (String × Document)} {id kind : Document}
    (hid : members.lookup "id" = some id) (hkind : members.lookup "type" = some kind) :
    ∀ f ∈ [("id", Json.Shape.text), ("type", .text)], f.1 ∈ Keyed.keys members := by
  refine List.forall_mem_cons.mpr ⟨?_, List.forall_mem_singleton.mpr ?_⟩
  · exact List.mem_map_of_mem (Keyed.mem_of_lookup hid)
  · exact List.mem_map_of_mem (Keyed.mem_of_lookup hkind)

theorem fits_fields {around : Json.Shape} (fields : List (String × Json)) :
    Fits around (.entries .any) (.object (Document.ofMembers fields)) :=
  .entries (Json.fits_members _)

namespace Block

theorem mem_members {b : Block} {m : String × Document} : m ∈ b.members ↔
    m = ("id", .string b.id) ∨ m = ("type", .string b.kind) ∨
      ¬b.fields.isEmpty ∧ m = ("fields", .object (Document.ofMembers b.fields)) ∨
      ¬b.inputs.isEmpty ∧ m = ("inputs", .object (encodeInputs b.inputs)) ∨
      ∃ b', b.next = some b' ∧ m = ("next", b'.encode) := by
  simp only [members, List.mem_append, List.mem_cons, List.not_mem_nil, or_false, mem_unless,
    or_assoc]
  cases b.next <;> simp [encodeNext]

/-- A block fits where those in its slots and behind it do. -/
theorem fits_of_parts {around : Json.Shape} {b : Block}
    (hinputs : ∀ m ∈ encodeInputs b.inputs, Fits shape .same m.2)
    (hnext : ∀ b', b.next = some b' → Fits shape shape b'.encode) : Fits around shape b.encode := by
  obtain ⟨hkeys, hdeclared⟩ := b.keys_members
  obtain ⟨hid, hkind, -⟩ := b.lookup_members
  rw [encode_eq]
  refine .record hkeys (mem_keys_of_named hid hkind) hdeclared fun m hm inner hinner => ?_
  obtain rfl | rfl | ⟨-, rfl⟩ | ⟨-, rfl⟩ | ⟨b', hb', rfl⟩ := mem_members.mp hm
  · cases hinner
    exact .text _
  · cases hinner
    exact .text _
  · cases hinner
    exact fits_fields _
  · cases hinner
    exact .entries hinputs
  · cases hinner
    have hopening : b'.encode.opening ≠ 'n' := by
      rw [encode_eq]
      exact (by decide : '\x7b' ≠ 'n')
    exact .maybe (by decide) hopening (.same rfl (hnext b' hb'))

mutual

theorem fits {around : Json.Shape} : (b : Block) → Fits around shape b.encode
  | ⟨_, _, _, inputs, next⟩ => fits_of_parts (fits_inputs inputs) (fits_next next)

theorem fits_inputs : (inputs : List (String × Block)) →
    ∀ m ∈ encodeInputs inputs, Fits shape .same m.2
  | [] => nofun
  | (_, b) :: rest => List.forall_mem_cons.mpr ⟨.same rfl b.fits, fits_inputs rest⟩

theorem fits_next : (next : Option Block) → ∀ b, next = some b → Fits shape shape b.encode
  | none => nofun
  | some b => fun _ hb => Option.some.inj hb ▸ b.fits

end

/-- How deep what hangs behind a block is. -/
def depthNext : Option Block → Nat
  | none => 0
  | some b => b.encode.depth

/-- A block stands one level above the one behind it, and two above those in its slots. -/
theorem depth_encode (b : Block) : b.encode.depth =
    max (if b.fields.isEmpty then 0 else depthMembers (Document.ofMembers b.fields) + 1)
      (max (if b.inputs.isEmpty then 0 else depthMembers (encodeInputs b.inputs) + 1)
        (depthNext b.next)) + 1 := by
  rcases b with ⟨id, kind, _ | ⟨m, rest⟩, _ | ⟨s, inputs⟩, _ | b⟩ <;>
    simp [encode_eq, members, Document.depth, depthMembers, encodeNext, depthNext]

theorem length_chainIds_le : (b : Block) → b.chainIds.length ≤ b.encode.depth
  | ⟨id, kind, fields, inputs, none⟩ => by
    rw [depth_encode]
    exact Nat.succ_le_succ (Nat.zero_le _)
  | ⟨id, kind, fields, inputs, some b⟩ => by
    rw [depth_encode]
    exact Nat.succ_le_succ (Nat.le_trans (length_chainIds_le b)
      (Nat.le_trans (Nat.le_max_right _ _) (Nat.le_max_right _ _)))

end Block

namespace Graph

theorem fits (g : Graph) : Fits shape shape g.encode := by
  refine .record (List.nodup_singleton _) nofun ?_ ?_
  · exact List.forall_mem_singleton.mpr (List.mem_singleton_self _)
  · refine List.forall_mem_singleton.mpr fun inner hinner => ?_
    cases hinner
    refine .list ?_
    rw [List.forall_mem_map]
    exact fun b _ => b.fits

theorem depth_encode (g : Graph) :
    g.encode.depth = depthItems (g.blocks.map Block.encode) + 2 := by
  rw [encode, Document.depth, depthMembers, depthMembers, Nat.max_zero, Document.depth]

theorem length_chainIds_le {g : Graph} {b : Block} (hb : b ∈ g.blocks) :
    b.chainIds.length + 2 ≤ g.encode.depth := by
  rw [depth_encode]
  exact Nat.add_le_add_right (Nat.le_trans b.length_chainIds_le
    (Document.depthItems_le.mp (Nat.le_refl _) _ (List.mem_map_of_mem hb))) 2

end Graph

namespace FlatNode

theorem mem_members {n : FlatNode} {m : String × Document} : m ∈ n.members ↔
    m = ("id", .string n.id) ∨ m = ("type", .string n.kind) ∨
      ¬n.fields.isEmpty ∧ m = ("fields", .object (Document.ofMembers n.fields)) ∨
      ∃ l, n.link = some l ∧ m = ("p", l.encode) := by
  simp only [members, List.mem_append, List.mem_cons, List.not_mem_nil, or_false, mem_unless,
    or_assoc]
  cases n.link <;> simp

theorem fits {around : Json.Shape} (n : FlatNode) : Fits around shape n.encode := by
  obtain ⟨hkeys, hdeclared⟩ := n.keys_members
  obtain ⟨hid, hkind, -⟩ := n.lookup_members
  refine .record hkeys (mem_keys_of_named hid hkind) hdeclared fun m hm inner hinner => ?_
  obtain rfl | rfl | ⟨-, rfl⟩ | ⟨l, -, rfl⟩ := mem_members.mp hm
  · cases hinner
    exact .text _
  · cases hinner
    exact .text _
  · cases hinner
    exact fits_fields _
  · cases hinner
    refine .maybe (by decide) ?_ (Json.fits_any _)
    cases l
    · exact (by decide : '"' ≠ 'n')
    · exact (by decide : '[' ≠ 'n')

theorem numbers_encode (n : FlatNode) :
    n.encode.numbers = numbersMembers (Document.ofMembers n.fields) := by
  rcases n with ⟨id, kind, _ | ⟨m, rest⟩, _ | _ | _⟩ <;>
    simp [encode, ParentLink.encode, Document.ofStrings, Document.numbers, numbersMembers,
      numbersItems, Document.ofMembers]

/-- A record is as deep as its fields. -/
theorem depth_encode_le {n : FlatNode} {k : Nat}
    (h : depthMembers (Document.ofMembers n.fields) ≤ k) : n.encode.depth ≤ k + 2 := by
  refine Nat.succ_le_succ (Document.depthMembers_le.mpr fun m hm => ?_)
  obtain rfl | rfl | ⟨-, rfl⟩ | ⟨l, -, rfl⟩ := mem_members.mp hm
  · exact Nat.zero_le _
  · exact Nat.zero_le _
  · exact Nat.succ_le_succ h
  · cases l
    · exact Nat.zero_le _
    · exact Nat.succ_le_succ (Nat.zero_le _)

end FlatNode

namespace FlatGraph

variable {f : FlatGraph}

theorem fits (f : FlatGraph) : Fits shape shape f.encode := by
  refine .record (List.nodup_singleton _) ?_ ?_ ?_
  · exact List.forall_mem_singleton.mpr (List.mem_singleton_self _)
  · exact List.forall_mem_singleton.mpr (List.mem_singleton_self _)
  · refine List.forall_mem_singleton.mpr fun inner hinner => ?_
    cases hinner
    refine .list ?_
    rw [List.forall_mem_map]
    exact fun n _ => n.fits

theorem depth_encode_le {k : Nat}
    (h : ∀ n ∈ f.nodes, depthMembers (Document.ofMembers n.fields) ≤ k) :
    f.encode.depth ≤ k + 4 := by
  have hnodes : depthItems (f.nodes.map FlatNode.encode) ≤ k + 2 := by
    rw [Document.depthItems_le, List.forall_mem_map]
    exact fun n hn => FlatNode.depth_encode_le (h n hn)
  rw [encode, Document.depth, depthMembers, depthMembers, Nat.max_zero, Document.depth]
  exact Nat.add_le_add_right hnodes 2

theorem mem_numbers_encode {x : Number} : x ∈ f.encode.numbers ↔
    ∃ n ∈ f.nodes, x ∈ numbersMembers (Document.ofMembers n.fields) := by
  rw [encode, Document.numbers, numbersMembers, numbersMembers, List.append_nil, Document.numbers,
    Document.mem_numbersItems]
  simp [FlatNode.numbers_encode]

/-- The flat text is read back, however long the chains are and however deep the slots. -/
theorem read_text (htidy : ∀ n ∈ f.nodes, Tidy n.fields)
    (hnumbers : ∀ n ∈ f.nodes, ∀ x ∈ numbersMembers (Document.ofMembers n.fields), x.ReadsBack)
    (hfields : ∀ n ∈ f.nodes, depthMembers (Document.ofMembers n.fields) + 4 ≤ Json.deepest) :
    format.read f.text = .ok f := by
  refine Format.read_compact f.fits (fun x hx => ?_) ?_ (decode_encode htidy)
  · obtain ⟨n, hn, hx⟩ := mem_numbers_encode.mp hx
    exact hnumbers n hn x hx
  · exact depth_encode_le (k := Json.deepest - 4) fun n hn => Nat.le_sub_of_add_le (hfields n hn)

end FlatGraph

/-! ### The nested text -/

namespace Graph

/-- The nested text of a flat graph that was read is read back exactly if it is nested no deeper
than texts may be, and otherwise refused for that. -/
theorem read_nested_text {text : String} {f : FlatGraph} {g : Graph}
    (hf : FlatGraph.format.read text = .ok f) (hg : f.toGraph = .ok g)
    (hnumbers : ∀ n ∈ g.encode.numbers, n.ReadsBack) :
    (format.read g.text = .ok g ↔ g.encode.depth ≤ Json.deepest) ∧
      (Json.deepest < g.encode.depth → ∃ place, format.read g.text =
        .error (Json.ReadError.message g.text ⟨.nestedTooDeep, place, 1⟩)) := by
  have hdeep := Format.read_compact_deep (f := format) g.fits hnumbers
  refine ⟨⟨fun hread => ?_, fun hdepth => ?_⟩, hdeep⟩
  · by_contra hdepth
    obtain ⟨place, herror⟩ := hdeep (Nat.lt_of_not_le hdepth)
    nomatch hread.symm.trans herror
  · obtain ⟨d, hd⟩ := Format.decode_of_read hf
    have htidy : ∀ n ∈ (FlatGraph.ofGraph g).nodes, Tidy n.fields := fun n hn =>
      FlatGraph.tidy_of_decode hd n (FlatGraph.ofGraph_subset hg hn)
    exact Format.read_compact g.fits hnumbers hdepth
      (decode_encode (distinctSlots_of_toGraph hg) htidy)

/-- A wait with its seconds in a slot. -/
def pause : Graph := ⟨[⟨"wait", "control_wait", [],
  [("DURATION", ⟨"two", "math_number", [("NUM", .number (.integer 2))], [], none⟩)], none⟩]⟩

theorem read_nested_text_pause : FlatGraph.format.read (FlatGraph.ofGraph pause).text =
      .ok (FlatGraph.ofGraph pause) ∧ (FlatGraph.ofGraph pause).toGraph = .ok pause ∧
      format.read pause.text = .ok pause := by
  have htwo : (Number.integer 2).ReadsBack := rfl
  have hf : FlatGraph.format.read (FlatGraph.ofGraph pause).text =
      .ok (FlatGraph.ofGraph pause) := by
    refine FlatGraph.read_text ?_ ?_ (by decide)
    · refine List.forall_mem_cons.mpr ⟨⟨List.nodup_nil, nofun⟩, List.forall_mem_singleton.mpr ?_⟩
      exact ⟨List.nodup_singleton _, List.forall_mem_singleton.mpr trivial⟩
    · refine List.forall_mem_cons.mpr ⟨nofun, List.forall_mem_singleton.mpr ?_⟩
      exact List.forall_mem_singleton.mpr htwo
  have hg : (FlatGraph.ofGraph pause).toGraph = .ok pause := rfl
  have hread := (read_nested_text hf hg (List.forall_mem_singleton.mpr htwo)).1
  exact ⟨hf, hg, hread.mpr (by decide)⟩

end Graph

/-! ### Long chains -/

theorem toString_nat_inj {i j : Nat} (h : toString i = toString j) : i = j :=
  Int.ofNat.inj (Int.repr_inj.mp h)

namespace Block

/-- A block with so many others in a chain behind it. -/
def column : Nat → Block
  | 0 => ⟨"0", "looks_show", [], [], none⟩
  | n + 1 => ⟨toString (n + 1), "looks_show", [], [], some (column n)⟩

theorem mem_ids_column {n : Nat} {id : String} (h : id ∈ (column n).ids) :
    ∃ i ≤ n, id = toString i := by
  induction n with
  | zero => exact ⟨0, Nat.le_refl 0, List.mem_singleton.mp h⟩
  | succ n ih =>
    rcases List.mem_cons.mp h with rfl | h
    · exact ⟨n + 1, Nat.le_refl _, rfl⟩
    · obtain ⟨i, hi, hid⟩ := ih h
      exact ⟨i, Nat.le_succ_of_le hi, hid⟩

theorem nodup_ids_column (n : Nat) : (column n).ids.Nodup := by
  induction n with
  | zero => exact List.nodup_singleton _
  | succ n ih =>
    refine List.nodup_cons.mpr ⟨fun h => ?_, ih⟩
    obtain ⟨i, hi, hid⟩ := mem_ids_column (show toString (n + 1) ∈ (column n).ids from h)
    have hn := toString_nat_inj hid
    omega

theorem distinctSlots_column (n : Nat) : (column n).DistinctSlots := by
  induction n with
  | zero => exact ⟨List.nodup_nil, trivial, trivial⟩
  | succ n ih => exact ⟨List.nodup_nil, trivial, ih⟩

theorem length_chainIds_column (n : Nat) : (column n).chainIds.length = n + 1 := by
  induction n with
  | zero => rfl
  | succ n ih => exact congrArg (· + 1) ih

theorem numbers_column (n : Nat) : (column n).encode.numbers = [] := by
  induction n with
  | zero => rfl
  | succ n ih =>
    show [] ++ ([] ++ ((column n).encode.numbers ++ [])) = []
    rw [ih]
    rfl

theorem fields_column {n : Nat} {link : Option ParentLink} :
    ∀ r ∈ (column n).flatten link, r.fields = [] := by
  induction n generalizing link with
  | zero => exact List.forall_mem_singleton.mpr rfl
  | succ n ih => exact List.forall_mem_cons.mpr ⟨rfl, ih⟩

end Block

namespace Graph

/-- One chain of so many blocks below its head. -/
def column (n : Nat) : Graph := ⟨[.column n]⟩

theorem toGraph_column (n : Nat) : (FlatGraph.ofGraph (column n)).toGraph = .ok (column n) := by
  have hids : (column n).ids.Nodup := by
    rw [ids, column, List.flatMap_singleton]
    exact Block.nodup_ids_column n
  have hslots : (column n).DistinctSlots :=
    List.forall_mem_singleton.mpr (Block.distinctSlots_column n)
  exact FlatGraph.toGraph_eq_ok.mpr ⟨isForest_ofGraph hids hslots, spans_ofGraph hids⟩

theorem numbers_column (n : Nat) : (column n).encode.numbers = [] := by
  show ((Block.column n).encode.numbers ++ []) ++ [] = []
  rw [Block.numbers_column]
  rfl

theorem read_flat_column (n : Nat) :
    FlatGraph.format.read (FlatGraph.ofGraph (column n)).text =
      .ok (FlatGraph.ofGraph (column n)) := by
  have hfields : ∀ r ∈ (FlatGraph.ofGraph (column n)).nodes, r.fields = [] := by
    rw [FlatGraph.ofGraph, column, List.flatMap_singleton]
    exact Block.fields_column
  refine FlatGraph.read_text (fun r hr => ?_) (fun r hr => ?_) fun r hr => ?_
  · rw [hfields r hr]
    exact ⟨List.nodup_nil, List.forall_mem_nil _⟩
  · rw [hfields r hr]
    exact List.forall_mem_nil _
  · rw [hfields r hr]
    decide

/-- Flat and nested, 126 blocks in a chain are the same graph, and its nested text is not read. -/
theorem column_unread : FlatGraph.format.read (FlatGraph.ofGraph (column 125)).text =
      .ok (FlatGraph.ofGraph (column 125)) ∧
    (FlatGraph.ofGraph (column 125)).toGraph = .ok (column 125) ∧
    (column 125).encode.numbers = [] ∧ ∀ g, format.read (column 125).text ≠ .ok g := by
  refine ⟨read_flat_column 125, toGraph_column 125, numbers_column 125, fun g hread => ?_⟩
  have hdepth : Json.deepest < (column 125).encode.depth := by
    have hlength := length_chainIds_le (List.mem_singleton_self (Block.column 125))
    rw [Block.length_chainIds_column] at hlength
    exact hlength
  obtain ⟨place, herror⟩ := Format.read_compact_deep (f := format) (column 125).fits
    (fun n hn => nomatch numbers_column 125 ▸ hn) hdepth
  nomatch hread.symm.trans herror

end Graph

end Tabletop
