import Tabletop.Proofs.Graph.Reading
import Tabletop.Proofs.Graph.Slots
import Tabletop.Proofs.Json.Codec

/-! Graphs come back from their documents, in either form. What the documents do not keep is that
fields have keys of their own and canonical values, and slots names of their own; so it is with all
graphs that were read. -/

namespace Tabletop

open Json (sortMembers)

/-- Keys of their own and canonical values. -/
structure Tidy (fields : List (String × Json)) : Prop where
  keys : (Keyed.keys fields).Nodup
  canonical : ∀ m ∈ fields, m.2.Canonical

namespace Tidy

variable {fields : List (String × Json)}

theorem entries (h : Tidy fields) :
    Decode.entries Decode.json (.object (Document.ofMembers fields)) = some fields :=
  Decode.entries_ofMembers h.keys h.canonical

theorem sortMembers (h : Tidy fields) : Tidy (sortMembers fields) where
  keys := ((Json.perm_sortMembers h.keys).map _).nodup_iff.mpr h.keys
  canonical m hm := h.canonical m (Json.mem_of_mem_sortMembers hm)

/-- Through their value fields come back in the order of their keys. -/
theorem entries_stored (h : Tidy fields) : Decode.entries Decode.json
    (Document.object (Document.ofMembers fields)).stored = some (Json.sortMembers fields) := by
  rw [Document.stored_ofMembers h.canonical, h.sortMembers.entries]

theorem of_entries {d : Document} (h : Decode.entries Decode.json d = some fields) :
    Tidy fields := by
  obtain ⟨hkeys, hcanonical⟩ := Decode.entries_sound
    (fun d j (hj : some d.toJson = some j) => Option.some.inj hj ▸ d.canonical_toJson) h
  exact ⟨hkeys, hcanonical⟩

theorem of_get {f : Decode.Fields} {k : String}
    (h : f.get k (Decode.entries Decode.json) [] = some fields) : Tidy fields := by
  rw [Decode.Fields.get] at h
  split at h
  · exact of_entries h
  · cases h
    exact ⟨List.nodup_nil, List.forall_mem_nil _⟩

end Tidy

namespace Decode.Fields

variable {α : Type} {f : Fields} {k : String} {decode : Decoder α} {d : Document}

theorem need_eq {a : α} (h : f.found.lookup k = some d) (hd : decode d = some a) :
    f.need k decode = some a := by
  rw [need, h]
  exact hd

/-- A list that is left out where it is empty. -/
theorem get_list {decode : Decoder (List α)} {l' : List α} (xs : List (String × Json))
    (h : f.found.lookup k = if xs.isEmpty then none else some d) (hnone : xs = [] → l' = [])
    (hd : decode d = some l') : f.get k decode [] = some l' := by
  cases xs with
  | nil => simp [get, h, hnone]
  | cons x xs => simp [get, h, hd]

end Decode.Fields

namespace ParentLink

/-- A link comes back, also through its value. -/
theorem optional_encode (l : ParentLink) : Decode.optional decode l.encode = some (some l) := by
  cases l <;> rfl

theorem stored_encode (l : ParentLink) : l.encode.stored = l.encode := by
  cases l <;> rfl

end ParentLink

namespace FlatNode

/-- The members of the object of a record. -/
def members (n : FlatNode) : List (String × Document) :=
  [("id", .string n.id), ("type", .string n.kind)]
  ++ (if n.fields.isEmpty then [] else [("fields", .object (Document.ofMembers n.fields))])
  ++ (match n.link with
    | none => []
    | some link => [("p", link.encode)])

theorem keys_members (n : FlatNode) :
    (Keyed.keys n.members).Nodup ∧ ∀ k ∈ Keyed.keys n.members, k ∈ shape.declared := by
  have hdeclared : shape.declared = ["id", "type", "fields", "p"] := rfl
  rw [hdeclared]
  rcases n with ⟨id, kind, _ | ⟨m, rest⟩, _ | l⟩ <;> simp [members, Keyed.keys]

theorem lookup_members (n : FlatNode) :
    n.members.lookup "id" = some (.string n.id) ∧ n.members.lookup "type" = some (.string n.kind) ∧
      n.members.lookup "fields" =
        (if n.fields.isEmpty then none else some (.object (Document.ofMembers n.fields))) ∧
      n.members.lookup "p" = n.link.map ParentLink.encode := by
  rcases n with ⟨id, kind, _ | ⟨m, rest⟩, _ | l⟩ <;> simp [members, List.lookup_cons]

/-- What is read of a record whose members were found as they stand, or through their values. -/
theorem decode_of_found {n : FlatNode} {d : Document} {f : Decode.Fields}
    (via : Document → Document) {fields : List (String × Json)}
    (hf : Decode.fields shape.declared d = some f)
    (hfound : ∀ k, f.found.lookup k = (n.members.lookup k).map via)
    (hstring : ∀ s, via (.string s) = .string s) (hlink : ∀ l, via (ParentLink.encode l) = l.encode)
    (hnone : n.fields = [] → fields = [])
    (hfields : Decode.entries Decode.json (via (.object (Document.ofMembers n.fields))) =
      some fields) : decode d = some { n with fields } := by
  obtain ⟨hid, hkind, hmember, hp⟩ := n.lookup_members
  have hid : f.need "id" Decode.string = some n.id := by
    refine Decode.Fields.need_eq (d := .string n.id) ?_ rfl
    rw [hfound, hid, Option.map_some, hstring]
  have hkind : f.need "type" Decode.string = some n.kind := by
    refine Decode.Fields.need_eq (d := .string n.kind) ?_ rfl
    rw [hfound, hkind, Option.map_some, hstring]
  have hget : f.get "fields" (Decode.entries Decode.json) [] = some fields := by
    refine Decode.Fields.get_list n.fields ?_ hnone hfields
    rw [hfound, hmember, apply_ite (Option.map via), Option.map_none, Option.map_some]
  have hp : f.get "p" (Decode.optional ParentLink.decode) none = some n.link := by
    rw [Decode.Fields.get, hfound, hp]
    cases n.link with
    | none => rfl
    | some l => simp only [Option.map_some, hlink, ParentLink.optional_encode]
  simp only [decode, hf, hid, hkind, hget, hp, Option.bind_eq_bind, Option.bind_some]
  rfl

/-- A record comes back from its object. -/
theorem decode_encode {n : FlatNode} (h : Tidy n.fields) : decode n.encode = some n := by
  obtain ⟨hkeys, hdeclared⟩ := n.keys_members
  exact decode_of_found (fun d => d) (Decode.fields_of_declared hkeys hdeclared)
    (fun _ => Option.map_id'.symm) (fun _ => rfl) (fun _ => rfl) (fun h => h) h.entries

/-- Through its value a record comes back with its fields in the order of their keys. -/
theorem decode_stored {n : FlatNode} (h : Tidy n.fields) :
    decode n.encode.stored = some { n with fields := sortMembers n.fields } := by
  obtain ⟨hkeys, hdeclared⟩ := n.keys_members
  obtain ⟨f, hf, hfound⟩ := Document.fields_stored hkeys hdeclared
  refine decode_of_found Document.stored hf hfound (fun _ => rfl) ParentLink.stored_encode ?_
    h.entries_stored
  rintro hnone
  rw [hnone]
  rfl

theorem tidy_of_decode {n : FlatNode} {d : Document} (h : decode d = some n) : Tidy n.fields := by
  simp only [decode, Option.bind_eq_bind, Option.bind_eq_some_iff, Option.pure_def,
    Option.some.injEq] at h
  obtain ⟨f, -, id, -, kind, -, fields, hfields, link, -, rfl⟩ := h
  exact .of_get hfields

end FlatNode

namespace FlatGraph

variable {f : FlatGraph}

/-- A flat graph comes back from its object. -/
theorem decode_encode (h : ∀ n ∈ f.nodes, Tidy n.fields) : decode f.encode = some f := by
  refine decode_eq_some.mpr ⟨f.nodes.map FlatNode.encode, rfl, ?_⟩
  rw [List.forall₂_map_left_iff, List.forall₂_same]
  exact fun n hn => FlatNode.decode_encode (h n hn)

theorem tidy_of_decode {d : Document} (h : decode d = some f) : ∀ n ∈ f.nodes, Tidy n.fields := by
  simp only [decode, Option.bind_eq_bind, Option.bind_eq_some_iff, Option.pure_def,
    Option.some.injEq] at h
  obtain ⟨fields, -, nodes, hnodes, rfl⟩ := h
  obtain ⟨d, -, hlist⟩ := Option.bind_eq_some_iff.mp hnodes
  obtain ⟨items, -, hitems⟩ := Decode.list_eq_some.mp hlist
  intro n hn
  obtain ⟨d, -, hd⟩ := Graph.exists_of_mapM (Decode.mapM_eq_some.mpr hitems) n hn
  exact FlatNode.tidy_of_decode hd

end FlatGraph

namespace Block

/-- The members of the object of a block. -/
def members (b : Block) : List (String × Document) :=
  [("id", .string b.id), ("type", .string b.kind)]
  ++ (if b.fields.isEmpty then [] else [("fields", .object (Document.ofMembers b.fields))])
  ++ (if b.inputs.isEmpty then [] else [("inputs", .object (encodeInputs b.inputs))])
  ++ encodeNext b.next

theorem encode_eq (b : Block) : b.encode = .object b.members := by
  cases b
  rfl

theorem keys_members (b : Block) :
    (Keyed.keys b.members).Nodup ∧ ∀ k ∈ Keyed.keys b.members, k ∈ shape.declared := by
  have hdeclared : shape.declared = ["id", "type", "fields", "inputs", "next"] := rfl
  rw [hdeclared]
  rcases b with ⟨id, kind, _ | ⟨m, rest⟩, _ | ⟨s, inputs⟩, _ | b⟩ <;>
    simp [members, Keyed.keys, encodeNext]

theorem lookup_members (b : Block) :
    b.members.lookup "id" = some (.string b.id) ∧ b.members.lookup "type" = some (.string b.kind) ∧
      b.members.lookup "fields" =
        if b.fields.isEmpty then none else some (.object (Document.ofMembers b.fields)) := by
  rcases b with ⟨id, kind, _ | ⟨m, rest⟩, _ | ⟨s, inputs⟩, _ | b⟩ <;>
    simp [members, List.lookup_cons, encodeNext]

theorem decodeInputsIn_members (b : Block) : decodeInputsIn b.members =
    if b.inputs.isEmpty then some [] else decodeInputs (.object (encodeInputs b.inputs)) := by
  rcases b with ⟨id, kind, _ | ⟨m, rest⟩, _ | ⟨s, inputs⟩, _ | b⟩ <;>
    simp [members, decodeInputsIn, encodeNext]

theorem decodeNextIn_of_ne {k : String} (hk : k ≠ "next") (d : Document)
    (rest : List (String × Document)) : decodeNextIn ((k, d) :: rest) = decodeNextIn rest := by
  cases d <;> simp [decodeNextIn, hk]

theorem decodeNextIn_next (b : Block) (rest : List (String × Document)) :
    decodeNextIn (("next", b.encode) :: rest) = (decode b.encode).map some := by
  rw [encode_eq, decodeNextIn, if_pos rfl, Option.map_eq_bind]
  · rfl
  · rintro ⟨⟩

theorem decodeNextIn_members (b : Block) : decodeNextIn b.members =
    match b.next with
    | none => some none
    | some b => (decode b.encode).map some := by
  have hid := decodeNextIn_of_ne (show "id" ≠ "next" by decide)
  have hkind := decodeNextIn_of_ne (show "type" ≠ "next" by decide)
  have hfields := decodeNextIn_of_ne (show "fields" ≠ "next" by decide)
  have hinputs := decodeNextIn_of_ne (show "inputs" ≠ "next" by decide)
  rcases b with ⟨id, kind, _ | ⟨m, rest⟩, _ | ⟨s, inputs⟩, _ | b⟩ <;>
    simp only [members, encodeNext, hid, hkind, hfields, hinputs, decodeNextIn_next,
      List.isEmpty_nil, List.isEmpty_cons, ↓reduceIte, Bool.false_eq_true, List.cons_append,
      List.nil_append, List.append_nil] <;> rfl

theorem decode_members {b : Block} {inputs : List (String × Block)} {next : Option Block}
    (hfields : Tidy b.fields) (hinputs : decodeInputsIn b.members = some inputs)
    (hnext : decodeNextIn b.members = some next) :
    decode b.encode = some { b with inputs, next } := by
  obtain ⟨hkeys, hdeclared⟩ := b.keys_members
  obtain ⟨hid, hkind, hmember⟩ := b.lookup_members
  have hf : Decode.fields shape.declared (.object b.members) = some ⟨b.members⟩ :=
    Decode.fields_of_declared hkeys hdeclared
  have hid : Decode.Fields.need ⟨b.members⟩ "id" Decode.string = some b.id :=
    Decode.Fields.need_eq hid rfl
  have hkind : Decode.Fields.need ⟨b.members⟩ "type" Decode.string = some b.kind :=
    Decode.Fields.need_eq hkind rfl
  have hget : Decode.Fields.get ⟨b.members⟩ "fields" (Decode.entries Decode.json) [] =
      some b.fields := Decode.Fields.get_list _ hmember (fun h => h) hfields.entries
  rw [encode_eq]
  simp only [decode, hf, hid, hkind, hget, hinputs, hnext, Option.bind_eq_bind, Option.bind_some]
  rfl

mutual

/-- A block comes back from its object. -/
theorem decode_encode {link : Option ParentLink} : (b : Block) → b.DistinctSlots →
    (∀ n ∈ b.flatten link, Tidy n.fields) → decode b.encode = some b
  | ⟨id, kind, fields, inputs, next⟩, ⟨hkeys, hslots, hnext⟩, h => by
    rw [flatten, List.forall_mem_cons, List.forall_mem_append] at h
    obtain ⟨hfields, htidy, htidy'⟩ := h
    have hinputs : decodeInputsIn (members ⟨id, kind, fields, inputs, next⟩) = some inputs := by
      rw [decodeInputsIn_members]
      cases inputs with
      | nil => rfl
      | cons s rest => exact decodeSlots_encodeInputs (s :: rest) [] hkeys hslots htidy
    refine decode_members hfields hinputs ?_
    rw [decodeNextIn_members]
    cases next with
    | none => rfl
    | some b => exact congrArg (Option.map some) (decode_encode b hnext htidy')

theorem decodeSlots_encodeInputs {parent : String} : (inputs seen : List (String × Block)) →
    (Keyed.keys (seen ++ inputs)).Nodup → DistinctInputs inputs →
    (∀ n ∈ flattenInputs parent inputs, Tidy n.fields) →
    decodeSlots seen (encodeInputs inputs) = some (seen ++ inputs)
  | [], seen, _, _, _ => by rw [encodeInputs, decodeSlots, List.append_nil]
  | (slot, b) :: rest, seen, hkeys, ⟨hb, hrest⟩, h => by
    rw [flattenInputs, List.forall_mem_append] at h
    have hnew : slot ∉ Keyed.keys seen := by
      rw [Keyed.keys, List.map_append, List.nodup_append] at hkeys
      exact fun hmem => hkeys.2.2 _ hmem _ (by simp) rfl
    rw [List.append_cons] at hkeys
    have hrest := decodeSlots_encodeInputs rest _ hkeys hrest h.2
    rw [encodeInputs, decodeSlots, decode_encode b hb h.1, Option.bind_eq_bind, Option.bind_some,
      Keyed.put_of_notMem hnew, hrest, List.append_assoc, List.singleton_append]

end

end Block

/-- A nested graph comes back from its object. -/
theorem Graph.decode_encode {g : Graph} (hslots : g.DistinctSlots)
    (h : ∀ n ∈ (FlatGraph.ofGraph g).nodes, Tidy n.fields) : decode g.encode = some g := by
  refine decode_eq_some.mpr (.inr ⟨g.blocks.map Block.encode, rfl, ?_⟩)
  rw [List.forall₂_map_left_iff, List.forall₂_same]
  intro b hb
  exact Block.decode_encode b (hslots b hb) fun n hn => h n (List.mem_flatMap.mpr ⟨b, hb, hn⟩)

end Tabletop
