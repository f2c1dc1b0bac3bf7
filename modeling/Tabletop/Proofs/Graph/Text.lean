import Tabletop.Graph.Stored
import Tabletop.Proofs.Json.Compact
import Tabletop.Proofs.Names

/-! What the hash of a graph covers. It tells the graph and the bytes of its globals; it tells the
globals too where no zero character stands in their ids. -/

namespace Tabletop

/-! ### Blocks from their documents -/

namespace Block

/-- A member that may be left out, before members of other keys. -/
theorem member_append_inj {k : String} {p p' : Prop} [Decidable p] [Decidable p'] {d d' : Document}
    {rest rest' : List (String × Document)} (hrest : ∀ m ∈ rest.head?, m.1 ≠ k)
    (hrest' : ∀ m ∈ rest'.head?, m.1 ≠ k)
    (h : (if p then [] else [(k, d)]) ++ rest = (if p' then [] else [(k, d')]) ++ rest') :
    (p ↔ p') ∧ (¬p → d = d') ∧ rest = rest' := by
  by_cases hp : p <;> by_cases hp' : p' <;> simp only [hp, hp', if_true, if_false] at h
  · exact ⟨by simp [hp, hp'], by simp [hp], h⟩
  · obtain rfl : rest = _ := h
    exact absurd rfl (hrest _ rfl)
  · obtain rfl : _ = rest' := h
    exact absurd rfl (hrest' _ rfl)
  · obtain ⟨hd, rfl⟩ := List.cons.inj h
    exact ⟨by simp [hp, hp'], fun _ => (Prod.mk.inj hd).2, rfl⟩

theorem eq_of_isEmpty {α : Type} {xs xs' : List α} (h : xs.isEmpty ↔ xs'.isEmpty)
    (hne : ¬xs.isEmpty → xs = xs') : xs = xs' := by
  by_cases hxs : xs.isEmpty
  · rw [List.isEmpty_iff.mp hxs, List.isEmpty_iff.mp (h.mp hxs)]
  · exact hne hxs

section Keys

variable {next : Option Block}

theorem head_ne_inputs : ∀ m ∈ (encodeNext next).head?, m.1 ≠ "inputs" := by
  cases next with
  | none => nofun
  | some b =>
    rintro _ ⟨⟩
    exact (by decide : "next" ≠ "inputs")

theorem head_ne_fields {p : Prop} [Decidable p] {d : Document} :
    ∀ m ∈ ((if p then [] else [("inputs", d)]) ++ encodeNext next).head?, m.1 ≠ "fields" := by
  split
  · cases next with
    | none => nofun
    | some b =>
      rintro _ ⟨⟩
      exact (by decide : "next" ≠ "fields")
  · rintro _ ⟨⟩
    exact (by decide : "inputs" ≠ "fields")

end Keys

mutual

/-- No two blocks have one document. -/
theorem encode_inj : ∀ {b b' : Block}, b.encode = b'.encode → b = b'
  | ⟨id, kind, fields, inputs, next⟩, ⟨id', kind', fields', inputs', next'⟩, h => by
    simp only [encode, Document.object.injEq, List.cons_append, List.nil_append, List.append_assoc,
      List.cons.injEq, Prod.mk.injEq, Document.string.injEq, true_and] at h
    obtain ⟨rfl, rfl, h⟩ := h
    obtain ⟨hempty, hfields, h⟩ := member_append_inj head_ne_fields head_ne_fields h
    obtain ⟨hempty', hinputs, h⟩ := member_append_inj head_ne_inputs head_ne_inputs h
    rw [eq_of_isEmpty hempty fun hne => Document.ofMembers_inj (Document.object.inj (hfields hne)),
      eq_of_isEmpty hempty' fun hne => encodeInputs_inj (Document.object.inj (hinputs hne)),
      encodeNext_inj h]

theorem encodeInputs_inj : ∀ {inputs inputs' : List (String × Block)},
    encodeInputs inputs = encodeInputs inputs' → inputs = inputs'
  | [], [], _ => rfl
  | (slot, b) :: inputs, (slot', b') :: inputs', h => by
    obtain ⟨hm, hinputs⟩ := List.cons.inj h
    obtain ⟨rfl, hb⟩ := Prod.mk.inj hm
    rw [encode_inj hb, encodeInputs_inj hinputs]

theorem encodeNext_inj : ∀ {next next' : Option Block},
    encodeNext next = encodeNext next' → next = next'
  | none, none, _ => rfl
  | some b, some b', h => by
    rw [encode_inj (Prod.mk.inj (List.cons.inj h).1).2]

end

end Block

/-! ### Bytes -/

/-- The bytes of a text. -/
def utf8 (s : String) : List UInt8 := s.toUTF8.toList

theorem toList_loop (bytes : ByteArray) (i : Nat) (seen : List UInt8) :
    ByteArray.toList.loop bytes i seen = seen.reverse ++ bytes.data.toList.drop i := by
  fun_induction ByteArray.toList.loop bytes i seen with
  | case1 i seen h ih =>
    have hget : bytes.data.toList.drop i = bytes.get! i :: bytes.data.toList.drop (i + 1) := by
      rw [List.drop_eq_getElem_cons (by simpa using h)]
      simp [ByteArray.get!, h]
    rw [ih, hget]
    simp
  | case2 i seen h =>
    rw [List.drop_of_length_le (by simpa using h), List.append_nil]

theorem utf8_eq (s : String) : utf8 s = s.toList.flatMap String.utf8EncodeChar := by
  rw [utf8, ByteArray.toList, toList_loop, String.toUTF8_eq_toByteArray, ← String.utf8Encode_toList,
    List.utf8Encode, List.toList_data_toByteArray]
  rfl

theorem utf8_injective : Function.Injective utf8 := by
  intro s s' h
  rw [utf8_eq, utf8_eq] at h
  refine String.toByteArray_inj.mp ?_
  rw [← String.utf8Encode_toList, ← String.utf8Encode_toList, List.utf8Encode, List.utf8Encode, h]

theorem zero_mem_utf8EncodeChar {c : Char} (h : 0 ∈ String.utf8EncodeChar c) : c = '\x00' := by
  simp only [String.utf8EncodeChar] at h
  split_ifs at h <;>
    simp only [List.mem_cons, List.not_mem_nil, or_false, ← UInt8.toNat_inj,
      UInt8.toNat_ofNat'] at h
  · have hle : c.toNat ≤ 127 := by assumption
    have hmod : 0 = c.toNat % 2 ^ 8 := h
    refine Char.toNat_inj.mp (?_ : c.toNat = 0)
    omega
  all_goals
    simp only [UInt8.toNat_zero] at h
    omega

theorem ne_zero_of_mem_utf8 {s : String} (h : '\x00' ∉ s.toList) : ∀ b ∈ utf8 s, b ≠ 0 := by
  rw [utf8_eq]
  rintro b hb rfl
  obtain ⟨c, hc, hb⟩ := List.mem_flatMap.mp hb
  exact h (zero_mem_utf8EncodeChar hb ▸ hc)

/-- Where a zero byte ends what it follows, nothing is lost. -/
theorem append_inj_of_zero {a a' rest rest' : List UInt8} (ha : ∀ b ∈ a, b ≠ 0)
    (ha' : ∀ b ∈ a', b ≠ 0) (hrest : ∀ b ∈ rest.head?, b = 0) (hrest' : ∀ b ∈ rest'.head?, b = 0)
    (h : a ++ rest = a' ++ rest') : a = a' ∧ rest = rest' := by
  have htake {a rest : List UInt8} (ha : ∀ b ∈ a, b ≠ 0) (hrest : ∀ b ∈ rest.head?, b = 0) :
      (a ++ rest).takeWhile (· != 0) = a := by
    rw [List.takeWhile_append_of_pos fun b hb => bne_iff_ne.mpr (ha b hb)]
    cases rest with
    | nil => exact List.append_nil a
    | cons b rest => rw [List.takeWhile_cons_of_neg (by simp [hrest b rfl]), List.append_nil]
  have heq : a = a' := by rw [← htake ha hrest, h, htake ha' hrest']
  exact ⟨heq, List.append_cancel_left (heq ▸ h)⟩

/-! ### What is hashed -/

/-- What is hashed after the text of a graph. -/
def salt (globals : List String) : List UInt8 := globals.flatMap fun id => 0 :: utf8 id

theorem salt_cons (id : String) (globals : List String) :
    salt (id :: globals) = 0 :: (utf8 id ++ salt globals) := by
  simp [salt]

theorem head_salt (globals : List String) : ∀ b ∈ (salt globals).head?, b = 0 := by
  cases globals with
  | nil => nofun
  | cons id globals =>
    rw [salt_cons]
    rintro _ ⟨⟩
    rfl

theorem Graph.hashed_of_salt {globals globals' : List String} (g : Graph)
    (h : salt globals = salt globals') : g.hashed globals = g.hashed globals' :=
  congrArg (utf8 g.text ++ ·) h

theorem Graph.text_injective : Function.Injective Graph.text := by
  intro g g' h
  have hmembers := Document.object.inj (Document.compact_injective h)
  have hblocks := Document.array.inj (Prod.mk.inj (List.cons.inj hmembers).1).2
  have hencode : Function.Injective Block.encode := fun _ _ => Block.encode_inj
  cases g
  cases g'
  exact congrArg Graph.mk (List.map_injective_iff.mpr hencode hblocks)

/-- The text of a graph has no zero byte, so its end is where the first one stands. -/
theorem Graph.hashed_inj {g g' : Graph} {globals globals' : List String}
    (h : g.hashed globals = g'.hashed globals') : g = g' ∧ salt globals = salt globals' := by
  have hshown (g : Graph) : ∀ b ∈ utf8 g.text, b ≠ 0 :=
    ne_zero_of_mem_utf8 fun hzero => absurd (Document.shown_compact _ _ hzero) (by decide)
  obtain ⟨htext, hsalt⟩ := append_inj_of_zero (hshown g) (hshown g') (head_salt globals)
    (head_salt globals') h
  exact ⟨Graph.text_injective (utf8_injective htext), hsalt⟩

theorem salt_inj {globals globals' : List String} (h : ∀ id ∈ globals, '\x00' ∉ id.toList)
    (h' : ∀ id ∈ globals', '\x00' ∉ id.toList) (heq : salt globals = salt globals') :
    globals = globals' := by
  induction globals generalizing globals' with
  | nil => cases globals' with
    | nil => rfl
    | cons id' globals' =>
      rw [salt_cons] at heq
      nomatch heq
  | cons id globals ih => cases globals' with
    | nil =>
      rw [salt_cons] at heq
      nomatch heq
    | cons id' globals' =>
      rw [salt_cons, salt_cons] at heq
      obtain ⟨hid, hrest⟩ := List.forall_mem_cons.mp h
      obtain ⟨hid', hrest'⟩ := List.forall_mem_cons.mp h'
      obtain ⟨hbytes, hsalt⟩ := append_inj_of_zero (ne_zero_of_mem_utf8 hid)
        (ne_zero_of_mem_utf8 hid') (head_salt globals) (head_salt globals')
        (List.tail_eq_of_cons_eq heq)
      rw [utf8_injective hbytes, ih hrest hrest' hsalt]

section Sets

variable {globals globals' : List String} (h : Names.Sorted globals) (h' : Names.Sorted globals')
include h h'

theorem Names.Sorted.eq_of_mem_iff (hmem : ∀ id, id ∈ globals ↔ id ∈ globals') :
    globals = globals' :=
  ((List.perm_ext_iff_of_nodup h.nodup h'.nodup).mpr hmem).eq_of_pairwise
    (fun id _ _ _ hlt hlt' => absurd (String.lt_trans hlt hlt') (String.lt_irrefl id)) h h'

/-- The empty id stands first in a set. -/
theorem Names.Sorted.eq_cons_of_empty_mem (hempty : "" ∈ globals) (hempty' : "" ∉ globals')
    (hmem : ∀ id ≠ "", id ∈ globals ↔ id ∈ globals') : globals = "" :: globals' := by
  refine h.eq_of_mem_iff (List.pairwise_cons.mpr ⟨fun id hid => ?_, h'⟩) fun id => ?_
  · have hne : id ≠ "" := fun hid' => hempty' (hid' ▸ hid)
    obtain ⟨c, rest, hc⟩ := List.exists_cons_of_ne_nil (mt String.toList_eq_nil_iff.mp hne)
    rw [String.lt_iff_toList_lt, hc]
    exact List.nil_lt_cons c rest
  · by_cases hid : id = ""
    · simp [hid, hempty]
    · simp [hid, hmem id hid]

/-- Two sets with one salt differ, if at all, in an id that can be the name of a variable. -/
theorem exists_mem_of_salt_eq (hne : globals ≠ globals') (hsalt : salt globals = salt globals') :
    ∃ id ≠ "", (id ∈ globals ∧ id ∉ globals') ∨ (id ∉ globals ∧ id ∈ globals') := by
  by_contra hnone
  have hmem : ∀ id ≠ "", id ∈ globals ↔ id ∈ globals' := by
    intro id hid
    by_contra hdiffer
    exact hnone ⟨id, hid, by tauto⟩
  have hempty : ¬("" ∈ globals ↔ "" ∈ globals') := fun hiff =>
    hne (h.eq_of_mem_iff h' fun id => (eq_or_ne id "").elim (fun hid => hid ▸ hiff) (hmem id))
  -- sets that differ in the empty id alone have salts of different lengths
  have hlength := congrArg List.length hsalt
  by_cases hin : "" ∈ globals
  · rw [h.eq_cons_of_empty_mem h' hin (by tauto) hmem, salt_cons, List.length_cons,
      List.length_append] at hlength
    omega
  · rw [h'.eq_cons_of_empty_mem h (by tauto) hin fun id hid => (hmem id hid).symm, salt_cons,
      List.length_cons, List.length_append] at hlength
    omega

end Sets

end Tabletop
