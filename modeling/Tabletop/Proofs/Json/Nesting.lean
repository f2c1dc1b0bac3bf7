import Tabletop.Json.Format
import Tabletop.Proofs.Json.Numerals
import Tabletop.Proofs.Keyed

/-! Compact texts are read back as the documents that they were written for, as long as no more
arrays and objects stand inside one another than the reader has room for; one that is nested deeper
is refused for that. -/

namespace Tabletop

namespace Document

mutual

/-- How many arrays and objects stand inside one another. -/
def depth : Document → Nat
  | array items => depthItems items + 1
  | object members => depthMembers members + 1
  | _ => 0

def depthItems : List Document → Nat
  | [] => 0
  | d :: rest => max d.depth (depthItems rest)

def depthMembers : List (String × Document) → Nat
  | [] => 0
  | (_, d) :: rest => max d.depth (depthMembers rest)

end

mutual

/-- The numbers in a document. -/
def numbers : Document → List Number
  | number n => [n]
  | array items => numbersItems items
  | object members => numbersMembers members
  | _ => []

def numbersItems : List Document → List Number
  | [] => []
  | d :: rest => d.numbers ++ numbersItems rest

def numbersMembers : List (String × Document) → List Number
  | [] => []
  | (_, d) :: rest => d.numbers ++ numbersMembers rest

end

theorem depthMembers_eq (members : List (String × Document)) :
    depthMembers members = depthItems (members.map (·.2)) := by
  induction members with
  | nil => rfl
  | cons m rest ih => exact congrArg (max m.2.depth) ih

theorem numbersMembers_eq (members : List (String × Document)) :
    numbersMembers members = numbersItems (members.map (·.2)) := by
  induction members with
  | nil => rfl
  | cons m rest ih => exact congrArg (m.2.numbers ++ ·) ih

theorem depthItems_le {items : List Document} {k : Nat} :
    depthItems items ≤ k ↔ ∀ d ∈ items, d.depth ≤ k := by
  induction items with
  | nil => simp [depthItems]
  | cons d rest ih => simp [depthItems, ih]

theorem depthMembers_le {members : List (String × Document)} {k : Nat} :
    depthMembers members ≤ k ↔ ∀ m ∈ members, m.2.depth ≤ k := by
  rw [depthMembers_eq, depthItems_le, List.forall_mem_map]

theorem mem_numbersItems {items : List Document} {n : Number} :
    n ∈ numbersItems items ↔ ∃ d ∈ items, n ∈ d.numbers := by
  induction items with
  | nil => simp [numbersItems]
  | cons d rest ih => simp [numbersItems, ih]

theorem mem_numbersMembers {members : List (String × Document)} {n : Number} :
    n ∈ numbersMembers members ↔ ∃ m ∈ members, n ∈ m.2.numbers := by
  simp only [numbersMembers_eq, mem_numbersItems, List.mem_map, exists_exists_and_eq_and]

/-- The texts of some elements, the first of them behind a comma unless it comes first in all. -/
def listed {α : Type} (first : Bool) (text : List α → String) (xs : List α) : List Char :=
  if first then (text xs).toList else after text xs

end Document

namespace Json

open Document (compactItems compactMembers depthItems depthMembers listed after quoted)

/-! ### Shapes -/

/-- How often the same place is looked at before something of a shape is read. -/
def Shape.steps : Shape → Nat
  | .maybe s => s.steps + 1
  | .any | .same => 1
  | _ => 0

/-- Documents that have a shape, within a structure around them. -/
inductive Fits : Shape → Shape → Document → Prop where
  | text {around : Shape} (s : String) : Fits around .text (.string s)
  | plain {around : Shape} {d : Document} : d.depth = 0 → Fits around .any d
  | anyItems {around : Shape} {items : List Document} : Fits around (.list .any) (.array items) →
    Fits around .any (.array items)
  | anyMembers {around : Shape} {members : List (String × Document)} :
    Fits around (.entries .any) (.object members) → Fits around .any (.object members)
  | list {around inner : Shape} {items : List Document} : (∀ d ∈ items, Fits around inner d) →
    Fits around (.list inner) (.array items)
  | entries {around inner : Shape} {members : List (String × Document)} :
    (∀ m ∈ members, Fits around inner m.2) → Fits around (.entries inner) (.object members)
  | record {around : Shape} {type : String} {needed optional : List (String × Shape)}
    {members : List (String × Document)} : (Keyed.keys members).Nodup →
    (∀ f ∈ needed, f.1 ∈ Keyed.keys members) →
    (∀ k ∈ Keyed.keys members, k ∈ Keyed.keys (needed ++ optional)) →
    (∀ m ∈ members, ∀ inner, (needed ++ optional).lookup m.1 = some inner →
      Fits (.record type needed optional) inner m.2) →
    Fits around (.record type needed optional) (.object members)
  | same {around : Shape} {d : Document} : around.steps = 0 → Fits around around d →
    Fits around .same d
  | maybe {around inner : Shape} {d : Document} : inner.steps ≤ 4 → d.opening ≠ 'n' →
    Fits around inner d → Fits around (.maybe inner) d

mutual

/-- Any document stands where anything may. -/
theorem fits_any {around : Shape} : (d : Document) → Fits around .any d
  | .array items => .anyItems (.list (fits_items items))
  | .object members => .anyMembers (.entries (fits_members members))
  | .null | .bool _ | .number _ | .string _ => .plain rfl

theorem fits_items {around : Shape} : (items : List Document) → ∀ d ∈ items, Fits around .any d
  | [] => nofun
  | d :: items => List.forall_mem_cons.mpr ⟨fits_any d, fits_items items⟩

theorem fits_members {around : Shape} : (members : List (String × Document)) →
    ∀ m ∈ members, Fits around .any m.2
  | [] => nofun
  | (_, d) :: members => List.forall_mem_cons.mpr ⟨fits_any d, fits_members members⟩

end

/-! ### Readings -/

/-- Reading gives a value where there is room for it, and fails for want of room where not. -/
structure Gives {α : Type} (room : Prop) (r : Reading α) (a : α) : Prop where
  ok : room → r = .ok a
  deep : ¬room → ∃ place, r = failNext .nestedTooDeep place

section Gives

variable {α β : Type} {p q : Prop} {r : Reading α} {a : α} {b : β}

theorem Gives.of_ok (hp : p) (h : r = .ok a) : Gives p r a := ⟨fun _ => h, fun hn => absurd hp hn⟩

theorem Gives.congr (h : Gives p r a) (hpq : p ↔ q) : Gives q r a :=
  ⟨fun hq => h.ok (hpq.mpr hq), fun hn => h.deep (mt hpq.mp hn)⟩

theorem Gives.bind {k : α → Reading β} (h : Gives p r a) (hk : Gives q (k a) b) :
    Gives (p ∧ q) (r >>= k) b := by
  constructor
  · rintro ⟨hp, hq⟩
    rw [h.ok hp]
    exact hk.ok hq
  · intro hn
    by_cases hp : p
    · rw [h.ok hp]
      exact hk.deep fun hq => hn ⟨hp, hq⟩
    · obtain ⟨place, hr⟩ := h.deep hp
      exact ⟨place, by rw [hr]; rfl⟩

theorem Gives.map {f : α → β} (h : Gives p r a) : Gives p (r >>= fun a => pure (f a)) (f a) :=
  have hpure : Gives True ((fun a => pure (f a) : α → Reading β) a) (f a) := .of_ok trivial rfl
  (h.bind hpure).congr (and_iff_left trivial)

/-- What stands inside a bracket has less room. -/
theorem Gives.enter {room depth : Nat} {s : List Char} {k : Nat → Reading α}
    (h : Gives (depth ≤ room - 1) (k (room - 1)) a) :
    Gives (depth + 1 ≤ room) (if room = 0 then failNext .nestedTooDeep s else k (room - 1)) a := by
  by_cases hroom : room = 0
  · rw [if_pos hroom]
    exact ⟨fun hle => by omega, fun _ => ⟨s, rfl⟩⟩
  · rw [if_neg hroom]
    exact h.congr (by omega)

end Gives

/-! ### Blanks and separators -/

theorem isSpace_eq_false {c : Char} {d : Document} (h : Document.openingOf c = d.opening) :
    isSpace c = false := by
  cases hc : isSpace c with
  | false => rfl
  | true =>
    simp only [isSpace, Bool.or_eq_true, beq_iff_eq] at hc
    rcases hc with ((rfl | rfl) | rfl) | rfl <;> rcases d with _ | (_ | _) | _ | _ | _ | _ <;>
      cases h

theorem skipSpace_compact (d : Document) (rest : List Char) :
    skipSpace (d.compact.toList ++ rest) = d.compact.toList ++ rest := by
  obtain ⟨c, text, htext, hc⟩ := d.compact_head
  rw [htext, List.cons_append, skipSpace, List.dropWhile_cons_of_neg]
  simp [isSpace_eq_false hc]

theorem skipSpace_cons {c : Char} (h : isSpace c = false) (rest : List Char) :
    skipSpace (c :: rest) = c :: rest :=
  List.dropWhile_cons_of_neg (by simp [h])

variable {rest : List Char} {first : Bool} {around : Shape} {d : Document}

theorem nextItem_nil : nextItem first (listed first compactItems [] ++ ']' :: rest) =
    .ok (false, rest) := by
  cases first <;> rfl

theorem nextItem_cons (items : List Document) :
    nextItem first (listed first compactItems (d :: items) ++ rest) =
      .ok (true, d.compact.toList ++ (after compactItems items ++ rest)) := by
  obtain ⟨c, text, htext, hc⟩ := d.compact_head
  have hspace := isSpace_eq_false hc
  have hclose : c ≠ ']' := by
    rintro rfl
    rcases d with _ | (_ | _) | _ | _ | _ | _ <;> cases hc
  have htail : (compactItems (d :: items)).toList ++ rest =
      c :: (text ++ (after compactItems items ++ rest)) := by
    rw [Document.toList_compactItems_cons, htext]
    simp
  rw [htext, List.cons_append]
  cases first with
  | true =>
    rw [listed, if_pos rfl, htail, nextItem, skipSpace_cons hspace]
    simp
  | false =>
    rw [listed, if_neg Bool.false_ne_true, after, if_neg (List.cons_ne_nil _ _), List.cons_append,
      htail, nextItem, skipSpace_cons rfl]
    simp [skipSpace_cons hspace, hclose]

theorem nextKey_nil : nextKey first (listed first compactMembers [] ++ '\x7d' :: rest) =
    .ok (none, rest) := by
  cases first <;> rfl

theorem nextKey_cons (k : String) (members : List (String × Document)) :
    nextKey first (listed first compactMembers ((k, d) :: members) ++ rest) =
      .ok (some k, ':' :: (d.compact.toList ++ (after compactMembers members ++ rest))) := by
  have hkey : nextKey.key ((quoted k).toList.tail ++
      ':' :: (d.compact.toList ++ (after compactMembers members ++ rest))) =
      .ok (some k, ':' :: (d.compact.toList ++ (after compactMembers members ++ rest))) := by
    rw [nextKey.key, Document.readText_quoted]
    rfl
  have htail : (compactMembers ((k, d) :: members)).toList ++ rest = '"' ::
      ((quoted k).toList.tail ++
        ':' :: (d.compact.toList ++ (after compactMembers members ++ rest))) := by
    rw [Document.toList_compactMembers_cons, Document.toList_quoted]
    simp
  rw [← hkey]
  cases first with
  | true =>
    rw [listed, if_pos rfl, htail]
    rfl
  | false =>
    rw [listed, if_neg Bool.false_ne_true, after, if_neg (List.cons_ne_nil _ _), List.cons_append,
      htail]
    rfl

theorem ends_after {α : Type} {text : List α → String} {xs : List α} {close : Char}
    (hclose : close = ']' ∨ close = '\x7d') : Ends (after text xs ++ close :: rest) := by
  cases xs with
  | nil => exact ends_cons (.inr hclose)
  | cons x xs => exact ends_cons (.inl rfl)

/-! ### Values -/

theorem readPlain_compact (hdepth : d.depth = 0) (hnumbers : ∀ n ∈ d.numbers, n.ReadsBack)
    (h : Ends rest) : readPlain (d.compact.toList ++ rest) = .ok (d, rest) := by
  cases d with
  | null => rfl
  | bool b => cases b <;> rfl
  | number n => exact (hnumbers n (List.mem_singleton_self n)).append h
  | string s =>
    have hread := Document.readText_quoted s rest
    rw [Document.toList_quoted, List.tail_cons] at hread
    rw [Document.compact, Document.toList_quoted, List.cons_append]
    show (readText _ >>= fun p => pure (Document.string p.1, p.2)) = _
    rw [hread]
    rfl
  | array items => nomatch hdepth
  | object members => nomatch hdepth

/-- The text of a document is read as of a shape, with whatever room there is. The fuel counts the
calls, of which at most six come between two characters. -/
structure ReadsAs (around shape : Shape) (d : Document) : Prop where
  steps_le : shape.steps ≤ 5
  gives : ∀ fuel room rest, Ends rest → 6 * d.compact.toList.length + shape.steps ≤ fuel →
    Gives (d.depth ≤ room) (readValue around fuel room shape (d.compact.toList ++ rest)) (d, rest)

/-! ### Lists and objects -/

section Lists

variable {inner : Shape} {items : List Document} {members : List (String × Document)}
  {fields : List (String × Shape)}

theorem length_compact_pos (d : Document) : 0 < d.compact.toList.length := by
  obtain ⟨c, text, htext, -⟩ := d.compact_head
  rw [htext]
  exact Nat.zero_lt_succ _

theorem length_le_listed {α : Type} {text : List α → String} {x : α} {xs : List α} :
    (text (x :: xs)).toList.length ≤ (listed first text (x :: xs)).length := by
  cases first with
  | true => exact Nat.le_refl _
  | false => exact Nat.le_succ _

theorem length_le_listed_items (first : Bool) (d : Document) (items : List Document) :
    d.compact.toList.length + (after compactItems items).length ≤
      (listed first compactItems (d :: items)).length := by
  rw [← List.length_append, ← Document.toList_compactItems_cons]
  exact length_le_listed

theorem length_lt_listed_members (first : Bool) (k : String) (d : Document)
    (members : List (String × Document)) :
    d.compact.toList.length + (after compactMembers members).length <
      (listed first compactMembers ((k, d) :: members)).length := by
  refine lt_of_lt_of_le ?_ length_le_listed
  rw [Document.toList_compactMembers_cons]
  simp only [List.length_append, List.length_cons]
  omega

theorem readItems_listed (h : ∀ d ∈ items, ReadsAs around inner d) (fuel room : Nat) (first : Bool)
    (hfuel : 6 * (listed first compactItems items).length + 6 ≤ fuel) :
    Gives (depthItems items ≤ room)
      (readItems around fuel room inner first (listed first compactItems items ++ ']' :: rest))
      (items, rest) := by
  induction items generalizing fuel first with
  | nil =>
    obtain _ | fuel := fuel
    · omega
    · refine .of_ok (Nat.zero_le room) ?_
      rw [readItems, nextItem_nil]
      rfl
  | cons d items ih =>
    obtain ⟨hd, hitems⟩ := List.forall_mem_cons.mp h
    have hsteps := hd.steps_le
    have hpos := length_compact_pos d
    have hlength := length_le_listed_items first d items
    obtain _ | fuel := fuel
    · omega
    · have hfirst := hd.gives fuel room (after compactItems items ++ ']' :: rest)
        (ends_after (.inl rfl)) (by omega)
      have hlater := ih hitems fuel false (show 6 * (after compactItems items).length + 6 ≤ fuel by
        omega)
      rw [readItems, nextItem_cons]
      refine (hfirst.bind (k := fun p => readItems around fuel room inner false p.2 >>=
        fun q => pure (p.1 :: q.1, q.2)) hlater.map).congr ?_
      exact max_le_iff.symm

theorem readEntries_listed (h : ∀ m ∈ members, ReadsAs around inner m.2) (fuel room : Nat)
    (first : Bool) (hfuel : 6 * (listed first compactMembers members).length + 6 ≤ fuel) :
    Gives (depthMembers members ≤ room)
      (readEntries around fuel room inner first
        (listed first compactMembers members ++ '\x7d' :: rest))
      (members, rest) := by
  induction members generalizing fuel first with
  | nil =>
    obtain _ | fuel := fuel
    · omega
    · refine .of_ok (Nat.zero_le room) ?_
      rw [readEntries, nextKey_nil]
      rfl
  | cons m members ih =>
    obtain ⟨k, d⟩ := m
    obtain ⟨(hd : ReadsAs around inner d), hmembers⟩ := List.forall_mem_cons.mp h
    have hsteps := hd.steps_le
    have hlength := length_lt_listed_members first k d members
    obtain _ | fuel := fuel
    · omega
    · have hfirst := hd.gives fuel room (after compactMembers members ++ '\x7d' :: rest)
        (ends_after (.inr rfl)) (by omega)
      have hlater := ih hmembers fuel false
        (show 6 * (after compactMembers members).length + 6 ≤ fuel by omega)
      rw [readEntries, nextKey_cons]
      refine (hfirst.bind (k := fun p => readEntries around fuel room inner false p.2 >>=
        fun q => pure ((k, p.1) :: q.1, q.2)) hlater.map).congr ?_
      exact max_le_iff.symm

theorem readMembers_listed (hkeys : (Keyed.keys members).Nodup)
    (h : ∀ m ∈ members, ∃ inner, fields.lookup m.1 = some inner ∧ ReadsAs around inner m.2)
    (fuel room : Nat) (seen : List String) (hseen : ∀ k ∈ Keyed.keys members, k ∉ seen)
    (first : Bool) (hfuel : 6 * (listed first compactMembers members).length + 6 ≤ fuel) :
    Gives (depthMembers members ≤ room)
      (readMembers around fuel room fields seen first
        (listed first compactMembers members ++ '\x7d' :: rest))
      (members, rest) := by
  induction members generalizing fuel seen first with
  | nil =>
    obtain _ | fuel := fuel
    · omega
    · refine .of_ok (Nat.zero_le room) ?_
      rw [readMembers, nextKey_nil]
      rfl
  | cons m members ih =>
    obtain ⟨k, d⟩ := m
    obtain ⟨⟨inner, hinner, (hd : ReadsAs around inner d)⟩, hmembers⟩ := List.forall_mem_cons.mp h
    obtain ⟨hk, hkeys⟩ := List.nodup_cons.mp hkeys
    obtain ⟨hnew, hseen⟩ := List.forall_mem_cons.mp hseen
    have hsteps := hd.steps_le
    have hlength := length_lt_listed_members first k d members
    have hseen' : ∀ k' ∈ Keyed.keys members, k' ∉ k :: seen := fun k' hk' hmem =>
      (List.mem_cons.mp hmem).elim (fun heq => hk (heq ▸ hk')) (hseen k' hk')
    obtain _ | fuel := fuel
    · omega
    · -- no key comes twice, so none of those to come is among those seen
      have hfirst := hd.gives fuel room (after compactMembers members ++ '\x7d' :: rest)
        (ends_after (.inr rfl)) (by omega)
      have hlater := ih hkeys hmembers fuel (k :: seen) hseen' false
        (show 6 * (after compactMembers members).length + 6 ≤ fuel by omega)
      have hnew : seen.contains k = false := by simpa using hnew
      rw [readMembers, nextKey_cons]
      simp only [bind, Except.bind, hinner, hnew]
      refine (hfirst.bind (k := fun p =>
        readMembers around fuel room fields (k :: seen) false p.2 >>=
          fun q => pure ((k, p.1) :: q.1, q.2)) hlater.map).congr ?_
      exact max_le_iff.symm

theorem recordOfMembers_eq {needed : List (String × Shape)}
    (h : ∀ f ∈ needed, f.1 ∈ Keyed.keys members) :
    recordOfMembers needed members rest = .ok (.object members, rest) := by
  have hnone : (needed.find? fun f => (members.lookup f.1).isNone) = none := by
    refine List.find?_eq_none.mpr fun f hf hlookup => ?_
    exact Keyed.lookup_eq_none.mp (Option.isNone_iff_eq_none.mp hlookup) (h f hf)
  rw [recordOfMembers, hnone]

end Lists

/-! ### Documents of a shape -/

/-- Reading of a shape starts at the first character of the text. -/
theorem ReadsAs.intro {shape : Shape} (hsteps : shape.steps ≤ 5)
    (h : ∀ fuel room rest, Ends rest → 6 * d.compact.toList.length + shape.steps ≤ fuel + 1 →
      Gives (d.depth ≤ room)
        (readValue around (fuel + 1) room shape (d.compact.toList ++ rest)) (d, rest)) :
    ReadsAs around shape d where
  steps_le := hsteps
  gives fuel room rest hrest hfuel := by
    obtain _ | fuel := fuel
    · have hpos := length_compact_pos d
      omega
    · exact h fuel room rest hrest hfuel

theorem compact_array_append (items : List Document) :
    (Document.array items).compact.toList ++ rest =
      '[' :: (listed true compactItems items ++ ']' :: rest) := by
  simp [Document.compact, listed]

theorem compact_object_append (members : List (String × Document)) :
    (Document.object members).compact.toList ++ rest =
      '\x7b' :: (listed true compactMembers members ++ '\x7d' :: rest) := by
  simp [Document.compact, listed]

theorem length_compact_array (items : List Document) :
    (Document.array items).compact.toList.length = (listed true compactItems items).length + 2 := by
  simp [Document.compact, listed]

theorem length_compact_object (members : List (String × Document)) :
    (Document.object members).compact.toList.length =
      (listed true compactMembers members).length + 2 := by
  simp [Document.compact, listed]

theorem opening_eq_openingOf {c : Char} {more : List Char}
    (h : d.compact.toList ++ rest = c :: more) : d.opening = Document.openingOf c := by
  obtain ⟨c', text, htext, hc⟩ := d.compact_head
  rw [htext] at h
  rw [← hc, (List.cons.inj h).1]

section ReadsAs

variable {inner : Shape} {items : List Document} {members : List (String × Document)}

theorem ReadsAs.text (s : String) : ReadsAs around .text (.string s) := by
  refine .intro (Nat.zero_le _) fun fuel room rest hrest hfuel => .of_ok (Nat.zero_le room) ?_
  have hread := readPlain_compact (d := .string s) rfl (List.forall_mem_nil _) hrest
  rw [readValue, skipSpace_compact]
  simp only [readKind, skipSpace_compact]
  split
  · next heq => cases opening_eq_openingOf heq
  · next heq => cases opening_eq_openingOf heq
  · rw [hread]
    rfl

theorem ReadsAs.plain (hdepth : d.depth = 0) (hnumbers : ∀ n ∈ d.numbers, n.ReadsBack) :
    ReadsAs around .any d := by
  refine .intro (by decide) fun fuel room rest hrest hfuel => .of_ok (hdepth ▸ Nat.zero_le room) ?_
  rw [readValue, skipSpace_compact]
  split
  · next heq =>
    have hopening := opening_eq_openingOf heq
    rcases d with _ | (_ | _) | _ | _ | _ | _ <;> cases hopening
    cases hdepth
  · next heq =>
    have hopening := opening_eq_openingOf heq
    rcases d with _ | (_ | _) | _ | _ | _ | _ <;> cases hopening
    cases hdepth
  · exact readPlain_compact hdepth hnumbers hrest

theorem ReadsAs.anyItems (h : ReadsAs around (.list .any) (.array items)) :
    ReadsAs around .any (.array items) := by
  refine .intro (by decide) fun fuel room rest hrest hfuel => ?_
  have hread := h.gives fuel room rest hrest (Nat.le_of_succ_le_succ hfuel)
  rw [readValue, skipSpace_compact]
  rw [compact_array_append] at hread ⊢
  exact hread

theorem ReadsAs.anyMembers (h : ReadsAs around (.entries .any) (.object members)) :
    ReadsAs around .any (.object members) := by
  refine .intro (by decide) fun fuel room rest hrest hfuel => ?_
  have hread := h.gives fuel room rest hrest (Nat.le_of_succ_le_succ hfuel)
  rw [readValue, skipSpace_compact]
  rw [compact_object_append] at hread ⊢
  exact hread

theorem ReadsAs.list (h : ∀ d ∈ items, ReadsAs around inner d) :
    ReadsAs around (.list inner) (.array items) := by
  refine .intro (Nat.zero_le _) fun fuel room rest hrest hfuel => ?_
  rw [length_compact_array] at hfuel
  rw [compact_array_append, readValue, skipSpace_cons rfl]
  exact Gives.enter (k := fun room => readItems around fuel room inner true _ >>= fun p =>
    pure (Document.array p.1, p.2)) (readItems_listed h fuel (room - 1) true (by omega)).map

theorem ReadsAs.entries (h : ∀ m ∈ members, ReadsAs around inner m.2) :
    ReadsAs around (.entries inner) (.object members) := by
  refine .intro (Nat.zero_le _) fun fuel room rest hrest hfuel => ?_
  rw [length_compact_object] at hfuel
  rw [compact_object_append, readValue, skipSpace_cons rfl]
  exact Gives.enter (k := fun room => readEntries around fuel room inner true _ >>= fun p =>
    pure (Document.object p.1, p.2)) (readEntries_listed h fuel (room - 1) true (by omega)).map

theorem ReadsAs.record {type : String} {needed optional : List (String × Shape)}
    (hkeys : (Keyed.keys members).Nodup) (hneeded : ∀ f ∈ needed, f.1 ∈ Keyed.keys members)
    (h : ∀ m ∈ members, ∃ inner, (needed ++ optional).lookup m.1 = some inner ∧
      ReadsAs (.record type needed optional) inner m.2) :
    ReadsAs around (.record type needed optional) (.object members) := by
  refine .intro (Nat.zero_le _) fun fuel room rest hrest hfuel => ?_
  rw [length_compact_object] at hfuel
  rw [compact_object_append, readValue, skipSpace_cons rfl]
  have hrecord : Gives True (recordOfMembers needed members rest) (.object members, rest) :=
    .of_ok trivial (recordOfMembers_eq hneeded)
  have hseen : ∀ k ∈ Keyed.keys members, k ∉ [] := fun _ _ => List.not_mem_nil
  have hmembers := (readMembers_listed hkeys h fuel (room - 1) [] hseen true (by omega)).bind
    (k := fun p => recordOfMembers needed p.1 p.2) hrecord
  exact Gives.enter (k := fun room => readMembers (.record type needed optional) fuel room
    (needed ++ optional) [] true _ >>= fun p => recordOfMembers needed p.1 p.2)
    (hmembers.congr (and_iff_left trivial))

theorem ReadsAs.same (hsteps : around.steps = 0) (h : ReadsAs around around d) :
    ReadsAs around .same d := by
  refine .intro (by decide) fun fuel room rest hrest hfuel => ?_
  rw [readValue, skipSpace_compact]
  exact h.gives fuel room rest hrest (hsteps ▸ Nat.le_of_succ_le_succ hfuel)

theorem ReadsAs.maybe (hsteps : inner.steps ≤ 4) (hopening : d.opening ≠ 'n')
    (h : ReadsAs around inner d) : ReadsAs around (.maybe inner) d := by
  refine .intro (Nat.succ_le_succ hsteps) fun fuel room rest hrest hfuel => ?_
  rw [readValue, skipSpace_compact]
  split
  · next heq => exact absurd (opening_eq_openingOf heq) hopening
  · exact h.gives fuel room rest hrest (Nat.le_of_succ_le_succ hfuel)

end ReadsAs

/-- The text of a document that has a shape is read as of it. -/
theorem Fits.readsAs {shape : Shape} (h : Fits around shape d)
    (hnumbers : ∀ n ∈ d.numbers, n.ReadsBack) : ReadsAs around shape d := by
  induction h with
  | text s => exact .text s
  | plain hdepth => exact .plain hdepth hnumbers
  | anyItems _ ih => exact (ih hnumbers).anyItems
  | anyMembers _ ih => exact (ih hnumbers).anyMembers
  | list _ ih =>
    exact .list fun d hd => ih d hd fun n hn =>
      hnumbers n (Document.mem_numbersItems.mpr ⟨d, hd, hn⟩)
  | entries _ ih =>
    exact .entries fun m hm => ih m hm fun n hn =>
      hnumbers n (Document.mem_numbersMembers.mpr ⟨m, hm, hn⟩)
  | record hkeys hneeded hdeclared _ ih =>
    refine .record hkeys hneeded fun m hm => ?_
    obtain ⟨inner, hinner⟩ := Option.ne_none_iff_exists'.mp
      (mt Keyed.lookup_eq_none.mp (not_not_intro (hdeclared m.1 (List.mem_map_of_mem hm))))
    exact ⟨inner, hinner, ih m hm inner hinner fun n hn =>
      hnumbers n (Document.mem_numbersMembers.mpr ⟨m, hm, hn⟩)⟩
  | same hsteps _ ih => exact (ih hnumbers).same hsteps
  | maybe hsteps hopening _ ih => exact (ih hnumbers).maybe hsteps hopening

end Json

namespace Format

open Json (Fits)

variable {α : Type} {f : Format α} {d : Document} {a : α}

theorem decode_of_read {text : String} (h : f.read text = .ok a) : ∃ d, f.decode d = some a := by
  simp only [read, bind, Except.bind] at h
  split at h
  · cases h
  · next v _ =>
    refine ⟨v.1, ?_⟩
    split at h
    · cases h
    · next b hb =>
      split at h
      · cases h
      · cases h
        exact hb

theorem readFirst_compact (h : Fits f.shape f.shape d) (hnumbers : ∀ n ∈ d.numbers, n.ReadsBack) :
    Json.Gives (d.depth ≤ Json.deepest) (Json.readFirst f.shape d.compact.toList) (d, []) := by
  have hreads := h.readsAs hnumbers
  have hsteps := hreads.steps_le
  have hread := hreads.gives (6 * d.compact.toList.length + 6) Json.deepest [] nofun (by omega)
  rwa [List.append_nil] at hread

/-- The text of a document that has the shape of the type, and stands for a value of it, is read as
this value. -/
theorem read_compact (h : Fits f.shape f.shape d) (hnumbers : ∀ n ∈ d.numbers, n.ReadsBack)
    (hdepth : d.depth ≤ Json.deepest) (hd : f.decode d = some a) : f.read d.compact = .ok a := by
  simp only [read, (readFirst_compact h hnumbers).ok hdepth, Except.mapError, bind, Except.bind, hd]
  rfl

/-- Where it is nested too deep it is refused. -/
theorem read_compact_deep (h : Fits f.shape f.shape d) (hnumbers : ∀ n ∈ d.numbers, n.ReadsBack)
    (hdepth : Json.deepest < d.depth) : ∃ place, f.read d.compact =
      .error (Json.ReadError.message d.compact ⟨.nestedTooDeep, place, 1⟩) := by
  obtain ⟨place, hread⟩ := (readFirst_compact h hnumbers).deep (Nat.not_le_of_lt hdepth)
  exact ⟨place, by simp only [read, hread]; rfl⟩

end Format

end Tabletop
