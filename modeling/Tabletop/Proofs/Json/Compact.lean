import Tabletop.Json.Token
import Tabletop.Json.Writer
import Tabletop.Proofs.Decimal.Layout

/-! Compact texts are read in one way only: two documents of one text are the same, also where more
text follows. No character of them is a control character. -/

namespace Tabletop

open Json (escapedBy? hexDigit? readHex readCode readEscape readString readText)

/-! ### Strings -/

namespace Document

/-- The four digits of a control character. -/
theorem hexDigits_control {n : Nat} (h : n < 0x20) :
    let digits := Nat.toDigits 16 n
    let code := List.replicate (4 - digits.length) '0' ++ digits
    code.length = 4 ∧ code.mapM hexDigit? = some [0, 0, n / 16, n % 16] := by
  revert h n
  decide +kernel

theorem readCode_control {c : Char} (h : c.toNat < 0x20) (rest : List Char) :
    readCode ((escapedControl c).drop 2 ++ rest) = .ok (c, rest) := by
  obtain ⟨hlength, hcode⟩ := hexDigits_control h
  set code := List.replicate (4 - (Nat.toDigits 16 c.toNat).length) '0' ++ Nat.toDigits 16 c.toNat
  have hread : readHex (code ++ rest) = .ok (c.toNat, rest) := by
    simp only [readHex, List.take_left' hlength, List.drop_left' hlength, hcode]
    congr 2
    omega
  have hdrop : (escapedControl c).drop 2 = code := rfl
  have htrailing : Json.isTrailing c.toNat = false := by
    simp only [Json.isTrailing, Bool.and_eq_false_imp, decide_eq_true_eq]
    omega
  have hleading : Json.isLeading c.toNat = false := by
    simp only [Json.isLeading, Bool.and_eq_false_imp, decide_eq_true_eq]
    omega
  simp only [readCode, hdrop, hread, bind, Except.bind, htrailing, hleading, Char.ofNat_toNat]
  rfl

/-- What is written for a character: an escape by a letter, its code, or itself. -/
theorem escaped_cases (c : Char) :
    (∃ k, escaped c = ['\\', k] ∧ escapedBy? k = some c) ∨
    (escaped c = escapedControl c ∧ c.toNat < 0x20) ∨
    (escaped c = [c] ∧ c ≠ '"' ∧ c ≠ '\\' ∧ ¬c.toNat < 0x20) := by
  have code {n : Nat} {d : Char} (hn : c.toNat = n) (hd : d.toNat = n) : some d = some c :=
    congrArg some (Char.toNat_inj.mp (hd.trans hn.symm))
  rw [escaped]
  split
  · next h => exact .inl ⟨'"', rfl, congrArg some h.symm⟩
  split
  · next h => exact .inl ⟨'\\', rfl, congrArg some h.symm⟩
  split
  · next h => exact .inl ⟨'n', rfl, congrArg some h.symm⟩
  split
  · next h => exact .inl ⟨'r', rfl, congrArg some h.symm⟩
  split
  · next h => exact .inl ⟨'t', rfl, congrArg some h.symm⟩
  split
  · next h => exact .inl ⟨'b', rfl, code h rfl⟩
  split
  · next h => exact .inl ⟨'f', rfl, code h rfl⟩
  split
  · next h => exact .inr (.inl ⟨rfl, h⟩)
  · next hquote hslash _ _ _ _ _ h => exact .inr (.inr ⟨rfl, hquote, hslash, h⟩)

/-- A character is read back from what is written for it. -/
theorem readString_escaped (c : Char) (fuel : Nat) (seen rest : List Char) :
    readString (fuel + 1) seen (escaped c ++ rest) = readString fuel (c :: seen) rest := by
  obtain ⟨k, hk, hc⟩ | ⟨hk, hc⟩ | ⟨hk, hquote, hslash, hc⟩ := escaped_cases c
  · have hread : readEscape (k :: rest) = .ok (c, rest) := by simp only [readEscape, hc]
    rw [hk, List.cons_append, readString, if_neg (by decide), if_pos rfl, List.singleton_append,
      hread]
    rfl
  · have hread : readEscape ('u' :: ((escapedControl c).drop 2 ++ rest)) = .ok (c, rest) :=
      readCode_control hc rest
    have hsplit : escapedControl c = '\\' :: 'u' :: (escapedControl c).drop 2 := rfl
    rw [hk, hsplit, List.cons_append, readString, if_neg (by decide), if_pos rfl, List.cons_append,
      hread]
    rfl
  · rw [hk, List.singleton_append, readString, if_neg hquote, if_neg hslash, if_neg hc]

theorem readString_flatMap_escaped {cs : List Char} {fuel : Nat} (hfuel : cs.length < fuel)
    (seen rest : List Char) : readString fuel seen (cs.flatMap escaped ++ '"' :: rest) =
      .ok (seen.reverse ++ cs, rest) := by
  induction cs generalizing fuel seen with
  | nil =>
    obtain ⟨fuel, rfl⟩ := Nat.exists_eq_add_of_lt hfuel
    simp [readString]
  | cons c cs ih =>
    obtain ⟨fuel, rfl⟩ := Nat.exists_eq_add_of_lt hfuel
    rw [List.flatMap_cons, List.append_assoc, readString_escaped, ih (by simp; omega)]
    simp

theorem length_le_flatMap_escaped (cs : List Char) : cs.length ≤ (cs.flatMap escaped).length := by
  induction cs with
  | nil => exact Nat.le_refl 0
  | cons c cs ih =>
    have hpos : 0 < (escaped c).length := by
      obtain ⟨k, hk, -⟩ | ⟨hk, -⟩ | ⟨hk, -⟩ := escaped_cases c <;> simp [hk, escapedControl]
    simp only [List.flatMap_cons, List.length_append, List.length_cons]
    omega

theorem toList_quoted (s : String) :
    (quoted s).toList = '"' :: (s.toList.flatMap escaped ++ ['"']) := String.toList_ofList

/-- A string is read back from what is written for it, whatever follows. -/
theorem readText_quoted (s : String) (rest : List Char) :
    readText ((quoted s).toList.tail ++ rest) = .ok (s, rest) := by
  have hlength := length_le_flatMap_escaped s.toList
  rw [toList_quoted, List.tail_cons, List.append_assoc, List.singleton_append, readText,
    readString_flatMap_escaped (by simp only [List.length_append]; omega)]
  simp [bind, Except.bind, pure, Except.pure]

theorem quoted_append_inj {s s' : String} {rest rest' : List Char}
    (h : (quoted s).toList ++ rest = (quoted s').toList ++ rest') : s = s' ∧ rest = rest' := by
  have htail : (quoted s).toList.tail ++ rest = (quoted s').toList.tail ++ rest' := by
    rw [toList_quoted, toList_quoted] at h ⊢
    exact List.tail_eq_of_cons_eq h
  have hread := congrArg readText htail
  rw [readText_quoted, readText_quoted] at hread
  exact Prod.mk.inj (Except.ok.inj hread)

end Document

/-! ### Numbers -/

namespace Number

open Decimal (isNumeric)

theorem text_integer (i : Int) : (text (.integer i)).toList =
    (if i < 0 then ['-'] else []) ++ Nat.toDigits 10 i.natAbs := by
  rw [text, Int.toString_eq_repr, Int.repr_eq_if]
  by_cases hi : i < 0
  · rw [if_neg (by omega), if_pos hi, show (-i).toNat = i.natAbs by omega]
    simp
  · rw [if_pos (by omega), if_neg hi, show i.toNat = i.natAbs by omega]
    simp

theorem mem_text_integer {i : Int} {c : Char} (h : c ∈ (text (.integer i)).toList) :
    c.isDigit ∨ c = '-' := by
  rw [text_integer] at h
  rcases List.mem_append.mp h with h | h
  · split at h
    · exact .inr (List.mem_singleton.mp h)
    · nomatch h
  · exact .inl (Decimal.isDigit_toDigits _ c h)

theorem isNumeric_text (n : Number) : ∀ c ∈ n.text.toList, isNumeric c := by
  cases n with
  | integer i =>
    intro c hc
    rcases mem_text_integer hc with hc | rfl
    · exact Decimal.isNumeric_of_isDigit hc
    · decide
  | double x => exact Decimal.isNumeric_render x

theorem text_head (n : Number) : ∃ c rest, n.text.toList = c :: rest ∧ (c.isDigit ∨ c = '-') := by
  cases n with
  | integer i =>
    have hne : (text (.integer i)).toList ≠ [] := by
      rw [text_integer]
      exact List.append_ne_nil_of_right_ne_nil _ Nat.toDigits_ne_nil
    obtain ⟨c, rest, hc⟩ := List.exists_cons_of_ne_nil hne
    exact ⟨c, rest, hc, mem_text_integer (by rw [hc]; exact List.mem_cons_self)⟩
  | double x => exact Decimal.render_head x

theorem text_integer_ne_double (i : Int) (x : Float) : text (.integer i) ≠ text (.double x) := by
  intro h
  have hdigits {c : Char} (hc : c ∈ (text (.double x)).toList) : c.isDigit ∨ c = '-' :=
    mem_text_integer (h ▸ hc)
  rcases Decimal.render_marked x with hc | hc
  · exact absurd (hdigits hc) (by decide)
  · exact absurd (hdigits hc) (by decide)

/-- No two numbers have one text; an integer and a double of one value differ in the point. -/
theorem text_injective : Function.Injective text := by
  intro n n' h
  cases n with
  | integer i => cases n' with
    | integer i' => rw [Int.repr_inj.mp h]
    | double x' => exact absurd h (text_integer_ne_double i x')
  | double x => cases n' with
    | integer i' => exact absurd h.symm (text_integer_ne_double i' x)
    | double x' => rw [Decimal.render_injective h]

end Number

/-! ### Documents -/

namespace Document

open Decimal (isNumeric)

/-- No text that would carry on a number. -/
def Apart (rest : List Char) : Prop := ∀ c ∈ rest.head?, isNumeric c = false

theorem apart_cons {c : Char} {rest : List Char} (h : isNumeric c = false) : Apart (c :: rest) := by
  rintro _ ⟨⟩
  exact h

theorem text_append_inj {n n' : Number} {rest rest' : List Char} (hr : Apart rest)
    (hr' : Apart rest') (h : n.text.toList ++ rest = n'.text.toList ++ rest') :
    n = n' ∧ rest = rest' := by
  have htake {n : Number} {rest : List Char} (hr : Apart rest) :
      (n.text.toList ++ rest).takeWhile isNumeric = n.text.toList := by
    rw [List.takeWhile_append_of_pos n.isNumeric_text]
    cases rest with
    | nil => exact List.append_nil _
    | cons c rest => rw [List.takeWhile_cons_of_neg (by simp [hr c rfl]), List.append_nil]
  have htext : n.text.toList = n'.text.toList := by rw [← htake hr, h, htake hr']
  rw [htext] at h
  exact ⟨Number.text_injective (String.toList_inj.mp htext), List.append_cancel_left h⟩

/-- The first character of a text; a zero stands for that of any number. -/
def opening : Document → Char
  | null => 'n'
  | bool true => 't'
  | bool false => 'f'
  | number _ => '0'
  | string _ => '"'
  | array _ => '['
  | object _ => '\x7b'

/-- The opening that a character is. -/
def openingOf (c : Char) : Char := if c.isDigit || c == '-' then '0' else c

theorem compact_head (d : Document) :
    ∃ c rest, d.compact.toList = c :: rest ∧ openingOf c = d.opening := by
  cases d with
  | null => exact ⟨'n', _, rfl, rfl⟩
  | bool b =>
    cases b
    · exact ⟨'f', _, rfl, rfl⟩
    · exact ⟨'t', _, rfl, rfl⟩
  | number n =>
    obtain ⟨c, rest, hc, hopens⟩ := n.text_head
    refine ⟨c, rest, by rw [compact, hc], if_pos ?_⟩
    simpa using hopens
  | string s => exact ⟨'"', _, by rw [compact, toList_quoted], rfl⟩
  | array items => exact ⟨'[', _, by simp only [compact, String.toList_append]; rfl, rfl⟩
  | object members => exact ⟨'\x7b', _, by simp only [compact, String.toList_append]; rfl, rfl⟩

theorem opening_eq {d d' : Document} {rest rest' : List Char}
    (h : d.compact.toList ++ rest = d'.compact.toList ++ rest') : d.opening = d'.opening := by
  obtain ⟨c, _, hc, hd⟩ := d.compact_head
  obtain ⟨c', _, hc', hd'⟩ := d'.compact_head
  rw [hc, hc'] at h
  rw [← hd, ← hd', (List.cons.inj h).1]

/-- A text does not start with what closes a list. -/
theorem compact_ne_close {d : Document} {rest rest' : List Char} :
    d.compact.toList ++ rest ≠ ']' :: rest' := by
  obtain ⟨c, _, hc, hd⟩ := d.compact_head
  rw [hc]
  intro h
  rw [(List.cons.inj h).1] at hd
  clear hc h
  rcases d with _ | (_ | _) | _ | _ | _ | _ <;> nomatch hd

/-- Two documents of one kind, which agree where they have no parts. -/
inductive Alike : Document → Document → Prop where
  | null : Alike null null
  | bool (b : Bool) : Alike (bool b) (bool b)
  | number (n n' : Number) : Alike (number n) (number n')
  | string (s s' : String) : Alike (string s) (string s')
  | array (items items' : List Document) : Alike (array items) (array items')
  | object (members members' : List (String × Document)) : Alike (object members) (object members')

theorem alike_of_opening {d d' : Document} (h : d.opening = d'.opening) : Alike d d' := by
  rcases d with _ | (_ | _) | _ | _ | _ | _ <;> rcases d' with _ | (_ | _) | _ | _ | _ | _ <;>
    first | constructor | nomatch h

/-- What follows an element before the list closes: the others, behind a comma. -/
def after {α : Type} (text : List α → String) (others : List α) : List Char :=
  if others = [] then [] else ',' :: (text others).toList

section After

variable {α : Type} {text : List α → String} {xs xs' : List α} {close : Char}
  {rest rest' : List Char}

theorem apart_after (hclose : isNumeric close = false) :
    Apart (after text xs ++ close :: rest) := by
  cases xs with
  | nil => exact apart_cons hclose
  | cons x xs => exact apart_cons rfl

theorem after_inj (hclose : close ≠ ',')
    (h : after text xs ++ close :: rest = after text xs' ++ close :: rest') :
    (text xs).toList ++ close :: rest = (text xs').toList ++ close :: rest' := by
  cases xs <;> cases xs'
  · rw [List.append_cancel_left h]
  · exact absurd (List.cons.inj h).1 hclose
  · exact absurd (List.cons.inj h).1 hclose.symm
  · exact List.tail_eq_of_cons_eq h

end After

theorem toList_compactItems_cons (d : Document) (items : List Document) :
    (compactItems (d :: items)).toList =
      d.compact.toList ++ after compactItems items := by
  cases items <;> simp [compactItems, after]

theorem toList_compactMembers_cons (k : String) (d : Document)
    (members : List (String × Document)) : (compactMembers ((k, d) :: members)).toList =
      (quoted k).toList ++ ':' :: (d.compact.toList ++ after compactMembers members) := by
  cases members <;> simp [compactMembers, after]

mutual

/-- A text is read in one way only, whatever follows that would not carry on a number. -/
theorem compact_append_inj : ∀ (d d' : Document) {rest rest' : List Char}, Apart rest →
    Apart rest' → d.compact.toList ++ rest = d'.compact.toList ++ rest' → d = d' ∧ rest = rest'
  | null => by
    intro d' rest rest' _ _ h
    cases alike_of_opening (opening_eq h) with
    | null => exact ⟨rfl, List.append_cancel_left h⟩
  | bool b => by
    intro d' rest rest' _ _ h
    cases alike_of_opening (opening_eq h) with
    | bool => exact ⟨rfl, List.append_cancel_left h⟩
  | number n => by
    intro d' rest rest' hr hr' h
    cases alike_of_opening (opening_eq h) with
    | number _ n' =>
      obtain ⟨rfl, hrest⟩ := text_append_inj hr hr' h
      exact ⟨rfl, hrest⟩
  | string s => by
    intro d' rest rest' _ _ h
    cases alike_of_opening (opening_eq h) with
    | string _ s' =>
      obtain ⟨rfl, hrest⟩ := quoted_append_inj h
      exact ⟨rfl, hrest⟩
  | array items => by
    intro d' rest rest' _ _ h
    cases alike_of_opening (opening_eq h) with
    | array _ items' =>
      simp only [compact, String.toList_append, List.append_assoc] at h
      obtain ⟨rfl, hrest⟩ := compactItems_append_inj items items' (List.append_cancel_left h)
      exact ⟨rfl, hrest⟩
  | object members => by
    intro d' rest rest' _ _ h
    cases alike_of_opening (opening_eq h) with
    | object _ members' =>
      simp only [compact, String.toList_append, List.append_assoc] at h
      obtain ⟨rfl, hrest⟩ := compactMembers_append_inj members members' (List.append_cancel_left h)
      exact ⟨rfl, hrest⟩

theorem compactItems_append_inj : ∀ (items items' : List Document) {rest rest' : List Char},
    (compactItems items).toList ++ ']' :: rest = (compactItems items').toList ++ ']' :: rest' →
    items = items' ∧ rest = rest'
  | [], [], _, _, h => ⟨rfl, by simpa [compactItems] using h⟩
  | [], d' :: items', _, _, h => by
    rw [toList_compactItems_cons, List.append_assoc] at h
    exact absurd h.symm compact_ne_close
  | d :: items, [], _, _, h => by
    rw [toList_compactItems_cons, List.append_assoc] at h
    exact absurd h compact_ne_close
  | d :: items, d' :: items', rest, rest', h => by
    rw [toList_compactItems_cons, toList_compactItems_cons, List.append_assoc,
      List.append_assoc] at h
    obtain ⟨rfl, hafter⟩ := compact_append_inj d d' (apart_after rfl) (apart_after rfl) h
    obtain ⟨rfl, hrest⟩ := compactItems_append_inj items items' (after_inj (by decide) hafter)
    exact ⟨rfl, hrest⟩

theorem compactMembers_append_inj : ∀ (members members' : List (String × Document))
    {rest rest' : List Char}, (compactMembers members).toList ++ '\x7d' :: rest =
      (compactMembers members').toList ++ '\x7d' :: rest' → members = members' ∧ rest = rest'
  | [], [], _, _, h => ⟨rfl, by simpa [compactMembers] using h⟩
  | [], (k', d') :: members', _, _, h => by
    rw [toList_compactMembers_cons, toList_quoted] at h
    nomatch (List.cons.inj h).1
  | (k, d) :: members, [], _, _, h => by
    rw [toList_compactMembers_cons, toList_quoted] at h
    nomatch (List.cons.inj h).1
  | (k, d) :: members, (k', d') :: members', rest, rest', h => by
    simp only [toList_compactMembers_cons, List.append_assoc, List.cons_append] at h
    obtain ⟨rfl, hvalue⟩ := quoted_append_inj h
    obtain ⟨rfl, hafter⟩ := compact_append_inj d d' (apart_after rfl) (apart_after rfl)
      (List.tail_eq_of_cons_eq hvalue)
    obtain ⟨rfl, hrest⟩ := compactMembers_append_inj members members'
      (after_inj (by decide) hafter)
    exact ⟨rfl, hrest⟩

end

/-- No two documents have one text. -/
theorem compact_injective : Function.Injective compact := fun d d' h =>
  (@compact_append_inj d d' [] [] nofun nofun (by rw [h])).1

/-! ### Control characters -/

/-- Not a control character. -/
abbrev Shown (c : Char) : Prop := 0x20 ≤ c.toNat

theorem shown_of_isNumeric {c : Char} (h : isNumeric c) : Shown c := by
  simp only [isNumeric, Bool.or_eq_true, beq_iff_eq, Char.isDigit, Bool.and_eq_true,
    decide_eq_true_eq] at h
  rcases h with (((h | rfl) | rfl) | rfl) | rfl
  · have hleast : 48 ≤ c.toNat := h.1
    exact (by decide : 0x20 ≤ 48).trans hleast
  all_goals decide

theorem shown_hexDigits : ∀ n < 0x20, (Nat.toDigits 16 n).all (Shown ·) := by
  decide +kernel

theorem shown_escapedControl {c : Char} (h : c.toNat < 0x20) : ∀ x ∈ escapedControl c, Shown x := by
  have hdigits : ∀ x ∈ Nat.toDigits 16 c.toNat, Shown x := by simpa using shown_hexDigits _ h
  have hzeros : ∀ k, ∀ x ∈ List.replicate k '0', Shown x := by
    rintro k x hx
    rw [List.eq_of_mem_replicate hx]
    decide
  simp only [escapedControl, List.forall_mem_cons, List.forall_mem_append]
  exact ⟨by decide, by decide, hzeros _, hdigits⟩

theorem shown_escaped (c : Char) : ∀ x ∈ escaped c, Shown x := by
  obtain ⟨k, hk, hc⟩ | ⟨hk, hc⟩ | ⟨hk, -, -, hc⟩ := escaped_cases c
  · have hletter : Shown k := by
      simp only [escapedBy?] at hc
      split at hc <;> first | decide | nomatch hc
    rw [hk]
    exact List.forall_mem_cons.mpr ⟨by decide, List.forall_mem_singleton.mpr hletter⟩
  · rw [hk]
    exact shown_escapedControl hc
  · rw [hk]
    exact List.forall_mem_singleton.mpr (Nat.le_of_not_lt hc)

theorem shown_quoted (s : String) : ∀ c ∈ (quoted s).toList, Shown c := by
  rw [toList_quoted, List.forall_mem_cons, List.forall_mem_append]
  refine ⟨by decide, fun x hx => ?_, List.forall_mem_singleton.mpr (by decide)⟩
  obtain ⟨c, -, hc⟩ := List.mem_flatMap.mp hx
  exact shown_escaped c x hc

theorem shown_after {α : Type} {text : List α → String} {xs : List α}
    (h : ∀ c ∈ (text xs).toList, Shown c) : ∀ c ∈ after text xs, Shown c := by
  cases xs with
  | nil => exact fun c hc => nomatch hc
  | cons x xs => exact List.forall_mem_cons.mpr ⟨by decide, h⟩

mutual

/-- Control characters are escaped, and none stands between the parts. -/
theorem shown_compact : ∀ (d : Document), ∀ c ∈ d.compact.toList, Shown c
  | null | bool true | bool false => by simp [compact]
  | number n => fun c hc => shown_of_isNumeric (n.isNumeric_text c hc)
  | string s => shown_quoted s
  | array items => by
    simp only [compact, String.toList_append, List.forall_mem_append]
    exact ⟨⟨List.forall_mem_singleton.mpr (by decide), shown_compactItems items⟩,
      List.forall_mem_singleton.mpr (by decide)⟩
  | object members => by
    simp only [compact, String.toList_append, List.forall_mem_append]
    exact ⟨⟨List.forall_mem_singleton.mpr (by decide), shown_compactMembers members⟩,
      List.forall_mem_singleton.mpr (by decide)⟩

theorem shown_compactItems : ∀ (items : List Document), ∀ c ∈ (compactItems items).toList, Shown c
  | [] => fun c hc => nomatch hc
  | d :: items => by
    rw [toList_compactItems_cons, List.forall_mem_append]
    exact ⟨shown_compact d, shown_after (shown_compactItems items)⟩

theorem shown_compactMembers : ∀ (members : List (String × Document)),
    ∀ c ∈ (compactMembers members).toList, Shown c
  | [] => fun c hc => nomatch hc
  | (k, d) :: members => by
    rw [toList_compactMembers_cons, List.forall_mem_append, List.forall_mem_cons,
      List.forall_mem_append]
    exact ⟨shown_quoted k, by decide, shown_compact d,
      shown_after (shown_compactMembers members)⟩

end

/-! ### Values -/

mutual

theorem ofJson_inj : ∀ {j j' : Json}, ofJson j = ofJson j' → j = j'
  | .null, j', h => by
    match j', h with
    | .null, _ => rfl
  | .bool b, j', h => by
    match j', h with
    | .bool b', h => rw [bool.inj h]
  | .number n, j', h => by
    match j', h with
    | .number n', h => rw [number.inj h]
  | .string s, j', h => by
    match j', h with
    | .string s', h => rw [string.inj h]
  | .array items, j', h => by
    match j', h with
    | .array items', h => rw [ofItems_inj (array.inj h)]
  | .object members, j', h => by
    match j', h with
    | .object members', h => rw [ofMembers_inj (object.inj h)]

theorem ofItems_inj : ∀ {items items' : List Json}, ofItems items = ofItems items' → items = items'
  | [], [], _ => rfl
  | j :: items, j' :: items', h => by
    obtain ⟨hj, hitems⟩ := List.cons.inj h
    rw [ofJson_inj hj, ofItems_inj hitems]

theorem ofMembers_inj : ∀ {members members' : List (String × Json)},
    ofMembers members = ofMembers members' → members = members'
  | [], [], _ => rfl
  | (k, j) :: members, (k', j') :: members', h => by
    obtain ⟨hm, hmembers⟩ := List.cons.inj h
    obtain ⟨rfl, hj⟩ := Prod.mk.inj hm
    rw [ofJson_inj hj, ofMembers_inj hmembers]

end

end Document

end Tabletop
