import Tabletop.Proofs.Json.Compact

/-! A number is read up to where it ends. What is read of its text alone is read as well where a
value ends behind it, as before a comma or a closing bracket. -/

namespace Tabletop

namespace Json

variable {s s' rest : List Char} {c : Char}

/-- A value ends here: nothing follows, or a comma or a closing bracket. -/
def Ends (rest : List Char) : Prop := ∀ c ∈ rest.head?, c = ',' ∨ c = ']' ∨ c = '\x7d'

theorem ends_cons (h : c = ',' ∨ c = ']' ∨ c = '\x7d') : Ends (c :: rest) := by
  rintro _ ⟨⟩
  exact h

theorem Ends.isDigit (h : Ends rest) : ∀ c ∈ rest.head?, c.isDigit = false := by
  intro c hc
  rcases h c hc with rfl | rfl | rfl <;> rfl

theorem takeWhile_append (h : Ends rest) :
    (s ++ rest).takeWhile Char.isDigit = s.takeWhile Char.isDigit := by
  induction s with
  | nil =>
    cases rest with
    | nil => rfl
    | cons c more => rw [List.nil_append, List.takeWhile_cons_of_neg (by simp [h.isDigit c rfl]),
        List.takeWhile_nil]
  | cons c s ih => simp only [List.cons_append, List.takeWhile_cons, ih]

theorem dropWhile_append (h : Ends rest) :
    (s ++ rest).dropWhile Char.isDigit = s.dropWhile Char.isDigit ++ rest := by
  induction s with
  | nil =>
    cases rest with
    | nil => rfl
    | cons c more => rw [List.nil_append, List.dropWhile_cons_of_neg (by simp [h.isDigit c rfl]),
        List.dropWhile_nil, List.nil_append]
  | cons c s ih =>
    simp only [List.cons_append, List.dropWhile_cons, ih]
    split <;> rfl

theorem readWhole_append {whole : List Char} (h : Ends rest) (hs : readWhole s = .ok (whole, s')) :
    readWhole (s ++ rest) = .ok (whole, s' ++ rest) := by
  cases s with
  | nil => cases hs
  | cons c s =>
    by_cases hc : c = '0'
    · subst hc
      cases s with
      | nil =>
        cases hs
        cases rest with
        | nil => rfl
        | cons c more => simp [readWhole, h.isDigit c rfl]
      | cons c s =>
        simp only [readWhole, List.cons_append] at hs ⊢
        split at hs
        · cases hs
        · next hdigit =>
          cases hs
          rw [if_neg hdigit, List.cons_append]
    · simp only [readWhole, List.cons_append] at hs ⊢
      split at hs
      · next hdigit =>
        cases hs
        rw [if_pos hdigit, ← List.cons_append, takeWhile_append h, dropWhile_append h]
      · cases hs

theorem readFraction_of_ne (hc : c ≠ '.') : readFraction (c :: s) = .ok ([], c :: s) := by
  unfold readFraction
  split
  · next h => exact absurd (List.cons.inj h).1 hc
  · rfl

theorem readFraction_append {fraction : List Char} (h : Ends rest)
    (hs : readFraction s = .ok (fraction, s')) :
    readFraction (s ++ rest) = .ok (fraction, s' ++ rest) := by
  cases s with
  | nil =>
    cases hs
    cases rest with
    | nil => rfl
    | cons c more => rcases h c rfl with rfl | rfl | rfl <;> rfl
  | cons c s =>
    by_cases hc : c = '.'
    · subst hc
      simp only [readFraction, List.cons_append, takeWhile_append h, dropWhile_append h] at hs ⊢
      split at hs
      · cases hs
      · next hne =>
        cases hs
        rw [if_neg hne]
    · rw [readFraction_of_ne hc] at hs
      cases hs
      exact readFraction_of_ne hc

theorem takeExponent_append (h : Ends rest) (n : Nat) :
    takeExponent n (s ++ rest) = ((takeExponent n s).1, (takeExponent n s).2 ++ rest) := by
  induction s generalizing n with
  | nil =>
    cases rest with
    | nil => rfl
    | cons c more => simp [takeExponent, h.isDigit c rfl]
  | cons c s ih =>
    simp only [List.cons_append, takeExponent]
    split
    · split
      · exact ih _
      · rfl
    · rfl

/-- The digits of an exponent, its sign being read. -/
def readUnsigned (zeros negative : Bool) (s : List Char) : Reading (Int × List Char) :=
  match s with
  | [] => failHere .endInValue []
  | c :: _ =>
    if c.isDigit then
      match takeExponent 0 s with
      | (some n, rest) => .ok (if negative then -n else n, rest)
      | (none, rest) =>
        if negative || zeros then .ok (-farthest, rest.dropWhile Char.isDigit)
        else failHere .numberOutOfRange rest
    else failNext .invalidNumber s

theorem readExponent_of_ne (zeros : Bool) (hplus : c ≠ '+') (hminus : c ≠ '-') :
    readExponent zeros (c :: s) = readUnsigned zeros false (c :: s) := by
  rw [readExponent]
  · rfl
  · rintro _ ⟨⟩
    exact hplus rfl
  · rintro _ ⟨⟩
    exact hminus rfl

theorem readUnsigned_append {zeros negative : Bool} {e : Int} (h : Ends rest)
    (hs : readUnsigned zeros negative s = .ok (e, s')) :
    readUnsigned zeros negative (s ++ rest) = .ok (e, s' ++ rest) := by
  cases s with
  | nil => cases hs
  | cons c s =>
    have happend := takeExponent_append (s := c :: s) h 0
    rw [List.cons_append] at happend
    simp only [readUnsigned, List.cons_append, happend] at hs ⊢
    split at hs
    · next hdigit =>
      rw [if_pos hdigit]
      rcases htake : takeExponent 0 (c :: s) with ⟨_ | n, more⟩
      · simp only [htake] at hs ⊢
        split at hs
        · next hsmall =>
          cases hs
          rw [if_pos hsmall, dropWhile_append h]
        · cases hs
      · simp only [htake] at hs ⊢
        cases hs
        rfl
    · cases hs

theorem readExponent_append {zeros : Bool} {e : Int} (h : Ends rest)
    (hs : readExponent zeros s = .ok (e, s')) :
    readExponent zeros (s ++ rest) = .ok (e, s' ++ rest) := by
  cases s with
  | nil => cases hs
  | cons c s =>
    by_cases hplus : c = '+'
    · subst hplus
      exact readUnsigned_append h hs
    · by_cases hminus : c = '-'
      · subst hminus
        exact readUnsigned_append h hs
      · rw [readExponent_of_ne zeros hplus hminus] at hs
        rw [List.cons_append, readExponent_of_ne zeros hplus hminus]
        exact readUnsigned_append h hs

/-- An exponent comes next. -/
def Marked (s : List Char) : Bool :=
  match s with
  | c :: _ => c == 'e' || c == 'E'
  | [] => false

theorem marked_append (h : Ends rest) : Marked (s ++ rest) = Marked s := by
  cases s with
  | nil =>
    cases rest with
    | nil => rfl
    | cons c more => rcases h c rfl with rfl | rfl | rfl <;> rfl
  | cons c s => rfl

/-- The end of a number, its digits being read. -/
def readTail (negative : Bool) (whole fraction s : List Char) : Reading (Document × List Char) := do
  let (exponent, s') ←
    if Marked s then readExponent ((whole ++ fraction).all (· == '0')) (s.drop 1) else .ok (0, s)
  match ({ negative, whole, fraction, exponent, integral := fraction.isEmpty && !Marked s } :
      Literal).number with
  | some n => return (.number n, s')
  | none => failHere .numberOutOfRange s'

theorem readNumber_eq (negative : Bool) (s : List Char) : readNumber negative s =
    readWhole s >>= fun w => readFraction w.2 >>= fun f => readTail negative w.1 f.1 f.2 := rfl

theorem readTail_append {negative : Bool} {whole fraction : List Char} {d : Document}
    (h : Ends rest) (hs : readTail negative whole fraction s = .ok (d, s')) :
    readTail negative whole fraction (s ++ rest) = .ok (d, s' ++ rest) := by
  cases hmarked : Marked s with
  | false =>
    simp only [readTail, marked_append h, hmarked, Bool.false_eq_true, ↓reduceIte, bind,
      Except.bind] at hs ⊢
    split at hs
    · cases hs
      rfl
    · cases hs
  | true =>
    cases s with
    | nil => cases hmarked
    | cons c s =>
      have hmarked' : Marked (c :: (s ++ rest)) = true := hmarked
      simp only [readTail, hmarked, hmarked', ↓reduceIte, bind, Except.bind, List.cons_append,
        List.drop_succ_cons, List.drop_zero] at hs ⊢
      cases he : readExponent ((whole ++ fraction).all (· == '0')) s with
      | error e =>
        simp only [he] at hs
        cases hs
      | ok r =>
        simp only [he, readExponent_append h he] at hs ⊢
        split at hs
        · cases hs
          rfl
        · cases hs

theorem readNumber_append {negative : Bool} {d : Document} (h : Ends rest)
    (hs : readNumber negative s = .ok (d, s')) :
    readNumber negative (s ++ rest) = .ok (d, s' ++ rest) := by
  rw [readNumber_eq] at hs ⊢
  cases hwhole : readWhole s with
  | error e => simp [hwhole, bind, Except.bind] at hs
  | ok w =>
    cases hfraction : readFraction w.2 with
    | error e => simp [hwhole, hfraction, bind, Except.bind] at hs
    | ok f =>
      rw [readWhole_append h hwhole]
      simp only [hwhole, hfraction, readFraction_append h hfraction, bind, Except.bind] at hs ⊢
      exact readTail_append h hs

theorem not_isSpace_of_isDigit (h : c.isDigit) : isSpace c = false := by
  have hle : 48 ≤ c.toNat := by
    simp only [Char.isDigit, Bool.and_eq_true, decide_eq_true_eq] at h
    exact h.1
  simp only [isSpace, Bool.or_eq_false_iff, beq_eq_false_iff_ne]
  refine ⟨⟨⟨?_, ?_⟩, ?_⟩, ?_⟩ <;> rintro rfl <;> exact absurd hle (by decide)

theorem readPlain_of_isDigit (h : c.isDigit) (s : List Char) :
    readPlain (c :: s) = readNumber false (c :: s) := by
  have hne {k : Char} (hk : k.isDigit = false) : c ≠ k := by
    rintro rfl
    exact absurd h (by simp [hk])
  have hskip : skipSpace (c :: s) = c :: s :=
    List.dropWhile_cons_of_neg (by simp [not_isSpace_of_isDigit h])
  rw [readPlain, hskip]
  split
  · next heq => nomatch heq
  · next heq => exact absurd (List.cons.inj heq).1 (hne rfl)
  · next heq => exact absurd (List.cons.inj heq).1 (hne rfl)
  · next heq => exact absurd (List.cons.inj heq).1 (hne rfl)
  · next heq => exact absurd (List.cons.inj heq).1 (hne rfl)
  · next heq => exact absurd (List.cons.inj heq).1 (hne rfl)
  · next heq =>
    obtain ⟨rfl, rfl⟩ := List.cons.inj heq
    rw [if_pos h]

end Json

/-- The text of a number is read as that number. -/
def Number.ReadsBack (n : Number) : Prop := Json.readPlain n.text.toList = .ok (.number n, [])

theorem Number.ReadsBack.append {n : Number} {rest : List Char} (hn : n.ReadsBack)
    (h : Json.Ends rest) : Json.readPlain (n.text.toList ++ rest) = .ok (.number n, rest) := by
  obtain ⟨c, text, htext, hc⟩ := n.text_head
  rw [ReadsBack, htext] at hn
  rw [htext]
  rcases hc with hc | rfl
  · rw [Json.readPlain_of_isDigit hc] at hn
    rw [List.cons_append, Json.readPlain_of_isDigit hc]
    exact Json.readNumber_append h hn
  · exact Json.readNumber_append h hn

end Tabletop
