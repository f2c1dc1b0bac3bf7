import Mathlib
import Tabletop.Decimal.Layout
import Tabletop.Proofs.Decimal.Rounding

/-! Doubles as text. The text of a double spells a number, by its digits, its point and its
exponent; the number rounds to the double, so no two doubles have one text. -/

namespace Tabletop.Decimal

/-! ### Numbers as they are spelled -/

/-- The sign before an exponent. -/
def signOf (e : Int) : Char := if e < 0 then '-' else '+'

/-- A text that spells a number, with a point or with an exponent. -/
inductive Spells : List Char → ℚ → Prop where
  | point (whole fraction : List Char) : whole ≠ [] → (∀ c ∈ whole, c.isDigit) →
    (∀ c ∈ fraction, c.isDigit) → Spells (whole ++ '.' :: fraction)
      (Nat.ofDigitChars 10 (whole ++ fraction) 0 * 10 ^ (-fraction.length : Int))
  | exponent (d : Char) (fraction : List Char) (e : Int) : d.isDigit →
    (∀ c ∈ fraction, c.isDigit) →
    Spells (d :: (if fraction = [] then [] else '.' :: fraction) ++
        'e' :: signOf e :: Nat.toDigits 10 e.natAbs)
      (Nat.ofDigitChars 10 (d :: fraction) 0 * 10 ^ (e - fraction.length))

/-- The exponent after its letter. -/
def exponentOf : List Char → Int
  | [] => 0
  | sign :: digits =>
    if sign = '-' then -Nat.ofDigitChars 10 digits 0 else Nat.ofDigitChars 10 digits 0

/-- The number that a text spells. -/
def spelled (text : List Char) : ℚ :=
  let mantissa := text.takeWhile (· != 'e')
  let whole := mantissa.takeWhile (· != '.')
  let fraction := (mantissa.dropWhile (· != '.')).tail
  Nat.ofDigitChars 10 (whole ++ fraction) 0 *
    10 ^ (exponentOf (text.dropWhile (· != 'e')).tail - fraction.length)

/-- A character of a number. -/
def isNumeric (c : Char) : Bool := c.isDigit || c == '.' || c == 'e' || c == '-' || c == '+'

theorem isNumeric_of_isDigit {c : Char} (h : c.isDigit) : isNumeric c := by
  simp [isNumeric, h]

theorem ne_of_isDigit {c d : Char} (hc : c.isDigit) (hd : d.isDigit = false) : (c != d) = true := by
  rw [bne_iff_ne]
  rintro rfl
  rw [hc] at hd
  nomatch hd

theorem exponentOf_sign (e : Int) : exponentOf (signOf e :: Nat.toDigits 10 e.natAbs) = e := by
  simp only [exponentOf, signOf, Nat.ofDigitChars_ten_toDigits]
  by_cases he : e < 0
  · rw [if_pos he, if_pos rfl]
    omega
  · rw [if_neg he, if_neg (by decide)]
    omega

section Splitting

variable {a : List Char} {c : Char} (h : ∀ x ∈ a, (x != c) = true)
include h

theorem takeWhile_all : a.takeWhile (· != c) = a ∧ a.dropWhile (· != c) = [] :=
  ⟨List.takeWhile_eq_self_iff.mpr h, List.dropWhile_eq_nil_iff.mpr fun x hx => h x hx⟩

theorem takeWhile_upto (b : List Char) : (a ++ c :: b).takeWhile (· != c) = a ∧
    (a ++ c :: b).dropWhile (· != c) = c :: b := by
  rw [List.takeWhile_append_of_pos h, List.dropWhile_append_of_pos h]
  simp

end Splitting

namespace Spells

variable {text text' : List Char} {v v' : ℚ}

theorem congr (h : Spells text v) (htext : text' = text) (hv : v' = v) : Spells text' v' :=
  htext ▸ hv ▸ h

theorem spelled_eq (h : Spells text v) : spelled text = v := by
  cases h with
  | point whole fraction _ hw hf =>
    have hwp : ∀ c ∈ whole, (c != '.') = true := fun c hc => ne_of_isDigit (hw c hc) (by decide)
    have hall : ∀ c ∈ whole ++ '.' :: fraction, (c != 'e') = true := by
      intro c hc
      rcases List.mem_append.mp hc with hc | hc
      · exact ne_of_isDigit (hw c hc) (by decide)
      · rcases List.mem_cons.mp hc with rfl | hc
        · decide
        · exact ne_of_isDigit (hf c hc) (by decide)
    simp only [spelled, takeWhile_all hall, takeWhile_upto hwp, List.tail_nil, List.tail_cons,
      exponentOf, Int.zero_sub]
  | exponent d fraction e hd hf =>
    have hdp : ∀ c ∈ [d], (c != '.') = true := by simpa using ne_of_isDigit hd (by decide)
    by_cases hfraction : fraction = []
    · subst hfraction
      have hde : ∀ c ∈ [d], (c != 'e') = true := by simpa using ne_of_isDigit hd (by decide)
      simp only [spelled, if_true, takeWhile_upto hde, takeWhile_all hdp, List.tail_nil,
        List.tail_cons, exponentOf_sign, List.append_nil]
    · have hde : ∀ c ∈ d :: '.' :: fraction, (c != 'e') = true := by
        simp only [List.mem_cons]
        rintro c (rfl | rfl | hc)
        · exact ne_of_isDigit hd (by decide)
        · decide
        · exact ne_of_isDigit (hf c hc) (by decide)
      have hmantissa := takeWhile_upto hdp fraction
      rw [List.singleton_append] at hmantissa
      simp only [spelled, if_neg hfraction, takeWhile_upto hde, hmantissa, List.tail_cons,
        exponentOf_sign, List.singleton_append]

theorem numeric (h : Spells text v) : ∀ c ∈ text, isNumeric c := by
  cases h with
  | point whole fraction _ hw hf =>
    simp only [List.mem_append, List.mem_cons]
    rintro c (hc | rfl | hc)
    · exact isNumeric_of_isDigit (hw c hc)
    · decide
    · exact isNumeric_of_isDigit (hf c hc)
  | exponent d fraction e hd hf =>
    have hdigits : ∀ c ∈ Nat.toDigits 10 e.natAbs, isNumeric c := fun c hc =>
      isNumeric_of_isDigit (Nat.isDigit_of_mem_toDigits (by decide) (by decide) hc)
    simp only [List.cons_append, List.mem_cons, List.mem_append]
    rintro c (rfl | hc | rfl | rfl | hc)
    · exact isNumeric_of_isDigit hd
    · split at hc
      · nomatch hc
      · rcases List.mem_cons.mp hc with rfl | hc
        · decide
        · exact isNumeric_of_isDigit (hf c hc)
    · decide
    · simp only [signOf]
      split <;> decide
    · exact hdigits c hc

/-- A point or an exponent sets the text apart from that of an integer. -/
theorem marked (h : Spells text v) : '.' ∈ text ∨ 'e' ∈ text := by
  cases h <;> simp

theorem head (h : Spells text v) : ∃ d rest, text = d :: rest ∧ d.isDigit := by
  cases h with
  | point whole fraction hne hw hf =>
    obtain ⟨d, rest, rfl⟩ := List.exists_cons_of_ne_nil hne
    exact ⟨d, _, rfl, hw d (.head _)⟩
  | exponent d fraction e hd hf => exact ⟨d, _, rfl, hd⟩

end Spells

/-! ### The text of a magnitude -/

theorem isDigit_toDigits (n : Nat) : ∀ c ∈ Nat.toDigits 10 n, c.isDigit := fun _ =>
  Nat.isDigit_of_mem_toDigits (by decide) (by decide)

theorem isDigit_replicate (k : Nat) : ∀ c ∈ List.replicate k '0', c.isDigit := by
  simp only [List.mem_replicate]
  rintro c ⟨-, rfl⟩
  decide

section Positional

variable {digits : List Char} (hne : digits ≠ []) (hdigit : ∀ c ∈ digits, c.isDigit)

include hdigit in
/-- Nothing stands before the point. -/
theorem spells_small (zeros : Nat) :
    Spells ("0." ++ String.ofList (List.replicate zeros '0' ++ digits)).toList
      (Nat.ofDigitChars 10 digits 0 * 10 ^ (-(zeros + digits.length) : Int)) := by
  have hall : ∀ c ∈ List.replicate zeros '0' ++ digits, c.isDigit :=
    List.forall_mem_append.mpr ⟨isDigit_replicate zeros, hdigit⟩
  refine (Spells.point ['0'] _ (by simp) (by simp) hall).congr (by simp) ?_
  rw [List.singleton_append, Nat.ofDigitChars_cons, Nat.ofDigitChars_append,
    Nat.ofDigitChars_replicate_zero, Nat.mul_zero, Nat.zero_add, Nat.sub_self, Nat.mul_zero]
  simp

include hne hdigit in
/-- Nothing stands behind the point. -/
theorem spells_whole (zeros : Nat) :
    Spells (String.ofList (digits ++ List.replicate zeros '0') ++ ".0").toList
      (Nat.ofDigitChars 10 digits 0 * 10 ^ (zeros : Int)) := by
  have hall : ∀ c ∈ digits ++ List.replicate zeros '0', c.isDigit :=
    List.forall_mem_append.mpr ⟨hdigit, isDigit_replicate zeros⟩
  refine (Spells.point _ ['0'] (by simp [hne]) hall (by simp)).congr (by simp) ?_
  rw [Nat.ofDigitChars_append, Nat.ofDigitChars_append, Nat.ofDigitChars_replicate_zero]
  simp [Nat.ofDigitChars_cons]
  ring

include hne hdigit in
/-- The point stands behind the first digits. -/
theorem spells_split {p : Nat} (hp : 0 < p) :
    Spells (String.ofList (digits.take p ++ '.' :: digits.drop p)).toList
      (Nat.ofDigitChars 10 digits 0 * 10 ^ (-(digits.length - p : Nat) : Int)) := by
  have htake : digits.take p ≠ [] := fun h =>
    (List.take_eq_nil_iff.mp h).elim hp.ne' hne
  refine (Spells.point _ (digits.drop p) htake (fun c hc => hdigit c (List.mem_of_mem_take hc))
    fun c hc => hdigit c (List.mem_of_mem_drop hc)).congr String.toList_ofList ?_
  rw [List.take_append_drop, List.length_drop]

end Positional

section Magnitude

variable (n : Nat) (scale : Int)

theorem spells_positional :
    Spells (positionalText ".0" (Nat.toDigits 10 n) ((Nat.toDigits 10 n).length + scale)).toList
      (n * 10 ^ scale) := by
  have hne : Nat.toDigits 10 n ≠ [] := Nat.toDigits_ne_nil
  have hdigit := isDigit_toDigits n
  have hvalue : Nat.ofDigitChars 10 (Nat.toDigits 10 n) 0 = n := Nat.ofDigitChars_ten_toDigits
  generalize Nat.toDigits 10 n = digits at *
  subst hvalue
  simp only [positionalText]
  split
  · refine (spells_small hdigit _).congr rfl ?_
    congr 2
    omega
  split
  · next hdrop =>
    have hle := List.drop_eq_nil_iff.mp hdrop
    rw [List.take_of_length_le hle]
    refine (spells_whole hne hdigit _).congr rfl ?_
    congr 2
    omega
  · next hdrop =>
    have hlt := mt List.drop_eq_nil_iff.mpr hdrop
    refine (spells_split hne hdigit (by omega)).congr rfl ?_
    congr 2
    omega

theorem spells_exponent :
    Spells (exponentText (Nat.toDigits 10 n) ((Nat.toDigits 10 n).length + scale)).toList
      (n * 10 ^ scale) := by
  have hvalue : Nat.ofDigitChars 10 (Nat.toDigits 10 n) 0 = n := Nat.ofDigitChars_ten_toDigits
  have hdigit := isDigit_toDigits n
  obtain ⟨d, rest, hdigits⟩ := List.exists_cons_of_ne_nil (Nat.toDigits_ne_nil (n := n) (b := 10))
  rw [hdigits] at hvalue hdigit ⊢
  refine (Spells.exponent d rest ((d :: rest).length + scale - 1) (hdigit d (.head _))
    fun c hc => hdigit c (.tail _ hc)).congr ?_ ?_
  · have hsign (e : Int) : (if e < 0 then "e-" else "e+").toList = ['e', signOf e] := by
      simp only [signOf]
      split <;> rfl
    simp only [exponentText, String.toList_append, String.toList_ofList, hsign,
      Nat.toString_eq_ofList_toDigits]
    cases rest <;> simp
  · rw [hvalue]
    congr 2
    simp only [List.length_cons]
    omega

end Magnitude

/-! ### The text of a double -/

section Double

variable {x y : Float}

theorem ofDouble_parts (x : Float) :
    OfDouble (Double.parts x).significand (Double.parts x).exponent := by
  simp only [Double.parts, Double.fullSignificand, Double.leastExponent, Nat.pow_eq]
  split <;> constructor <;> dsimp only <;> omega

theorem isNegative_eq (x : Float) : Double.isNegative x = (Double.parts x).negative := by
  simp only [Double.parts, Double.isNegative]
  split <;> rfl

theorem parts_injective : Function.Injective Double.parts := by
  intro x y h
  have hbits : x.toBits.toNat = y.toBits.toNat := by
    have hx := x.toBits.toNat_lt
    have hy := y.toBits.toNat_lt
    simp only [Double.parts, Double.fullSignificand, Double.leastExponent, Nat.pow_eq] at h
    split at h <;> split at h <;>
      simp only [Double.Parts.mk.injEq, decide_eq_decide] at h <;> omega
  exact Float.toBits_inj.mp (UInt64.toNat_inj.mp hbits)

theorem RoundsTo.pos {m : Nat} {q : Int} {v : ℚ} (hm : 0 < m) (h : RoundsTo m q v) : 0 < v := by
  have hb := below_eq m q
  have hlow : 0 < 4 * m - below m q := by
    split_ifs at hb <;> omega
  refine lt_of_lt_of_le ?_ h.bounds.1.1
  have : (0 : ℚ) < (4 * m - below m q : Nat) := by exact_mod_cast hlow
  positivity

theorem spells_magnitude (x : Float) : ∃ v, Spells (notated.magnitude x).toList v ∧
    if (Double.parts x).significand = 0 then v = 0
    else RoundsTo (Double.parts x).significand (Double.parts x).exponent v := by
  simp only [Style.magnitude]
  split
  · refine ⟨0, (Spells.point ['0'] ['0'] (by simp) (by simp) (by simp)).congr rfl ?_, rfl⟩
    simp [Nat.ofDigitChars_cons]
  · next hm =>
    have hrounds := roundsTo_shortest notated.tie (ofDouble_parts x) (Nat.pos_of_ne_zero hm)
    refine ⟨_, ?_, hrounds⟩
    split
    · exact spells_positional _ _
    · exact spells_exponent _ _

theorem parts_of_magnitude (h : notated.magnitude x = notated.magnitude y) :
    (Double.parts x).significand = (Double.parts y).significand ∧
      (Double.parts x).exponent = (Double.parts y).exponent := by
  obtain ⟨v, hv, hx⟩ := spells_magnitude x
  obtain ⟨w, hw, hy⟩ := spells_magnitude y
  obtain rfl : v = w := by rw [← hv.spelled_eq, h, hw.spelled_eq]
  have hdx := ofDouble_parts x
  have hdy := ofDouble_parts y
  split at hx <;> split at hy
  · have := hdx.full
    have := hdy.full
    omega
  · next hm => exact absurd hx (hy.pos (Nat.pos_of_ne_zero hm)).ne'
  · next hm _ => exact absurd hy (hx.pos (Nat.pos_of_ne_zero hm)).ne'
  · exact hx.unique hdx hdy hy

theorem toList_render (x : Float) : (notated.render x).toList =
    (if Double.isNegative x then ['-'] else []) ++ (notated.magnitude x).toList := by
  simp only [Style.render]
  split <;> simp

/-- A digit is no sign, so of two numbers written alike both have a sign or none. -/
theorem signed_inj {a b : Bool} {c d : Char} {rest rest' : List Char} (hc : c.isDigit)
    (hd : d.isDigit) (h : (if a then ['-'] else []) ++ c :: rest =
      (if b then ['-'] else []) ++ d :: rest') : a = b ∧ c :: rest = d :: rest' := by
  cases a <;> cases b
  · exact ⟨rfl, h⟩
  · obtain ⟨rfl, -⟩ := List.cons.inj h
    exact absurd hc (by decide)
  · obtain ⟨rfl, -⟩ := List.cons.inj h
    exact absurd hd (by decide)
  · exact ⟨rfl, List.tail_eq_of_cons_eq h⟩

/-- No two doubles have one text. -/
theorem render_injective : Function.Injective notated.render := by
  intro x y h
  obtain ⟨v, hv, -⟩ := spells_magnitude x
  obtain ⟨w, hw, -⟩ := spells_magnitude y
  obtain ⟨c, rest, hc, hcd⟩ := hv.head
  obtain ⟨d, rest', hd, hdd⟩ := hw.head
  have htext := congrArg String.toList h
  rw [toList_render, toList_render] at htext
  rw [hc, hd] at htext
  obtain ⟨hsign, hmagnitude⟩ := signed_inj hcd hdd htext
  rw [← hc, ← hd] at hmagnitude
  obtain ⟨hm, hq⟩ := parts_of_magnitude (String.toList_inj.mp hmagnitude)
  rw [isNegative_eq, isNegative_eq] at hsign
  exact parts_injective ((Double.Parts.mk.injEq ..).mpr ⟨hsign, hm, hq⟩)

theorem isNumeric_render (x : Float) : ∀ c ∈ (notated.render x).toList, isNumeric c := by
  obtain ⟨v, hv, -⟩ := spells_magnitude x
  rw [toList_render]
  intro c hc
  rcases List.mem_append.mp hc with hc | hc
  · split at hc
    · obtain rfl := List.mem_singleton.mp hc
      decide
    · nomatch hc
  · exact hv.numeric c hc

theorem render_marked (x : Float) :
    '.' ∈ (notated.render x).toList ∨ 'e' ∈ (notated.render x).toList := by
  obtain ⟨v, hv, -⟩ := spells_magnitude x
  rw [toList_render]
  exact hv.marked.imp (List.mem_append_right _) (List.mem_append_right _)

theorem render_head (x : Float) :
    ∃ c rest, (notated.render x).toList = c :: rest ∧ (c.isDigit ∨ c = '-') := by
  obtain ⟨v, hv, -⟩ := spells_magnitude x
  obtain ⟨c, rest, hc, hcd⟩ := hv.head
  rw [toList_render, hc]
  split
  · exact ⟨'-', c :: rest, rfl, .inr rfl⟩
  · exact ⟨c, rest, rfl, .inl hcd⟩

end Double

end Tabletop.Decimal
