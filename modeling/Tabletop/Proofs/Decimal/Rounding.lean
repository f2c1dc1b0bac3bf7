import Mathlib.Algebra.Order.Field.Power
import Mathlib.Data.Rat.Cast.Order
import Mathlib.Tactic.FieldSimp
import Mathlib.Tactic.Linarith
import Mathlib.Tactic.Positivity
import Mathlib.Tactic.Ring
import Tabletop.Decimal.Shortest

/-! The shortest decimal of a double rounds to it, and to no other double: the intervals of two
doubles meet in an end at most, which then belongs to one of them only. -/

namespace Tabletop.Decimal

/-- What the significand and the exponent of a double can be. An exponent one above the greatest
marks what is no number. -/
structure OfDouble (m : Nat) (q : Int) : Prop where
  least : -1074 ≤ q
  most : q ≤ 972
  lt : m < 2 ^ 53
  full : 2 ^ 52 ≤ m ∨ q = -1074

/-- How far the interval of a double reaches down, in quarters of the last binary place. -/
def below (m : Nat) (q : Int) : Nat :=
  if m = Double.fullSignificand && Double.leastExponent < q then 1 else 2

theorem below_eq (m : Nat) (q : Int) : below m q = if m = 2 ^ 52 ∧ -1074 < q then 1 else 2 := by
  have hiff : (m = Double.fullSignificand && Double.leastExponent < q) = true ↔
      m = 2 ^ 52 ∧ -1074 < q := by
    rw [Bool.and_eq_true, decide_eq_true_eq, decide_eq_true_eq]
    rfl
  exact if_congr hiff rfl rfl

/-- The interval of the numbers that round to `m · 2 ^ q`. -/
def RoundsTo (m : Nat) (q : Int) (v : ℚ) : Prop :=
  let low : ℚ := (4 * m - below m q : Nat) * 2 ^ (q - 2)
  let high : ℚ := (4 * m + 2 : Nat) * 2 ^ (q - 2)
  if m % 2 = 0 then low ≤ v ∧ v ≤ high else low < v ∧ v < high

/-! ### Scales -/

theorem zpow_mul_pow_toNat {b : ℚ} (hb : b ≠ 0) (k : Int) :
    b ^ k * b ^ (-k).toNat = b ^ k.toNat := by
  rcases le_total 0 k with hk | hk
  · rw [Int.toNat_of_nonpos (by omega), pow_zero, mul_one, ← zpow_natCast, Int.toNat_of_nonneg hk]
  · rw [Int.toNat_of_nonpos hk, pow_zero, ← zpow_natCast, Int.toNat_of_nonneg (by omega),
      zpow_neg, mul_inv_cancel₀ (zpow_ne_zero k hb)]

section Places

variable (a d : Nat) (k s : Int)

/-- Binary places and the points of a decimal grid, brought to a unit that divides both. -/
theorem cast_places : ((a * (2 ^ k.toNat * 10 ^ (-s).toNat) : Nat) : ℚ) =
    a * 2 ^ k * (2 ^ (-k).toNat * 10 ^ (-s).toNat) := by
  push_cast
  rw [← zpow_mul_pow_toNat two_ne_zero k]
  ring

theorem cast_points : ((d * (2 ^ (-k).toNat * 10 ^ s.toNat) : Nat) : ℚ) =
    d * 10 ^ s * (2 ^ (-k).toNat * 10 ^ (-s).toNat) := by
  push_cast
  rw [← zpow_mul_pow_toNat (by norm_num) s]
  ring

theorem places_le_points :
    a * (2 ^ k.toNat * 10 ^ (-s).toNat) ≤ d * (2 ^ (-k).toNat * 10 ^ s.toNat) ↔
    (a : ℚ) * 2 ^ k ≤ d * 10 ^ s := by
  rw [← @Nat.cast_le ℚ, cast_places, cast_points]
  exact mul_le_mul_iff_left₀ (by positivity)

theorem points_le_places :
    d * (2 ^ (-k).toNat * 10 ^ s.toNat) ≤ a * (2 ^ k.toNat * 10 ^ (-s).toNat) ↔
    (d : ℚ) * 10 ^ s ≤ a * 2 ^ k := by
  rw [← @Nat.cast_le ℚ, cast_places, cast_points]
  exact mul_le_mul_iff_left₀ (by positivity)

end Places

/-! ### Windows -/

section Windows

variable {m m' : Nat} {q q' : Int} {v : ℚ}

theorem Window.holds_of (m : Nat) (q s : Int) (d : Nat) :
    (Window.of m q s).holds d ↔ RoundsTo m q (d * 10 ^ s) := by
  have hlow := places_le_points (4 * m - below m q) d (q - 2) s
  have hhigh := points_le_places (4 * m + 2) d (q - 2) s
  have hlow' := points_le_places (4 * m - below m q) d (q - 2) s
  have hhigh' := places_le_points (4 * m + 2) d (q - 2) s
  rw [neg_sub] at hlow hhigh hlow' hhigh'
  have hclosed : (Window.of m q s).closed = (m % 2 == 0) := rfl
  have hl : (Window.of m q s).low =
      (4 * m - below m q) * (2 ^ (q - 2).toNat * 10 ^ (-s).toNat) := rfl
  have hh : (Window.of m q s).high = (4 * m + 2) * (2 ^ (q - 2).toNat * 10 ^ (-s).toNat) := rfl
  have hs : (Window.of m q s).step = 2 ^ (2 - q).toNat * 10 ^ s.toNat := rfl
  simp only [RoundsTo, ← hlow, ← hhigh, ← not_le, ← hlow', ← hhigh', Window.holds, hclosed, hl, hh,
    hs]
  by_cases hm : m % 2 = 0 <;> simp [hm]

/-- Both ends of the interval, which belong to it only where the significand is even. -/
theorem RoundsTo.bounds (h : RoundsTo m q v) :
    ((4 * m - below m q : Nat) * 2 ^ (q - 2) ≤ v ∧ v ≤ (4 * m + 2 : Nat) * 2 ^ (q - 2)) ∧
      (m % 2 = 1 →
        (4 * m - below m q : Nat) * 2 ^ (q - 2) < v ∧ v < (4 * m + 2 : Nat) * 2 ^ (q - 2)) := by
  simp only [RoundsTo] at h
  split at h
  · exact ⟨h, by omega⟩
  · exact ⟨⟨h.1.le, h.2.le⟩, fun _ => h⟩

theorem RoundsTo.not_above (h : OfDouble m q) (h' : OfDouble m' q')
    (hlt : q < q' ∨ (q = q' ∧ m < m')) (hv : RoundsTo m q v) : ¬RoundsTo m' q' v := by
  intro hv'
  obtain ⟨⟨-, hhigh⟩, hodd⟩ := hv.bounds
  obtain ⟨⟨hlow', -⟩, hodd'⟩ := hv'.bounds
  have hu : (0 : ℚ) < 2 ^ (q - 2) := by positivity
  obtain ⟨n, hn⟩ : ∃ n : Nat, q' = q + n := ⟨(q' - q).toNat, by omega⟩
  have hscale : (2 : ℚ) ^ (q' - 2) = 2 ^ n * 2 ^ (q - 2) := by
    rw [← zpow_natCast, ← zpow_add₀ two_ne_zero]
    congr 1
    omega
  rw [hscale, ← mul_assoc] at hlow' hodd'
  -- the upper end of the one against the lower end of the other, in quarters of a place
  have hle : (4 * m' - below m' q') * 2 ^ n ≤ 4 * m + 2 := by
    exact_mod_cast (mul_le_mul_iff_left₀ hu).mp (hlow'.trans hhigh)
  have hopen (hm : m % 2 = 1 ∨ m' % 2 = 1) : (4 * m' - below m' q') * 2 ^ n < 4 * m + 2 := by
    have : ((4 * m' - below m' q' : Nat) : ℚ) * 2 ^ n * 2 ^ (q - 2) <
        (4 * m + 2 : Nat) * 2 ^ (q - 2) := by
      rcases hm with hm | hm
      · exact hlow'.trans_lt (hodd hm).2
      · exact (hodd' hm).1.trans_le hhigh
    exact_mod_cast (mul_lt_mul_iff_left₀ hu).mp this
  have hm := h.lt
  have hb := below_eq m' q'
  obtain rfl | hn0 : n = 0 ∨ 0 < n := Nat.eq_zero_or_pos n
  · -- two doubles of one exponent, of which one is odd where their intervals meet
    rw [pow_zero, mul_one] at hle hopen
    have := h.full
    split_ifs at hb <;> omega
  · -- the greater exponent is not the least one, so its significand is full
    have htwo : (4 * m' - below m' q') * 2 ≤ (4 * m' - below m' q') * 2 ^ n :=
      Nat.mul_le_mul_left _ (Nat.le_self_pow (by omega) 2)
    have := h.least
    have := h'.full
    generalize (4 * m' - below m' q') * 2 ^ n = low at *
    split_ifs at hb <;> omega

theorem RoundsTo.unique (h : OfDouble m q) (h' : OfDouble m' q') (hv : RoundsTo m q v)
    (hv' : RoundsTo m' q' v) : m = m' ∧ q = q' := by
  rcases lt_trichotomy q q' with hq | rfl | hq
  · exact absurd hv' (hv.not_above h h' (.inl hq))
  · rcases lt_trichotomy m m' with hm | rfl | hm
    · exact absurd hv' (hv.not_above h h' (.inr ⟨rfl, hm⟩))
    · exact ⟨rfl, rfl⟩
    · exact absurd hv (hv'.not_above h' h (.inr ⟨rfl, hm⟩))
  · exact absurd hv (hv'.not_above h' h (.inl hq))

end Windows

/-! ### The search -/

section Search

variable {tie : Tie} {m : Nat} {q : Int}

theorem Window.holds_of_nearest? {w : Window} {d : Nat} (h : w.nearest? tie = some d) :
    w.holds d := by
  simp only [Window.nearest?] at h
  split at h
  · nomatch h
  · next hdown _ => cases h; exact hdown
  · next hup => cases h; exact hup
  · next hdown hup =>
    split at h
    · cases h; exact hdown
    · split at h
      · cases h; exact hup
      · split at h
        · split at h <;> cases h <;> assumption
        · cases h; exact hup

theorem Window.isSome_nearest? {w : Window}
    (h : w.holds (w.centre / w.step) ∨ w.holds (w.centre / w.step + 1)) :
    (w.nearest? tie).isSome := by
  simp only [Window.nearest?]
  split
  · next hdown hup => simp [hdown, hup] at h
  · rfl
  · rfl
  · split
    · rfl
    · split
      · rfl
      · split
        · split <;> rfl
        · rfl

theorem holds_firstHit {count : Nat} {s : Int}
    (h : ∃ j < count, ((Window.of m q (s - j)).nearest? tie).isSome) :
    (Window.of m q (firstHit tie m q count s).scale).holds (firstHit tie m q count s).digits := by
  induction count generalizing s with
  | zero =>
    obtain ⟨j, hj, -⟩ := h
    omega
  | succ count ih =>
    rw [firstHit]
    split
    · next d hd => exact Window.holds_of_nearest? hd
    · next hnone =>
      obtain ⟨j, hj, hsome⟩ := h
      obtain _ | j := j
      · rw [Nat.cast_zero, Int.sub_zero, hnone] at hsome
        nomatch hsome
      · exact ih ⟨j, by omega, by rwa [show s - 1 - (j : Int) = s - ((j + 1 : Nat) : Int) by omega]⟩

theorem Window.holds_of_lt {w : Window} {d : Nat} (hlow : w.low < d * w.step)
    (hhigh : d * w.step < w.high) : w.holds d := by
  simp only [Window.holds]
  split <;> simp <;> omega

/-- A grid that is fine enough has a point in the window, next to its centre. -/
theorem Window.hit_of_fine (h : OfDouble m q) (hm : 0 < m) {s : Int}
    (hfine : (10 : ℚ) ^ 16 * 10 ^ s ≤ m * 2 ^ q) : ((Window.of m q s).nearest? tie).isSome := by
  set unit := 2 ^ (q - 2).toNat * 10 ^ (-s).toNat with hunit
  set step := 2 ^ (2 - q).toNat * 10 ^ s.toNat with hstep
  have hfine : 10 ^ 16 * step ≤ 4 * (m * unit) := by
    have := (points_le_places (4 * m) (10 ^ 16) (q - 2) s).mpr (by
      refine le_of_le_of_eq (by exact_mod_cast hfine) ?_
      push_cast
      rw [zpow_sub₀ two_ne_zero]
      ring)
    rwa [neg_sub, mul_assoc] at this
  have hcentre : (Window.of m q s).centre = 4 * (m * unit) := Nat.mul_assoc 4 m unit
  have hlow : (Window.of m q s).low = 4 * (m * unit) - below m q * unit := by
    rw [← Nat.mul_assoc, ← Nat.sub_mul]
    rfl
  have hhigh : (Window.of m q s).high = 4 * (m * unit) + 2 * unit := by
    rw [← Nat.mul_assoc, ← Nat.add_mul]
    rfl
  have hpos : 0 < unit := by positivity
  have hone : unit ≤ m * unit := Nat.le_mul_of_pos_left unit hm
  have hmost : m * unit ≤ (2 ^ 53 - 1) * unit := Nat.mul_le_mul_right unit (by have := h.lt; omega)
  refine Window.isSome_nearest? ?_
  set down := (Window.of m q s).centre / (Window.of m q s).step with hdown
  have hle : down * step ≤ 4 * (m * unit) := hcentre ▸ Nat.div_mul_le_self _ _
  have hlt : 4 * (m * unit) < down * step + step := by
    rw [← Nat.succ_mul, ← hcentre]
    exact (Nat.div_lt_iff_lt_mul (by positivity)).mp (Nat.lt_succ_self down)
  have hb := below_eq m q
  have hdownw : 4 * (m * unit) < down * step + 2 * unit → below m q = 2 →
      (Window.of m q s).holds down := fun hnear hb => by
    refine Window.holds_of_lt (?_ : _ < down * step) (?_ : down * step < _)
    · rw [hlow, hb]; omega
    · rw [hhigh]; omega
  have hupw : down * step + step < 4 * (m * unit) + 2 * unit →
      (Window.of m q s).holds (down + 1) := fun hnear => by
    refine Window.holds_of_lt (?_ : _ < (down + 1) * step) (?_ : (down + 1) * step < _)
    · rw [hlow, Nat.add_one_mul down step]; omega
    · rw [hhigh, Nat.add_one_mul down step]; omega
  split_ifs at hb with hfull
  · -- at a power of two the grid is twice as fine
    rw [hfull.1] at hfine
    exact .inr (hupw (by omega))
  · by_cases hnear : 4 * (m * unit) < down * step + 2 * unit
    · exact .inl (hdownw hnear hb)
    · exact .inr (hupw (by omega))

theorem reaches_iff (k : Int) : reaches m q k ↔ (10 : ℚ) ^ k ≤ m * 2 ^ q := by
  have := points_le_places m 1 q k
  rw [one_mul, Nat.cast_one, one_mul, Nat.mul_comm (2 ^ _), ← Nat.mul_assoc] at this
  rw [← this]
  exact decide_eq_true_iff

theorem ten_pow_le_two_pow {n k : Nat} (h : 196 * n ≤ 59 * k) : 10 ^ n ≤ 2 ^ k := by
  refine (Nat.pow_le_pow_iff_left (n := 59) (by decide)).mp ?_
  calc (10 ^ n) ^ 59 = (10 ^ 59) ^ n := by rw [← pow_mul, ← pow_mul, Nat.mul_comm]
    _ ≤ (2 ^ 196) ^ n := Nat.pow_le_pow_left (by decide) n
    _ = 2 ^ (196 * n) := (pow_mul 2 196 n).symm
    _ ≤ 2 ^ (59 * k) := Nat.pow_le_pow_right (by decide) h
    _ = (2 ^ k) ^ 59 := by rw [← pow_mul, Nat.mul_comm]

theorem two_pow_le_ten_pow {n k : Nat} (h : 28 * k ≤ 93 * n) : 2 ^ k ≤ 10 ^ n := by
  refine (Nat.pow_le_pow_iff_left (n := 93) (by decide)).mp ?_
  calc (2 ^ k) ^ 93 = (2 ^ 93) ^ k := by rw [← pow_mul, ← pow_mul, Nat.mul_comm]
    _ ≤ (10 ^ 28) ^ k := Nat.pow_le_pow_left (by decide) k
    _ = 10 ^ (28 * k) := (pow_mul 10 28 k).symm
    _ ≤ 10 ^ (93 * n) := Nat.pow_le_pow_right (by decide) h
    _ = (10 ^ n) ^ 93 := by rw [← pow_mul, Nat.mul_comm]

/-- An estimate of a decimal exponent is not too great: the logarithm of two to the base ten lies
between `59 / 196` and `28 / 93`. -/
theorem ten_zpow_le_two_zpow {e l : Int} (hmost : l ≤ 2000) (hleast : -2000 ≤ l)
    (he : 100000 * (e + 1) ≤ 30103 * l) : (10 : ℚ) ^ e ≤ 2 ^ l := by
  rcases le_total 0 e with he0 | he0
  · lift e to Nat using he0
    lift l to Nat using by omega
    exact_mod_cast ten_pow_le_two_pow (n := e) (k := l) (by omega)
  · rcases le_total 0 l with hl | hl
    · exact (zpow_le_one_of_nonpos₀ (by norm_num) he0).trans (one_le_zpow₀ (by norm_num) hl)
    · obtain ⟨n, rfl⟩ := Int.exists_eq_neg_ofNat he0
      obtain ⟨k, rfl⟩ := Int.exists_eq_neg_ofNat hl
      rw [zpow_neg, zpow_neg, zpow_natCast, zpow_natCast]
      refine inv_anti₀ (by positivity) ?_
      exact_mod_cast two_pow_le_ten_pow (n := n) (k := k) (by omega)

/-- The estimate from which the search for the leading digit starts. -/
theorem reaches_estimate (h : OfDouble m q) (hm : 0 < m) :
    reaches m q (((Nat.log2 m : Int) + q) * 30103 / 100000 - 1) := by
  rw [reaches_iff]
  have hlog : m.log2 ≤ 52 := by
    have := (Nat.log2_lt (by omega)).mpr h.lt
    omega
  have := h.least
  have := h.most
  refine (ten_zpow_le_two_zpow (l := m.log2 + q) (by omega) (by omega) (by omega)).trans ?_
  rw [zpow_add₀ two_ne_zero, zpow_natCast]
  refine mul_le_mul_of_nonneg_right ?_ (by positivity)
  exact_mod_cast Nat.log2_self_le (by omega)

theorem pow_pointAfter_le (h : OfDouble m q) (hm : 0 < m) :
    (10 : ℚ) ^ (pointAfter m q - 1) ≤ m * 2 ^ q := by
  have hbump (k : Int) (hk : reaches m q (k - 1)) :
      reaches m q ((if reaches m q k then k + 1 else k) - 1) := by
    split
    · rwa [Int.add_sub_cancel]
    · exact hk
  have hfirst := reaches_estimate h hm
  refine (reaches_iff _).mp (hbump _ (hbump _ (hbump _ ?_)))
  dsimp only
  rwa [if_pos hfirst, Int.add_sub_cancel]

/-- The shortest decimal of a double rounds to it. -/
theorem roundsTo_shortest (tie : Tie) (h : OfDouble m q) (hm : 0 < m) :
    RoundsTo m q ((shortest tie m q).digits * 10 ^ (shortest tie m q).scale) := by
  refine (Window.holds_of m q _ _).mp (holds_firstHit ⟨17, by omega, Window.hit_of_fine h hm ?_⟩)
  refine le_of_eq_of_le ?_ (pow_pointAfter_le h hm)
  rw [← zpow_natCast, ← zpow_add₀ (by norm_num)]
  congr 1
  push_cast
  ring

end Search

end Tabletop.Decimal
